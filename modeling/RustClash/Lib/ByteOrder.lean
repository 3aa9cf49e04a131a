import Mathlib.Algebra.Group.Nat.Defs
import Mathlib.Data.List.Induction

/-!
# Numbers in bytes

`ofBe16` and `toBe16` are `u16::from_be_bytes` and `to_be_bytes` on natural
numbers; a number of more than sixteen bits is cut to its low ones, as `as u16`
cuts it.  `ofBe` and `toBe` are the same for any number of bytes.  `toLe` and `ofLe`
have the least significant byte first, and `increment` adds one to such a counter in
place, and wraps around at its end.
-/

/-! ## Big-endian numbers -/

def ofBe16 (hi lo : UInt8) : Nat := hi.toNat * 256 + lo.toNat

def toBe16 (n : Nat) : List UInt8 := [UInt8.ofNat (n / 256), UInt8.ofNat n]

@[simp] theorem length_toBe16 (n : Nat) : (toBe16 n).length = 2 := rfl

/-- A number of sixteen bits survives the trip through its bytes. -/
theorem ofBe16_toBe16 {n : Nat} (h : n < 65536) :
    ofBe16 (UInt8.ofNat (n / 256)) (UInt8.ofNat n) = n := by
  simp only [ofBe16]
  rw [UInt8.toNat_ofNat', UInt8.toNat_ofNat']
  omega

theorem ofBe16_getD_toBe16 {n : Nat} (h : n < 65536) :
    ofBe16 ((toBe16 n).getD 0 0) ((toBe16 n).getD 1 0) = n := ofBe16_toBe16 h

@[simp] theorem uint16_ofBe16_toBe16 (v : UInt16) :
    UInt16.ofNat (ofBe16 (UInt8.ofNat (v.toNat / 256)) (UInt8.ofNat v.toNat)) = v := by
  rw [ofBe16_toBe16 v.toNat_lt, UInt16.ofNat_toNat]

/-- The number that bytes stand for, the first being the most significant. -/
def ofBe (bs : List UInt8) : Nat := bs.foldl (fun n b => n * 256 + b.toNat) 0

/-- The low `len` bytes of a number. -/
def toBe : (len : Nat) → Nat → List UInt8
  | 0, _ => []
  | len + 1, n => toBe len (n / 256) ++ [UInt8.ofNat n]

@[simp] theorem length_toBe (len n : Nat) : (toBe len n).length = len := by
  induction len generalizing n with
  | zero => rfl
  | succ len ih => simp [toBe, ih]

theorem toBe16_ofBe16 (hi lo : UInt8) : toBe16 (ofBe16 hi lo) = [hi, lo] := by
  have hlo := lo.toNat_lt
  have hdiv : (hi.toNat * 256 + lo.toNat) / 256 = hi.toNat := by omega
  have hmod : UInt8.ofNat (hi.toNat * 256 + lo.toNat) = lo := by
    apply UInt8.toNat_inj.mp
    rw [UInt8.toNat_ofNat']
    omega
  rw [toBe16, ofBe16, hdiv, hmod, UInt8.ofNat_toNat]

theorem ofBe_append_singleton (bs : List UInt8) (b : UInt8) :
    ofBe (bs ++ [b]) = ofBe bs * 256 + b.toNat := by
  rw [ofBe, List.foldl_append]
  rfl

theorem toBe_ofBe (bs : List UInt8) : toBe bs.length (ofBe bs) = bs := by
  induction bs using List.reverseRecOn with
  | nil => rfl
  | append_singleton bs b ih =>
    have hlt := b.toNat_lt
    have hdiv : (ofBe bs * 256 + b.toNat) / 256 = ofBe bs := by omega
    have hmod : UInt8.ofNat (ofBe bs * 256 + b.toNat) = b := by
      apply UInt8.toNat_inj.mp
      rw [UInt8.toNat_ofNat']
      omega
    rw [List.length_append, List.length_singleton, toBe, ofBe_append_singleton, hdiv, hmod, ih]

theorem ofBe_lt (bs : List UInt8) : ofBe bs < 256 ^ bs.length := by
  induction bs using List.reverseRecOn with
  | nil => exact Nat.zero_lt_one
  | append_singleton bs b ih =>
    have hlt := b.toNat_lt
    rw [ofBe_append_singleton, List.length_append, List.length_singleton, Nat.pow_succ]
    omega

theorem ofBe_append (as bs : List UInt8) : ofBe (as ++ bs) = ofBe as * 256 ^ bs.length + ofBe bs := by
  induction bs using List.reverseRecOn with
  | nil => simp [ofBe]
  | append_singleton bs b ih =>
    rw [← List.append_assoc, ofBe_append_singleton, ofBe_append_singleton, ih, List.length_append,
      List.length_singleton, Nat.pow_succ, Nat.add_mul, Nat.mul_assoc, Nat.add_assoc]

theorem ofBe_toBe {len n : Nat} (h : n < 256 ^ len) : ofBe (toBe len n) = n := by
  induction len generalizing n with
  | zero =>
    rw [Nat.pow_zero, Nat.lt_one_iff] at h
    rw [h]
    rfl
  | succ len ih =>
    rw [Nat.pow_succ] at h
    rw [toBe, ofBe_append_singleton, ih (Nat.div_lt_of_lt_mul (by rwa [Nat.mul_comm])),
      UInt8.toNat_ofNat']
    omega

/-! ## Little-endian counters -/

/-- The low `len` bytes of a number. -/
def toLe : (len : Nat) → Nat → List UInt8
  | 0, _ => []
  | len + 1, n => UInt8.ofNat n :: toLe len (n / 256)

/-- The number that the bytes stand for. -/
def ofLe : List UInt8 → Nat
  | [] => 0
  | b :: bs => b.toNat + 256 * ofLe bs

/-- Add one: a byte that wraps to zero carries. -/
def increment : List UInt8 → List UInt8
  | [] => []
  | b :: bs => if b + 1 ≠ 0 then (b + 1) :: bs else (b + 1) :: increment bs

@[simp] theorem length_toLe (len n : Nat) : (toLe len n).length = len := by
  induction len generalizing n with
  | zero => rfl
  | succ len ih => simp [toLe, ih]

theorem ofLe_toLe {len n : Nat} (h : n < 256 ^ len) : ofLe (toLe len n) = n := by
  induction len generalizing n with
  | zero =>
    rw [Nat.pow_zero, Nat.lt_one_iff] at h
    rw [h]
    rfl
  | succ len ih =>
    rw [Nat.pow_succ] at h
    rw [toLe, ofLe, ih (by omega), UInt8.toNat_ofNat']
    omega

theorem ofLe_lt (bs : List UInt8) : ofLe bs < 256 ^ bs.length := by
  induction bs with
  | nil => exact Nat.zero_lt_one
  | cons b bs ih =>
    have hlt := b.toNat_lt
    rw [ofLe, List.length_cons, Nat.pow_succ]
    omega

theorem toLe_ofLe (bs : List UInt8) : toLe bs.length (ofLe bs) = bs := by
  induction bs with
  | nil => rfl
  | cons b bs ih =>
    have hlt := b.toNat_lt
    have hdiv : (b.toNat + 256 * ofLe bs) / 256 = ofLe bs := by omega
    have hmod : UInt8.ofNat (b.toNat + 256 * ofLe bs) = b := by
      apply UInt8.toNat_inj.mp
      rw [UInt8.toNat_ofNat']
      omega
    rw [List.length_cons, ofLe, toLe, hdiv, hmod, ih]

theorem toLe_zero (len : Nat) : toLe len 0 = List.replicate len 0 := by
  induction len with
  | zero => rfl
  | succ len ih =>
    rw [toLe, Nat.zero_div, ih]
    rfl

theorem increment_toLe (len n : Nat) : increment (toLe len n) = toLe len (n + 1) := by
  induction len generalizing n with
  | zero => rfl
  | succ len ih =>
    have hnext : UInt8.ofNat n + 1 = UInt8.ofNat (n + 1) := by rw [UInt8.ofNat_add]; rfl
    have hzero : UInt8.ofNat (n + 1) ≠ 0 ↔ (n + 1) % 256 ≠ 0 := by
      rw [ne_eq, ne_eq, ← UInt8.toNat_inj, UInt8.toNat_ofNat']
      rfl
    rw [toLe, increment, hnext, toLe]
    split
    · next hne =>
      have hmod := hzero.mp hne
      rw [show (n + 1) / 256 = n / 256 by omega]
    · next heq =>
      have hmod : (n + 1) % 256 = 0 := Decidable.not_not.mp fun hne => heq (hzero.mpr hne)
      rw [ih, show (n + 1) / 256 = n / 256 + 1 by omega]

theorem toLe_injective {len n m : Nat} (hn : n < 256 ^ len) (hm : m < 256 ^ len)
    (h : toLe len n = toLe len m) : n = m := by
  induction len generalizing n m with
  | zero =>
    rw [Nat.pow_zero] at hn hm
    omega
  | succ len ih =>
    rw [Nat.pow_succ] at hn hm
    rw [toLe, toLe, List.cons.injEq] at h
    have hlow := congrArg UInt8.toNat h.1
    rw [UInt8.toNat_ofNat', UInt8.toNat_ofNat'] at hlow
    have hhigh := ih (by omega) (by omega) h.2
    omega
