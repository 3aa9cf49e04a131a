import Mathlib.Tactic.Ring
import RustClash.Lib.ByteOrder
import RustClash.Lib.Checked

/-!
# One's complement checksums

The checksum of the internet protocols: the big-endian words of the data are
added, an odd byte padded with zero, and carries are added back in at the low
end.  `endAround` is the sum so reduced to sixteen bits, and data carries a valid
checksum when it is `0xFFFF`.
-/

namespace OnesComplement

open Checked

def wordSum : List UInt8 → Nat
  | hi :: lo :: rest => ofBe16 hi lo + wordSum rest
  | [b] => ofBe16 b 0
  | [] => 0

/-- A sum with its carries added back in: the residue modulo `0xFFFF`, where only
zero itself is zero. -/
def endAround (n : Nat) : Nat := if n = 0 then 0 else (n - 1) % 0xFFFF + 1

/-- The sum of data that carries its checksum. -/
def Verifies (n : Nat) : Prop := endAround n = 0xFFFF

instance (n : Nat) : Decidable (Verifies n) := inferInstanceAs (Decidable (_ = _))

theorem endAround_of_le {n : Nat} (h : n ≤ 0xFFFF) : endAround n = n := by
  simp only [endAround]
  split <;> omega

/-- Adding the carries back in once does not change the reduced sum. -/
theorem endAround_carry (n : Nat) : endAround (n % 0x10000 + n / 0x10000) = endAround n := by
  simp only [endAround]
  split <;> split <;> omega

/-- The complement of a sum completes it. -/
theorem verifies_add_complement {n : Nat} (h : 0 < n) : Verifies (n + (0xFFFF - endAround n)) := by
  have hn : endAround n = (n - 1) % 0xFFFF + 1 := if_neg (by omega)
  rw [Verifies, hn, endAround, if_neg (by omega)]
  omega

/-- So does the other zero, where the complement is zero. -/
theorem verifies_add_nonzero {n : Nat} (h : 0 < n) :
    Verifies (n + if 0xFFFF - endAround n = 0 then 0xFFFF else 0xFFFF - endAround n) := by
  split
  · next hzero =>
      have hn : endAround n = (n - 1) % 0xFFFF + 1 := if_neg (by omega)
      rw [Verifies, endAround, if_neg (by omega)]
      omega
  · exact verifies_add_complement h

/-! ## Sums of words -/

theorem wordSum_append : ∀ {xs ys : List UInt8}, xs.length % 2 = 0 →
    wordSum (xs ++ ys) = wordSum xs + wordSum ys
  | [], _, _ => by simp [wordSum]
  | [_], _, h => by simp at h
  | _ :: _ :: xs, ys, h => by
      have ih := @wordSum_append xs ys (by simp only [List.length_cons] at h; omega)
      simp only [List.cons_append, wordSum, ih]
      ring

theorem wordSum_le : ∀ xs : List UInt8, wordSum xs ≤ 0xFFFF * ((xs.length + 1) / 2)
  | [] => Nat.zero_le _
  | [b] => by
      have := b.toNat_lt
      simp [wordSum, ofBe16]
      omega
  | hi :: lo :: xs => by
      have ih := wordSum_le xs
      have := hi.toNat_lt
      have := lo.toNat_lt
      simp only [wordSum, ofBe16, List.length_cons] at ih ⊢
      omega

theorem wordSum_pos : ∀ {xs : List UInt8}, 0 < (xs.getD 0 0).toNat → 0 < wordSum xs
  | [], h => by simp at h
  | [b], h => by
      simp only [List.getD_cons_zero] at h
      simp only [wordSum, ofBe16]
      omega
  | hi :: lo :: rest, h => by
      simp only [List.getD_cons_zero] at h
      simp only [wordSum, ofBe16]
      omega

/-- The word at an even place counts for its value. -/
theorem wordSum_overwrite {xs : List UInt8} {i : Nat} (he : i % 2 = 0) (h : i + 2 ≤ xs.length)
    (hi lo : UInt8) : wordSum (overwrite xs i [hi, lo]) =
      wordSum (overwrite xs i [0, 0]) + ofBe16 hi lo := by
  have hlen : (xs.take i).length % 2 = 0 := by rw [List.length_take]; omega
  simp only [overwrite, List.append_assoc, wordSum_append hlen, List.length_cons, List.length_nil,
    List.cons_append, List.nil_append, wordSum]
  simp only [ofBe16, UInt8.toNat_zero]
  ring

/-- Data whose checksum is the complement of the sum without it carries a valid one. -/
theorem verifies_overwrite {xs : List UInt8} {base i : Nat} (he : i % 2 = 0)
    (h : i + 2 ≤ xs.length) (hpos : 0 < base + wordSum (overwrite xs i [0, 0])) :
    Verifies (base + wordSum (overwrite xs i
      (toBe16 (0xFFFF - endAround (base + wordSum (overwrite xs i [0, 0])))))) := by
  rw [toBe16, wordSum_overwrite he h, ofBe16_toBe16 (by omega), ← Nat.add_assoc]
  exact verifies_add_complement hpos

end OnesComplement
