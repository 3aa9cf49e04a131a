import Mathlib.Algebra.Group.Nat.Defs
import RustClash.Core.Str

/-!
# Lossy decoding

A byte of ASCII is never a part of a longer character, so decoding a text is decoding
the pieces between its ASCII characters.
-/

namespace RustClash

namespace Str

theorem bytes_append (s t : Str) : bytes (s ++ t) = bytes s ++ bytes t := List.flatMap_append

/-- The character with the number of the byte. -/
def charOfByte (b : UInt8) : Char := Char.ofNat b.toNat

theorem charOfByte_ascii {c : Char} (h : c.toNat < 128) :
    charOfByte (UInt8.ofNat c.toNat) = c := by
  rw [charOfByte, UInt8.toNat_ofNat_of_lt' (Nat.lt_trans h (by decide)), Char.ofNat_toNat]

/-- What follows the bytes that can continue a character is not looked at. -/
theorem decodeHead_takeWhile (b : UInt8) (rest : Bytes) :
    decodeHead b rest = decodeHead b (rest.takeWhile isCont) := by
  have h0 : isCont 0 = false := by decide
  match rest with
  | [] => rfl
  | c1 :: rest =>
    by_cases h1 : isCont c1
    · rw [List.takeWhile_cons_of_pos h1]
      match rest with
      | [] => rfl
      | c2 :: rest =>
        by_cases h2 : isCont c2
        · rw [List.takeWhile_cons_of_pos h2]
          match rest with
          | [] => rfl
          | c3 :: rest =>
            by_cases h3 : isCont c3
            · rw [List.takeWhile_cons_of_pos h3]
              rfl
            · rw [List.takeWhile_cons_of_neg h3]
              simp [decodeHead, h0, h3]
        · rw [List.takeWhile_cons_of_neg h2]
          simp [decodeHead, h0, h2]
    · rw [List.takeWhile_cons_of_neg h1]
      simp [decodeHead, h0, h1]

theorem le_takeWhile_isCont : ∀ (k : Nat) (rest : Bytes), (∀ i < k, isCont (rest.getD i 0)) →
    k ≤ (rest.takeWhile isCont).length
  | 0, _, _ => Nat.zero_le _
  | k + 1, [], h => absurd (h 0 (Nat.succ_pos k)) (by decide)
  | k + 1, c :: cs, h => by
      have hc : isCont c := h 0 (Nat.succ_pos k)
      rw [List.takeWhile_cons_of_pos hc, List.length_cons]
      exact Nat.succ_le_succ (le_takeWhile_isCont k cs fun i hi => h (i + 1) (Nat.succ_lt_succ hi))

/-- The bytes taken after the first one continue it. -/
theorem decodeHead_length (b : UInt8) (rest : Bytes) :
    (decodeHead b rest).2 - 1 ≤ (rest.takeWhile isCont).length := by
  have hle := fun k => le_takeWhile_isCont k rest
  rw [decodeHead]
  split
  · exact Nat.zero_le _
  · split
    · split
      · next h1 => exact hle 1 fun i hi => by cases Nat.lt_one_iff.mp hi; exact h1
      · exact Nat.zero_le _
    · split
      · split
        · exact Nat.zero_le _
        · next h1 =>
          simp only [not_or, Bool.not_eq_true', Bool.not_eq_false] at h1
          split
          · exact hle 1 fun i hi => by cases Nat.lt_one_iff.mp hi; exact h1.1
          · next h2 =>
            rw [Bool.not_eq_true', Bool.not_eq_false] at h2
            refine hle 2 fun i hi => ?_
            rcases i with _ | _ | i
            · exact h1.1
            · exact h2
            · omega
      · split
        · split
          · exact Nat.zero_le _
          · next h1 =>
            simp only [not_or, Bool.not_eq_true', Bool.not_eq_false] at h1
            split
            · exact hle 1 fun i hi => by cases Nat.lt_one_iff.mp hi; exact h1.1
            · next h2 =>
              rw [Bool.not_eq_true', Bool.not_eq_false] at h2
              split
              · refine hle 2 fun i hi => ?_
                rcases i with _ | _ | i
                · exact h1.1
                · exact h2
                · omega
              · next h3 =>
                rw [Bool.not_eq_true', Bool.not_eq_false] at h3
                refine hle 3 fun i hi => ?_
                rcases i with _ | _ | _ | i
                · exact h1.1
                · exact h2
                · exact h3
                · omega
        · exact Nat.zero_le _

theorem decode_cons (fuel : Nat) (b : UInt8) (bs : Bytes) : decode (fuel + 1) (b :: bs) =
    (decodeHead b bs).1 :: decode fuel (bs.drop ((decodeHead b bs).2 - 1)) := by
  rw [decode]

/-- The fuel is enough for one character for each byte. -/
theorem decode_fuel : ∀ {m n : Nat} {bs : Bytes}, bs.length ≤ m → bs.length ≤ n →
    decode m bs = decode n bs
  | 0, n, [], _, _ => by cases n <;> rfl
  | _ + 1, n, [], _, _ => by cases n <;> rfl
  | m + 1, 0, _ :: _, _, hn => absurd hn (Nat.not_succ_le_zero _)
  | m + 1, n + 1, b :: bs, hm, hn => by
      have hdrop : (bs.drop ((decodeHead b bs).2 - 1)).length ≤ bs.length := by
        rw [List.length_drop]
        exact Nat.sub_le _ _
      rw [decode_cons, decode_cons, decode_fuel (Nat.le_trans hdrop (Nat.le_of_succ_le_succ hm))
        (Nat.le_trans hdrop (Nat.le_of_succ_le_succ hn))]

theorem fromUtf8Lossy_cons (b : UInt8) (bs : Bytes) : fromUtf8Lossy (b :: bs) =
    (decodeHead b bs).1.getD '\uFFFD' :: fromUtf8Lossy (bs.drop ((decodeHead b bs).2 - 1)) := by
  have hdrop : (bs.drop ((decodeHead b bs).2 - 1)).length ≤ bs.length := by
    rw [List.length_drop]
    exact Nat.sub_le _ _
  rw [fromUtf8Lossy, List.length_cons, decode_cons, List.map_cons, fromUtf8Lossy,
    decode_fuel hdrop (Nat.le_refl _)]

theorem decodeHead_ascii {b : UInt8} (h : b < 128) (rest : Bytes) :
    decodeHead b rest = (some (charOfByte b), 1) := if_pos h

theorem fromUtf8Lossy_cons_ascii {b : UInt8} (h : b < 128) (bs : Bytes) :
    fromUtf8Lossy (b :: bs) = charOfByte b :: fromUtf8Lossy bs := by
  rw [fromUtf8Lossy_cons, decodeHead_ascii h]
  rfl

theorem isCont_ascii {b : UInt8} (h : b < 128) : isCont b = false := by
  refine decide_eq_false fun hc => ?_
  have hle : (b &&& 0xC0).toNat ≤ b.toNat := by
    rw [UInt8.toNat_and]
    exact Nat.and_le_left
  rw [hc] at hle
  exact absurd (UInt8.lt_iff_toNat_lt.mp h) (Nat.not_lt.mpr hle)

/-- Nothing before an ASCII byte reaches over it. -/
theorem fromUtf8Lossy_append {b : UInt8} (h : b < 128) (bs : Bytes) : ∀ a : Bytes,
    fromUtf8Lossy (a ++ b :: bs) = fromUtf8Lossy a ++ charOfByte b :: fromUtf8Lossy bs
  | [] => fromUtf8Lossy_cons_ascii h bs
  | c :: cs => by
      have htake : (cs ++ b :: bs).takeWhile isCont = cs.takeWhile isCont := by
        induction cs with
        | nil => exact List.takeWhile_cons_of_neg (by rw [isCont_ascii h]; exact Bool.false_ne_true)
        | cons d ds ih => rw [List.cons_append, List.takeWhile_cons, List.takeWhile_cons, ih]
      have hhead : decodeHead c (cs ++ b :: bs) = decodeHead c cs := by
        rw [decodeHead_takeWhile, htake, ← decodeHead_takeWhile]
      have hlen : (decodeHead c cs).2 - 1 ≤ cs.length :=
        Nat.le_trans (decodeHead_length c cs) (List.takeWhile_prefix isCont).length_le
      rw [List.cons_append, fromUtf8Lossy_cons, hhead, List.drop_append_of_le_length hlen,
        fromUtf8Lossy_append h bs (cs.drop ((decodeHead c cs).2 - 1)), fromUtf8Lossy_cons]
      rfl
termination_by a => a.length
decreasing_by simp only [List.length_drop, List.length_cons]; omega

/-- Bytes that are all ASCII. -/
theorem fromUtf8Lossy_ascii : ∀ {bs : Bytes}, (∀ b ∈ bs, b < 128) →
    fromUtf8Lossy bs = bs.map charOfByte
  | [], _ => rfl
  | b :: bs, h => by
      rw [fromUtf8Lossy_cons_ascii (h b List.mem_cons_self),
        fromUtf8Lossy_ascii fun c hc => h c (List.mem_cons_of_mem _ hc)]
      rfl

/-! ## Where ASCII comes from -/

theorem toNat_ofNat {n : Nat} (h : n.isValidChar) : (Char.ofNat n).toNat = n := by
  rw [Char.ofNat, dif_pos h]
  rfl

theorem toNat_charOfByte_ascii {b : UInt8} (h : b < 128) : (charOfByte b).toNat = b.toNat := by
  have hb : b.toNat < 128 := UInt8.lt_iff_toNat_lt.mp h
  exact toNat_ofNat (.inl (Nat.lt_trans hb (by decide)))

theorem toNat_and_mask {b m : UInt8} {n : Nat} (hm : m.toNat = 2 ^ n - 1) :
    (b &&& m).toNat = b.toNat % 2 ^ n := by
  rw [UInt8.toNat_and, hm, Nat.and_two_pow_sub_one_eq_mod]

theorem range_of_isCont {b : UInt8} (h : isCont b) : 128 ≤ b.toNat ∧ b.toNat < 192 := by
  have hall : ∀ n < 256, isCont (UInt8.ofNat n) → 128 ≤ n ∧ n < 192 := by decide +kernel
  have := hall b.toNat b.toNat_lt
  rw [UInt8.ofNat_toNat] at this
  exact this h

/-- A character that starts with no ASCII byte is no ASCII character. -/
theorem decodeHead_not_ascii {b : UInt8} (h : ¬ b < 128) (rest : Bytes) :
    128 ≤ ((decodeHead b rest).1.getD '\uFFFD').toNat := by
  have hbad : 128 ≤ ('\uFFFD' : Char).toNat := by decide
  have hchar {n : Nat} (hn : 128 ≤ n) (hv : n < 0xD800 ∨ (0xDFFF < n ∧ n < 0x110000)) :
      128 ≤ (Char.ofNat n).toNat := by
    rw [toNat_ofNat hv]
    exact hn
  have h5 : (b &&& 0x1F).toNat = b.toNat % 32 := toNat_and_mask (n := 5) rfl
  have h4 : (b &&& 0x0F).toNat = b.toNat % 16 := toNat_and_mask (n := 4) rfl
  have h3 : (b &&& 0x07).toNat = b.toNat % 8 := toNat_and_mask (n := 3) rfl
  have h6 (c : UInt8) : (c &&& 0x3F).toNat = c.toNat % 64 := toNat_and_mask (n := 6) rfl
  rw [decodeHead, if_neg h]
  simp only [h3, h4, h5, h6, UInt8.le_iff_toNat_le, UInt8.lt_iff_toNat_lt, ← UInt8.toNat_inj,
    UInt8.reduceToNat]
  split
  · next hb =>
    split
    · exact hchar (by omega) (by omega)
    · exact hbad
  · split
    · next hb =>
      split
      · exact hbad
      · next h1 =>
        simp only [not_or, not_and, Bool.not_eq_true', Bool.not_eq_false] at h1
        have hr := range_of_isCont h1.1
        split
        · exact hbad
        · exact hchar (by omega) (by omega)
    · split
      · next hb =>
        split
        · exact hbad
        · next h1 =>
          simp only [not_or, not_and, Bool.not_eq_true', Bool.not_eq_false] at h1
          have hr := range_of_isCont h1.1
          split
          · exact hbad
          · split
            · exact hbad
            · exact hchar (by omega) (by omega)
      · exact hbad

/-- An ASCII character of the text is a byte of it. -/
theorem mem_of_mem_fromUtf8Lossy {c : Char} (hc : c.toNat < 128) : ∀ {bs : Bytes},
    c ∈ fromUtf8Lossy bs → UInt8.ofNat c.toNat ∈ bs
  | [], h => by cases h
  | b :: bs, h => by
      rw [fromUtf8Lossy_cons] at h
      rcases List.mem_cons.mp h with hhead | htail
      · by_cases hb : b < 128
        · rw [decodeHead_ascii hb] at hhead
          have hn : c.toNat = b.toNat := by
            rw [hhead]
            exact toNat_charOfByte_ascii hb
          rw [hn, UInt8.ofNat_toNat]
          exact List.mem_cons_self
        · have := decodeHead_not_ascii hb bs
          rw [← hhead] at this
          omega
      · exact List.mem_cons_of_mem _ (List.mem_of_mem_drop (mem_of_mem_fromUtf8Lossy hc htail))
termination_by bs => bs.length
decreasing_by simp only [List.length_drop, List.length_cons]; omega

/-- An ASCII byte of a text is a character of it. -/
theorem mem_of_mem_bytes {b : UInt8} (hb : b < 128) {s : Str} (h : b ∈ bytes s) :
    charOfByte b ∈ s := by
  obtain ⟨c, hc, hbc⟩ := List.mem_flatMap.mp h
  have hlt : b.toNat < 128 := UInt8.lt_iff_toNat_lt.mp hb
  by_cases hascii : c.toNat < 128
  · rw [utf8EncodeChar_ascii hascii, List.mem_singleton] at hbc
    rw [hbc, charOfByte_ascii hascii]
    exact hc
  · -- every byte of a longer character has its top bit set
    have hlead (x y : Nat) (hxy : 128 ≤ x + y ∧ x + y < 256) : b ≠ UInt8.ofNat (x + y) := by
      rintro rfl
      rw [UInt8.toNat_ofNat_of_lt' hxy.2] at hlt
      omega
    have hone : ¬ c.val.toNat ≤ 127 := fun h => hascii (Nat.lt_succ_of_le h)
    rw [String.utf8EncodeChar, if_neg hone] at hbc
    split at hbc
    · rcases hbc with _ | ⟨_, _ | ⟨_, hbc⟩⟩
      · exact absurd rfl (hlead _ _ (by omega))
      · exact absurd rfl (hlead _ _ (by omega))
      · cases hbc
    · split at hbc
      · rcases hbc with _ | ⟨_, _ | ⟨_, _ | ⟨_, hbc⟩⟩⟩
        · exact absurd rfl (hlead _ _ (by omega))
        · exact absurd rfl (hlead _ _ (by omega))
        · exact absurd rfl (hlead _ _ (by omega))
        · cases hbc
      · rcases hbc with _ | ⟨_, _ | ⟨_, _ | ⟨_, _ | ⟨_, hbc⟩⟩⟩⟩
        · exact absurd rfl (hlead _ _ (by omega))
        · exact absurd rfl (hlead _ _ (by omega))
        · exact absurd rfl (hlead _ _ (by omega))
        · exact absurd rfl (hlead _ _ (by omega))
        · cases hbc

/-! ## There and back -/

theorem toNat_lead {a k : Nat} (h : a + k < 256) : (UInt8.ofNat (a + k)).toNat = a + k :=
  UInt8.toNat_ofNat_of_lt' h

theorem isCont_ofNat {n : Nat} (h : n < 64) : isCont (UInt8.ofNat (n + 128)) = true := by
  have hall : ∀ n < 64, isCont (UInt8.ofNat (n + 128)) = true := by decide +kernel
  exact hall n h

theorem low_ofNat {n : Nat} (h : n < 64) : (UInt8.ofNat (n + 128) &&& 0x3F).toNat = n := by
  rw [toNat_and_mask (n := 6) rfl, toNat_lead (by omega)]
  omega

theorem decodeHead_two {a b : Nat} (ha : 2 ≤ a) (ha' : a < 32) (hb : b < 64) (rest : Bytes) :
    decodeHead (UInt8.ofNat (a + 192)) (UInt8.ofNat (b + 128) :: rest) =
      (some (Char.ofNat (a * 64 + b)), 2) := by
  have hlead : (UInt8.ofNat (a + 192)).toNat = a + 192 := toNat_lead (by omega)
  have hmask : (UInt8.ofNat (a + 192) &&& 0x1F).toNat = a := by
    rw [toNat_and_mask (n := 5) rfl, hlead]
    omega
  simp only [decodeHead, List.getD_cons_zero, UInt8.lt_iff_toNat_lt, UInt8.le_iff_toNat_le, hlead]
  rw [if_neg (by simp), if_pos (by simp; omega), if_pos (isCont_ofNat hb), hmask, low_ofNat hb]

theorem decodeHead_three {a b c : Nat} (ha : a < 16) (hb : b < 64) (hc : c < 64)
    (hshort : a = 0 → 32 ≤ b) (hsurrogate : a = 13 → b < 32) (rest : Bytes) :
    decodeHead (UInt8.ofNat (a + 224)) (UInt8.ofNat (b + 128) :: UInt8.ofNat (c + 128) :: rest) =
      (some (Char.ofNat ((a * 64 + b) * 64 + c)), 3) := by
  have hlead : (UInt8.ofNat (a + 224)).toNat = a + 224 := toNat_lead (by omega)
  have hnext : (UInt8.ofNat (b + 128)).toNat = b + 128 := toNat_lead (by omega)
  have hmask : (UInt8.ofNat (a + 224) &&& 0x0F).toNat = a := by
    rw [toNat_and_mask (n := 4) rfl, hlead]
    omega
  have hfirst : ¬ (!isCont (UInt8.ofNat (b + 128)) ∨
      (UInt8.ofNat (a + 224) = 0xE0 ∧ UInt8.ofNat (b + 128) < 0xA0) ∨
      (UInt8.ofNat (a + 224) = 0xED ∧ 0x9F < UInt8.ofNat (b + 128))) := by
    rw [isCont_ofNat hb]
    simp only [← UInt8.toNat_inj, UInt8.lt_iff_toNat_lt, hlead, hnext]
    simp
    omega
  simp only [decodeHead, List.getD_cons_zero, List.getD_cons_succ]
  rw [if_neg (by simp [UInt8.lt_iff_toNat_lt]; omega),
    if_neg (by simp [UInt8.le_iff_toNat_le]; omega),
    if_pos (by simp [UInt8.le_iff_toNat_le]; omega), if_neg hfirst, isCont_ofNat hc,
    if_neg (by simp), hmask, low_ofNat hb, low_ofNat hc]

theorem decodeHead_four {a b c d : Nat} (ha : a < 5) (hb : b < 64) (hc : c < 64) (hd : d < 64)
    (hshort : a = 0 → 16 ≤ b) (hlong : a = 4 → b < 16) (rest : Bytes) :
    decodeHead (UInt8.ofNat (a + 240))
        (UInt8.ofNat (b + 128) :: UInt8.ofNat (c + 128) :: UInt8.ofNat (d + 128) :: rest) =
      (some (Char.ofNat (((a * 64 + b) * 64 + c) * 64 + d)), 4) := by
  have hlead : (UInt8.ofNat (a + 240)).toNat = a + 240 := toNat_lead (by omega)
  have hnext : (UInt8.ofNat (b + 128)).toNat = b + 128 := toNat_lead (by omega)
  have hmask : (UInt8.ofNat (a + 240) &&& 0x07).toNat = a := by
    rw [toNat_and_mask (n := 3) rfl, hlead]
    omega
  have hfirst : ¬ (!isCont (UInt8.ofNat (b + 128)) ∨
      (UInt8.ofNat (a + 240) = 0xF0 ∧ UInt8.ofNat (b + 128) < 0x90) ∨
      (UInt8.ofNat (a + 240) = 0xF4 ∧ 0x8F < UInt8.ofNat (b + 128))) := by
    rw [isCont_ofNat hb]
    simp only [← UInt8.toNat_inj, UInt8.lt_iff_toNat_lt, hlead, hnext]
    simp
    omega
  simp only [decodeHead, List.getD_cons_zero, List.getD_cons_succ]
  rw [if_neg (by simp [UInt8.lt_iff_toNat_lt]; omega),
    if_neg (by simp [UInt8.le_iff_toNat_le]; omega),
    if_neg (by simp [UInt8.le_iff_toNat_le]; omega),
    if_pos (by simp [UInt8.le_iff_toNat_le]; omega), if_neg hfirst, isCont_ofNat hc,
    if_neg (by simp), isCont_ofNat hd, if_neg (by simp), hmask, low_ofNat hb, low_ofNat hc,
    low_ofNat hd]

/-- The bytes of a character are read as that character, whatever follows. -/
theorem decodeHead_encode (c : Char) (rest : Bytes) :
    ∃ b more, String.utf8EncodeChar c = b :: more ∧
      decodeHead b (more ++ rest) = (some c, more.length + 1) := by
  have hvalid : c.val.toNat.isValidChar := c.valid
  have hnumber : ∀ n, n = c.val.toNat → Char.ofNat n = c := by
    rintro n rfl
    exact Char.ofNat_toNat c
  rw [String.utf8EncodeChar]
  generalize hv : c.val.toNat = v at hvalid hnumber
  simp only [Nat.isValidChar] at hvalid
  split
  · next h =>
      refine ⟨_, _, rfl, ?_⟩
      rw [decodeHead_ascii (UInt8.lt_iff_toNat_lt.mpr ?_), charOfByte, hnumber _ ?_]
      · rfl
      · exact UInt8.toNat_ofNat_of_lt' (show v < 256 by omega)
      · rw [UInt8.toNat_ofNat_of_lt' (show v < 256 by omega)]
        exact Nat.lt_succ_of_le h
  · split
    · refine ⟨_, _, rfl, ?_⟩
      rw [List.singleton_append, decodeHead_two (by omega) (by omega) (by omega), hnumber _ (by omega)]
      rfl
    · split
      · refine ⟨_, _, rfl, ?_⟩
        rw [List.cons_append, List.singleton_append, decodeHead_three (by omega) (by omega) (by omega)
          (by omega) (by omega), hnumber _ (by omega)]
        rfl
      · refine ⟨_, _, rfl, ?_⟩
        have hlead : v / 262144 % 8 < 5 := by omega
        rw [List.cons_append, List.cons_append, List.singleton_append, decodeHead_four hlead (by omega)
          (by omega) (by omega) (by omega) (by omega), hnumber _ (by omega)]
        rfl

theorem decode_bytes : ∀ (s : Str) {fuel : Nat}, byteLen s ≤ fuel → decode fuel (bytes s) = s.map some
  | [], 0, _ => rfl
  | [], _ + 1, _ => rfl
  | c :: cs, fuel, h => by
      obtain ⟨b, more, henc, hhead⟩ := decodeHead_encode c (bytes cs)
      have hlen : more.length + 1 = c.utf8Size := by
        rw [← String.length_utf8EncodeChar, henc]
        rfl
      rw [byteLen] at h
      obtain ⟨n, rfl⟩ := Nat.exists_eq_add_one_of_ne_zero (show fuel ≠ 0 by omega)
      rw [bytes, List.flatMap_cons, henc]
      show decode (n + 1) (b :: (more ++ bytes cs)) = _
      rw [decode_cons, hhead, Nat.add_sub_cancel, List.drop_left, decode_bytes cs (by omega)]
      rfl

/-- A text is read back from its bytes. -/
theorem fromUtf8_bytes (s : Str) : fromUtf8 (bytes s) = some s := by
  have hall : ∀ s : Str, (s.map some).mapM id = some s := by
    intro s
    induction s with
    | nil => rfl
    | cons c cs ih =>
        rw [List.map_cons, List.mapM_cons, ih]
        rfl
  rw [fromUtf8, decode_bytes s (Nat.le_of_eq (length_bytes s).symm), hall]

theorem fromUtf8Lossy_bytes (s : Str) : fromUtf8Lossy (bytes s) = s := by
  rw [fromUtf8Lossy, decode_bytes s (Nat.le_of_eq (length_bytes s).symm), List.map_map]
  exact List.map_id s

end Str

end RustClash
