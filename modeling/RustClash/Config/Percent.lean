import Mathlib.Data.Bool.AllAny
import RustClash.Core.Str
import RustClash.Core.Utf8

/-!
# Percent decoding

`url_decode` as the share links and the download names use it.  A byte of the encoded text
comes back as the character with its number.  So the decoding is inverse to the encoding of
UTF-8 on ASCII, and on nothing else.
-/

namespace RustClash

namespace Config

/-- The value of a hexadecimal digit. -/
def hexValue (b : UInt8) : Option Nat :=
  if 48 ≤ b ∧ b ≤ 57 then some (b.toNat - 48)
  else if 65 ≤ b ∧ b ≤ 70 then some (b.toNat - 55)
  else if 97 ≤ b ∧ b ≤ 102 then some (b.toNat - 87)
  else none

/-- `u8::from_str_radix` for two bytes and base 16; the first may be a plus sign. -/
def fromStrRadix16 (b0 b1 : UInt8) : Option Nat :=
  if b0 = 43 then hexValue b1
  else do
    let hi ← hexValue b0
    let lo ← hexValue b1
    return hi * 16 + lo

/-- The value of the escape that starts with the byte, if one does. -/
def escapeAt (b : UInt8) (rest : Bytes) : Option Nat :=
  match rest with
  | b0 :: b1 :: _ => if b = 37 then fromStrRadix16 b0 b1 else none
  | _ => none

/-- The loop of `urlencoding_decode`, `skip` bytes before the next one it looks at.  A byte of
the result is pushed as the character with its number. -/
def urlDecodeBytes : (skip : Nat) → Bytes → Str
  | _, [] => []
  | skip + 1, _ :: bs => urlDecodeBytes skip bs
  | 0, b :: bs =>
      match escapeAt b bs with
      | some v => Char.ofNat v :: urlDecodeBytes 2 bs
      | none => Char.ofNat b.toNat :: urlDecodeBytes 0 bs

/-- `url_decode`. -/
def urlDecode (s : Str) : Str := urlDecodeBytes 0 (Str.bytes s)

/-! ## What it inverts -/

open Str

/-- The characters that need no escape. -/
def isUnreserved (c : Char) : Bool :=
  ('A' ≤ c && c ≤ 'Z') || ('a' ≤ c && c ≤ 'z') || ('0' ≤ c && c ≤ '9') || c = '-' || c = '.' ||
    c = '_' || c = '~'

/-- The number of a hexadecimal digit, in either case. -/
def digitValue (c : Char) : Option Nat := hexValue (UInt8.ofNat c.toNat)

/-- The text spells the bytes, each as an escape or as the character it is. -/
inductive Encodes : Bytes → Str → Prop where
  | nil : Encodes [] []
  | escape {b : UInt8} {bs : Bytes} {hi lo : Char} {e : Str} : hi.toNat < 128 → lo.toNat < 128 →
      digitValue hi = some (b.toNat / 16) → digitValue lo = some (b.toNat % 16) → Encodes bs e →
      Encodes (b :: bs) ('%' :: hi :: lo :: e)
  | plain {c : Char} {bs : Bytes} {e : Str} : isUnreserved c → Encodes bs e →
      Encodes (UInt8.ofNat c.toNat :: bs) (c :: e)

theorem fromStrRadix16_eq {b0 b1 : UInt8} {hi lo : Nat} (h0 : hexValue b0 = some hi)
    (h1 : hexValue b1 = some lo) : fromStrRadix16 b0 b1 = some (hi * 16 + lo) := by
  have hplus : b0 ≠ 43 := by
    rintro rfl
    cases h0
  rw [fromStrRadix16, if_neg hplus, h0, h1]
  rfl

theorem escapeAt_of_ne {b : UInt8} (h : b ≠ 37) : ∀ rest, escapeAt b rest = none
  | [] => rfl
  | [_] => rfl
  | _ :: _ :: _ => if_neg h

theorem unreserved_lt {c : Char} (h : isUnreserved c) : c.toNat < 128 ∧ c ≠ '%' := by
  constructor
  · have hle {d : Char} (hd : c ≤ d) (hd' : d.toNat < 128) : c.toNat < 128 :=
      Nat.lt_of_le_of_lt (UInt32.le_iff_toNat_le.mp (Char.le_def.mp hd)) hd'
    simp only [isUnreserved, Bool.or_eq_true, Bool.and_eq_true, decide_eq_true_eq] at h
    rcases h with (((((⟨_, h⟩ | ⟨_, h⟩) | ⟨_, h⟩) | rfl) | rfl) | rfl) | rfl
    · exact hle h (by decide)
    · exact hle h (by decide)
    · exact hle h (by decide)
    all_goals decide
  · rintro rfl
    cases h

/-- A character that starts no escape is decoded as it is. -/
theorem urlDecode_cons {c : Char} (hlt : c.toNat < 128) (hne : c ≠ '%') (s : Str) :
    urlDecode (c :: s) = c :: urlDecode s := by
  have hb : UInt8.ofNat c.toNat ≠ 37 := by
    intro h
    have hc := charOfByte_ascii hlt
    rw [h] at hc
    exact hne hc.symm
  rw [urlDecode, bytes_cons_ascii hlt, urlDecodeBytes, escapeAt_of_ne hb]
  show charOfByte _ :: urlDecode s = _
  rw [charOfByte_ascii hlt]

/-- An encoding is decoded to the bytes, each as a character, whatever follows it. -/
theorem urlDecode_append {bs : Bytes} {e : Str} (h : Encodes bs e) (s : Str) :
    urlDecode (e ++ s) = bs.map charOfByte ++ urlDecode s := by
  induction h with
  | nil => rfl
  | @escape b bs hi lo e hhi hlo hb0 hb1 _ ih =>
      have hescape : escapeAt 37 (UInt8.ofNat hi.toNat :: UInt8.ofNat lo.toNat :: bytes (e ++ s)) =
          some (b.toNat / 16 * 16 + b.toNat % 16) := by
        rw [escapeAt, if_pos rfl, fromStrRadix16_eq hb0 hb1]
      rw [List.cons_append, List.cons_append, List.cons_append, urlDecode,
        bytes_cons_ascii (by decide), bytes_cons_ascii hhi, bytes_cons_ascii hlo]
      have hpercent : UInt8.ofNat (Char.toNat (Char.ofNat 37)) = 37 := rfl
      simp only [urlDecodeBytes, hpercent, hescape]
      show Char.ofNat (b.toNat / 16 * 16 + b.toNat % 16) :: urlDecode (e ++ s) = _
      rw [Nat.div_add_mod', ih]
      rfl
  | @plain c bs e hc _ ih =>
      obtain ⟨hlt, hne⟩ := unreserved_lt hc
      rw [List.cons_append, urlDecode_cons hlt hne, ih, List.map_cons, charOfByte_ascii hlt]
      rfl

/-- Decoding yields the encoded bytes, each as a character. -/
theorem urlDecode_of_encodes {bs : Bytes} {e : Str} (h : Encodes bs e) :
    urlDecode e = bs.map charOfByte := by
  have happend := urlDecode_append h []
  rw [List.append_nil] at happend
  exact happend.trans (List.append_nil _)

theorem isUnreserved_of_digitValue {c : Char} {n : Nat} (hc : c.toNat < 128)
    (h : digitValue c = some n) : isUnreserved c := by
  have hall : ∀ k < 128, (digitValue (Char.ofNat k)).isSome → isUnreserved (Char.ofNat k) := by
    decide +kernel
  have hthis := hall c.toNat hc
  rw [Char.ofNat_toNat, h] at hthis
  exact hthis rfl

theorem Encodes.mem {bs : Bytes} {e : Str} (h : Encodes bs e) {c : Char} (hc : c ∈ e) :
    isUnreserved c ∨ c = '%' := by
  induction h with
  | nil => cases hc
  | escape hhi hlo hb0 hb1 _ ih =>
      rcases List.mem_cons.mp hc with rfl | hc
      · exact .inr rfl
      · rcases List.mem_cons.mp hc with rfl | hc
        · exact .inl (isUnreserved_of_digitValue hhi hb0)
        · rcases List.mem_cons.mp hc with rfl | hc
          · exact .inl (isUnreserved_of_digitValue hlo hb1)
          · exact ih hc
  | plain hplain _ ih =>
      rcases List.mem_cons.mp hc with rfl | hc
      · exact .inl hplain
      · exact ih hc

/-- No separator is in an encoding. -/
theorem Encodes.notMem {bs : Bytes} {e : Str} (h : Encodes bs e) {c : Char}
    (hc : c ∈ ":/?#@&=".toList) : c ∉ e := by
  have hall : ∀ d ∈ ":/?#@&=".toList, isUnreserved d = false ∧ d ≠ '%' :=
    List.all_iff_forall_prop.mp rfl
  intro hmem
  rcases h.mem hmem with hu | hu
  · rw [(hall c hc).1] at hu
    cases hu
  · exact (hall c hc).2 hu

theorem utf8Size_eq_one_iff {c : Char} : c.utf8Size = 1 ↔ c.toNat < 128 := by
  rw [Char.utf8Size_eq_one_iff, UInt32.le_iff_toNat_le]
  exact Nat.lt_succ_iff.symm

theorem length_le_byteLen : ∀ s : Str, s.length ≤ byteLen s
  | [] => Nat.le_refl _
  | c :: cs => by
      have hpos := Char.utf8Size_pos c
      have ih := length_le_byteLen cs
      rw [byteLen, List.length_cons]
      omega

theorem byteLen_eq_length_iff : ∀ {s : Str}, byteLen s = s.length ↔ ∀ c ∈ s, c.toNat < 128
  | [] => iff_of_true rfl fun _ h => absurd h List.not_mem_nil
  | c :: cs => by
      have hpos := Char.utf8Size_pos c
      have hle := length_le_byteLen cs
      rw [List.forall_mem_cons, ← utf8Size_eq_one_iff, ← byteLen_eq_length_iff, byteLen,
        List.length_cons]
      omega

/-- The bytes of a text are its characters exactly if all of them are ASCII. -/
theorem map_charOfByte_bytes {s : Str} : (bytes s).map charOfByte = s ↔ ∀ c ∈ s, c.toNat < 128 := by
  constructor
  · intro h
    have hlen := congrArg List.length h
    rw [List.length_map, length_bytes] at hlen
    exact byteLen_eq_length_iff.mp hlen
  · intro h
    induction s with
    | nil => rfl
    | cons c cs ih =>
        have hc := h c List.mem_cons_self
        rw [bytes_cons_ascii hc, List.map_cons, charOfByte_ascii hc,
          ih fun d hd => h d (List.mem_cons_of_mem _ hd)]

/-- A text is decoded from an encoding of it exactly if it is ASCII. -/
theorem urlDecode_eq_iff {s e : Str} (h : Encodes (bytes s) e) :
    urlDecode e = s ↔ ∀ c ∈ s, c.toNat < 128 := by
  rw [urlDecode_of_encodes h]
  exact map_charOfByte_bytes

/-- The spelling of the first byte; it has a dot in it only if the byte is one. -/
theorem Encodes.uncons {b : UInt8} {bs : Bytes} {text : Str} (h : Encodes (b :: bs) text) :
    ∃ u e, text = u ++ e ∧ u ≠ [] ∧ (∀ c ∈ u, c.toNat < 128) ∧ ('.' ∈ u → b = 46) ∧
      Encodes bs e := by
  cases h with
  | @escape _ _ hi lo e hhi hlo hb0 hb1 hrest =>
      refine ⟨['%', hi, lo], e, rfl, List.cons_ne_nil _ _, ?_, fun hmem => ?_, hrest⟩
      · simp only [List.forall_mem_cons]
        exact ⟨by decide, hhi, hlo, List.forall_mem_nil _⟩
      · have hdigit {c : Char} {n : Nat} (hc : digitValue c = some n) : '.' ≠ c := by
          rintro rfl
          cases hc
        simp only [List.mem_cons, List.not_mem_nil, or_false] at hmem
        rcases hmem with h | h | h
        · exact absurd h (by decide)
        · exact absurd h (hdigit hb0)
        · exact absurd h (hdigit hb1)
  | @plain c _ e hc hrest =>
      refine ⟨[c], e, rfl, List.cons_ne_nil _ _,
        List.forall_mem_singleton.mpr (unreserved_lt hc).1, fun hmem => ?_, hrest⟩
      rw [← List.mem_singleton.mp hmem]
      rfl

theorem Encodes.length_le {bs : Bytes} {e : Str} (h : Encodes bs e) : bs.length ≤ e.length := by
  induction h with
  | nil => exact Nat.le_refl 0
  | escape _ _ _ _ _ ih =>
      simp only [List.length_cons]
      omega
  | plain _ _ ih =>
      simp only [List.length_cons]
      omega

/-- A text in which a separator is missing ends before the separator. -/
theorem eq_append_of_append_cons {c : Char} {u e v t : Str} (hc : c ∉ u)
    (h : u ++ e = v ++ c :: t) : ∃ v', v = u ++ v' ∧ e = v' ++ c :: t := by
  rcases List.append_eq_append_iff.mp h with ⟨v', hv, he⟩ | ⟨as, rfl, has⟩
  · exact ⟨v', hv, he⟩
  · cases as with
    | nil => exact ⟨[], by rw [List.append_nil, List.append_nil], has.symm⟩
    | cons d as =>
        cases has
        exact absurd (List.mem_append_right _ List.mem_cons_self) hc

/-- No text comes back from its own encoding where another one without a dot stands in front and
the encoding goes on with a dot. -/
theorem not_encodes_dot (t v p : Str) (hne : p ≠ []) (hp : ∀ c ∈ p, c.toNat < 128 ∧ c ≠ '.') :
    ¬ Encodes (bytes (p ++ v)) (v ++ '.' :: t) := by
  induction hn : v.length using Nat.strong_induction_on generalizing v p with
  | h n ih =>
      intro henc
      obtain ⟨c, p, rfl⟩ := List.exists_cons_of_ne_nil hne
      obtain ⟨⟨hc, hdot⟩, hp⟩ := List.forall_mem_cons.mp hp
      rw [List.cons_append, bytes_cons_ascii hc] at henc
      obtain ⟨u, e, htext, hu, hascii, hbyte, hrest⟩ := henc.uncons
      have hfree : '.' ∉ u := fun hmem => by
        have hback := charOfByte_ascii hc
        rw [hbyte hmem] at hback
        exact hdot hback.symm
      obtain ⟨v', rfl, rfl⟩ := eq_append_of_append_cons hfree htext.symm
      -- the text in front moves on by the spelling
      have hpos := List.length_pos_of_ne_nil hu
      rw [List.length_append] at hn
      refine ih v'.length (by omega) v' (p ++ u) (List.append_ne_nil_of_right_ne_nil _ hu) ?_ rfl ?_
      · intro d hd
        rcases List.mem_append.mp hd with hd | hd
        · exact hp d hd
        · exact ⟨hascii d hd, fun heq => hfree (heq ▸ hd)⟩
      · rwa [List.append_assoc]

/-! ## Characters of several bytes -/

def IsAscii (s : Str) : Prop := ∀ c ∈ s, c.toNat < 128

instance (s : Str) : Decidable (IsAscii s) := List.decidableBAll _ s

/-- The bytes of a text, each as the character with its number. -/
def byteChars (s : Str) : Str := (bytes s).map charOfByte

theorem byteChars_append (s t : Str) : byteChars (s ++ t) = byteChars s ++ byteChars t := by
  rw [byteChars, bytes_append, List.map_append]
  rfl

theorem byteChars_eq_iff {s : Str} : byteChars s = s ↔ IsAscii s := map_charOfByte_bytes

theorem byteChars_ascii {s : Str} (h : IsAscii s) : byteChars s = s := byteChars_eq_iff.mpr h

theorem toNat_charOfByte (b : UInt8) : (charOfByte b).toNat = b.toNat :=
  toNat_ofNat (.inl (Nat.lt_trans b.toNat_lt (by decide)))

theorem toNat_mem_byteChars {s : Str} {c : Char} (h : c ∈ byteChars s) : c.toNat < 256 := by
  obtain ⟨b, -, rfl⟩ := List.mem_map.mp h
  rw [toNat_charOfByte]
  exact b.toNat_lt

/-- An ASCII character is among the decoded bytes of a text only if it is in the text. -/
theorem mem_byteChars {c : Char} (hc : c.toNat < 128) {s : Str} (h : c ∈ byteChars s) :
    c ∈ s := by
  obtain ⟨b, hb, rfl⟩ := List.mem_map.mp h
  refine mem_of_mem_bytes (UInt8.lt_iff_toNat_lt.mpr ?_) hb
  have hall : ∀ n < 256, (Char.ofNat n).toNat < 128 → n < 128 := by decide +kernel
  exact hall b.toNat b.toNat_lt hc

theorem isWhiteSpace_lead {b : UInt8} (h : 192 ≤ b.toNat) :
    isWhiteSpace (charOfByte b) = false := by
  have hall : ∀ n < 256, 192 ≤ n → isWhiteSpace (Char.ofNat n) = false := by decide +kernel
  exact hall _ b.toNat_lt h

/-- A character that is not ASCII has a first byte, and more after it. -/
theorem utf8EncodeChar_wide {c : Char} (h : 128 ≤ c.toNat) : ∃ b bs,
    String.utf8EncodeChar c = b :: bs ∧ bs ≠ [] ∧ 192 ≤ b.toNat ∧ ∀ x ∈ b :: bs, 128 ≤ x.toNat := by
  have hone : ¬ c.val.toNat ≤ 127 := Nat.not_le.mpr h
  have hcont {n : Nat} (hn : n < 64) : 128 ≤ (UInt8.ofNat (n + 128)).toNat := by
    rw [toNat_lead (by omega)]
    omega
  have hlead {n k : Nat} (hk : 192 ≤ k) (hn : n + k < 256) : 192 ≤ (UInt8.ofNat (n + k)).toNat := by
    rw [toNat_lead hn]
    omega
  have hbytes {b : UInt8} {bs : Bytes} (hb : 192 ≤ b.toNat) (hbs : ∀ x ∈ bs, 128 ≤ x.toNat) :
      192 ≤ b.toNat ∧ ∀ x ∈ b :: bs, 128 ≤ x.toNat :=
    ⟨hb, List.forall_mem_cons.mpr ⟨Nat.le_trans (by decide) hb, hbs⟩⟩
  rw [String.utf8EncodeChar, if_neg hone]
  split
  · refine ⟨_, _, rfl, List.cons_ne_nil _ _, hbytes (hlead (by decide) (by omega)) ?_⟩
    exact List.forall_mem_cons.mpr ⟨hcont (by omega), List.forall_mem_nil _⟩
  · split
    · refine ⟨_, _, rfl, List.cons_ne_nil _ _, hbytes (hlead (by decide) (by omega)) ?_⟩
      exact List.forall_mem_cons.mpr ⟨hcont (by omega), List.forall_mem_cons.mpr
        ⟨hcont (by omega), List.forall_mem_nil _⟩⟩
    · refine ⟨_, _, rfl, List.cons_ne_nil _ _, hbytes (hlead (by decide) (by omega)) ?_⟩
      exact List.forall_mem_cons.mpr ⟨hcont (by omega), List.forall_mem_cons.mpr
        ⟨hcont (by omega), List.forall_mem_cons.mpr ⟨hcont (by omega), List.forall_mem_nil _⟩⟩⟩

/-- No character of a decoded text of such characters is ASCII, and there are more of them. -/
theorem byteChars_wide {s : Str} (h : ∀ c ∈ s, 128 ≤ c.toNat) :
    (∀ c ∈ byteChars s, 128 ≤ c.toNat) ∧ 2 * s.length ≤ (byteChars s).length := by
  induction s with
  | nil => exact ⟨List.forall_mem_nil _, Nat.le_refl 0⟩
  | cons c cs ih =>
      obtain ⟨hc, hcs⟩ := List.forall_mem_cons.mp h
      obtain ⟨b, bs, hbytes, hne, -, hall⟩ := utf8EncodeChar_wide hc
      obtain ⟨hrest, hlen⟩ := ih hcs
      have hcons : byteChars (c :: cs) = (b :: bs).map charOfByte ++ byteChars cs := by
        rw [byteChars, bytes, List.flatMap_cons, hbytes, List.map_append]
        rfl
      have hpos := List.length_pos_of_ne_nil hne
      rw [hcons]
      constructor
      · intro d hd
        rcases List.mem_append.mp hd with hd | hd
        · obtain ⟨x, hx, rfl⟩ := List.mem_map.mp hd
          rw [toNat_charOfByte]
          exact hall x hx
        · exact hrest d hd
      · rw [List.length_append, List.length_map, List.length_cons, List.length_cons]
        omega

/-- Such a character of one byte's number has two. -/
theorem byteChars_two {c : Char} (h : 128 ≤ c.toNat) (hlt : c.toNat < 256) :
    ∃ lead last, byteChars [c] = [lead, last] ∧ isWhiteSpace lead = false ∧
      lead.toNat = c.toNat / 64 + 192 ∧ last.toNat = c.toNat % 64 + 128 := by
  have hone : ¬ c.val.toNat ≤ 127 := Nat.not_le.mpr h
  have htwo : c.val.toNat ≤ 2047 := Nat.le_trans (Nat.le_of_lt hlt) (by decide)
  have hval : c.val.toNat = c.toNat := rfl
  have hlead : (UInt8.ofNat (c.toNat / 64 % 32 + 192)).toNat = c.toNat / 64 + 192 := by
    rw [toNat_lead (by omega)]
    omega
  have hlast : (UInt8.ofNat (c.toNat % 64 + 128)).toNat = c.toNat % 64 + 128 :=
    toNat_lead (by omega)
  refine ⟨charOfByte (.ofNat (c.toNat / 64 % 32 + 192)), charOfByte (.ofNat (c.toNat % 64 + 128)),
    ?_, isWhiteSpace_lead (by omega), by rw [toNat_charOfByte, hlead],
    by rw [toNat_charOfByte, hlast]⟩
  rw [byteChars, bytes, List.flatMap_cons, String.utf8EncodeChar, if_neg hone, if_pos htwo, hval]
  rfl

/-- The characters that satisfy a predicate where a text begins, and what follows them. -/
theorem exists_run (p : Char → Bool) (s : Str) :
    ∃ a b, s = a ++ b ∧ (∀ c ∈ a, p c) ∧ ∀ c ∈ b.head?, p c = false := by
  refine ⟨s.takeWhile p, s.dropWhile p, List.takeWhile_append_dropWhile.symm,
    fun c hc => List.mem_takeWhile_imp hc, fun c hc => ?_⟩
  have hnot := List.head?_dropWhile_not p s
  rw [Option.mem_def.mp hc] at hnot
  exact hnot

/-- Only ASCII can begin with itself in bytes and go on: where such a text begins, it ends with
characters that are not ASCII. -/
theorem eq_append_of_prefix_byteChars {s : Str} (h : ¬ IsAscii s) (hpre : s <+: byteChars s) :
    ∃ a f, s = a ++ f ∧ IsAscii a ∧ f ≠ [] ∧ ∀ c ∈ f, 128 ≤ c.toNat := by
  obtain ⟨a, f, rfl, hascii, hhead⟩ := exists_run (fun c => c.toNat < 128) s
  have hascii : IsAscii a := fun c hc => of_decide_eq_true (hascii c hc)
  refine ⟨a, f, rfl, hascii, ?_, ?_⟩
  · rintro rfl
    exact h (by rwa [List.append_nil])
  rw [byteChars_append, byteChars_ascii hascii, List.prefix_append_right_inj] at hpre
  obtain ⟨w, g, rfl, hwide, hstop⟩ := exists_run (fun c => 128 ≤ c.toNat) f
  have hwide : ∀ c ∈ w, 128 ≤ c.toNat := fun c hc => of_decide_eq_true (hwide c hc)
  cases g with
  | nil => rwa [List.append_nil]
  | cons d g =>
      -- the run of such characters is longer in bytes, so that one more of them follows it
      exfalso
      have hd : ¬ 128 ≤ d.toNat := of_decide_eq_false (hstop d rfl)
      obtain ⟨hall, hlen⟩ := byteChars_wide hwide
      have hw : w ≠ [] := by
        rintro rfl
        exact of_decide_eq_false (hhead d rfl) (Nat.lt_of_not_le hd)
      have hpos := List.length_pos_of_ne_nil hw
      have hle : (w ++ [d]).length ≤ (byteChars w).length := by
        rw [List.length_append, List.length_singleton]
        omega
      have hone : w ++ [d] <+: byteChars w := by
        refine List.prefix_of_prefix_length_le ?_ (List.prefix_append _ (byteChars (d :: g))) hle
        rw [← byteChars_append]
        refine List.IsPrefix.trans ⟨g, ?_⟩ hpre
        rw [List.append_assoc]
        rfl
      exact hd (hall d (hone.subset (List.mem_append_right _ List.mem_cons_self)))

/-- Blanks are not what is missing behind characters that are not ASCII. -/
theorem byteChars_ne_append_blanks {f blanks : Str} (hne : f ≠ []) (hwide : ∀ c ∈ f, 128 ≤ c.toNat)
    (hblanks : ∀ c ∈ blanks, isWhiteSpace c) : byteChars f ≠ f ++ blanks := by
  intro heq
  have hlen := (byteChars_wide hwide).2
  rw [heq, List.length_append] at hlen
  obtain ⟨g, c, rfl⟩ := List.eq_nil_or_concat f |>.resolve_left hne
  rw [List.concat_eq_append] at heq hwide hlen
  have hlt : c.toNat < 256 := by
    refine toNat_mem_byteChars (s := g ++ [c]) ?_
    rw [heq]
    exact List.mem_append_left _ (List.mem_append_right _ List.mem_cons_self)
  obtain ⟨lead, last, htwo, hlead, hleadNat, hlastNat⟩ :=
    byteChars_two (hwide c (List.mem_append_right _ List.mem_cons_self)) hlt
  rw [byteChars_append, htwo] at heq
  -- the last two bytes are those of the last character, and only the second may be a blank
  cases blanks using List.reverseRecOn with
  | nil =>
      rw [List.length_append, List.length_singleton, List.length_nil] at hlen
      omega
  | append_singleton blanks b =>
      have hends : byteChars g ++ [lead] ++ [last] = g ++ [c] ++ blanks ++ [b] := by
        rw [List.append_assoc, List.append_assoc (g ++ [c])]
        exact heq
      obtain ⟨hrest, hb⟩ := List.append_inj' hends rfl
      cases blanks using List.reverseRecOn with
      | nil =>
          obtain ⟨-, hc⟩ := List.append_inj' (hrest.trans (List.append_nil _)) rfl
          have hlen : g = [] := by
            rw [List.length_append, List.length_singleton, List.length_append, List.length_nil,
              List.length_singleton] at hlen
            exact List.length_eq_zero_iff.mp (by omega)
          have hc : lead = c := List.head_eq_of_cons_eq hc
          have hb : last = b := List.head_eq_of_cons_eq hb
          have hwhite := hblanks b (List.mem_append_right _ List.mem_cons_self)
          have hlast : last.toNat = 131 := by
            rw [hc] at hleadNat
            omega
          rw [← hb, ← Char.ofNat_toNat last, hlast] at hwhite
          cases hwhite
      | append_singleton blanks b' =>
          have hends : byteChars g ++ [lead] = g ++ [c] ++ blanks ++ [b'] := by
            rw [List.append_assoc (g ++ [c])]
            exact hrest
          have hb' : lead = b' := List.head_eq_of_cons_eq (List.append_inj' hends rfl).2
          have hwhite := hblanks b' (List.mem_append_left _ (List.mem_append_right _
            List.mem_cons_self))
          rw [← hb', hlead] at hwhite
          cases hwhite

/-- The bytes of a text begin with a character that is not blank if the text does. -/
theorem head_byteChars {s : Str} (h : ∀ c ∈ s.head?, isWhiteSpace c = false) :
    ∀ c ∈ (byteChars s).head?, isWhiteSpace c = false := by
  cases s with
  | nil => exact fun c hc => by cases hc
  | cons c cs =>
      rw [show c :: cs = [c] ++ cs from rfl, byteChars_append]
      by_cases hc : c.toNat < 128
      · rw [byteChars_ascii (List.forall_mem_singleton.mpr hc)]
        exact h
      · obtain ⟨b, bs, hbytes, -, hb, -⟩ := utf8EncodeChar_wide (Nat.le_of_not_lt hc)
        rw [byteChars, bytes, List.flatMap_singleton, hbytes]
        intro d hd
        cases hd
        exact isWhiteSpace_lead hb

end Config

end RustClash
