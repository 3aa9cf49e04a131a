import Mathlib.Data.List.DropRight
import RustClash.Lib.Checked
import RustClash.Net.Io

/-!
# Text

The operations of `str` the parsers use, on the characters of a text.  Offsets are
byte offsets of its UTF-8 form: `s[..n]` and `s[n..]` stop where `n` is no boundary
between two characters.

`domain_to_ascii` of `utils.rs` is the normal form of host names: the name is trimmed, its trailing
dots are dropped, ASCII letters are lowered, and a name that still is not ASCII goes through IDNA.
The IDNA library is a parameter.
-/

namespace RustClash

/-! ## Host names -/

/-- The characters of the Unicode property `White_Space`, which `str::trim` removes. -/
def isWhiteSpace (c : Char) : Bool :=
  let n := c.toNat
  (9 ≤ n && n ≤ 13) || n == 0x20 || n == 0x85 || n == 0xA0 || n == 0x1680 ||
    (0x2000 ≤ n && n ≤ 0x200A) || n == 0x2028 || n == 0x2029 || n == 0x202F || n == 0x205F ||
    n == 0x3000

/-- `str::trim`. -/
def trim (s : List Char) : List Char := (s.dropWhile isWhiteSpace).rdropWhile isWhiteSpace

/-- `str::to_ascii_lowercase`, on one character. -/
def toAsciiLowercase (c : Char) : Char :=
  if 'A' ≤ c ∧ c ≤ 'Z' then Char.ofNat (c.toNat + 32) else c

def domainToAscii (idna : String → Option String) (host : String) : String :=
  let host := String.ofList (((trim host.toList).rdropWhile (· = '.')).map toAsciiLowercase)
  if host.isEmpty || host.toList.all fun c => c.toNat < 128 then host
  else (idna host).getD host

abbrev Str := List Char

namespace Str

open Checked

/-! ## Byte offsets -/

/-- `str::len`. -/
def byteLen : Str → Nat
  | [] => 0
  | c :: cs => c.utf8Size + byteLen cs

/-- The text before and after a byte offset, where it is a boundary. -/
def splitAt? : Str → Nat → Option (Str × Str)
  | cs, 0 => some ([], cs)
  | [], _ + 1 => none
  | c :: cs, n + 1 =>
      if c.utf8Size ≤ n + 1 then
        (splitAt? cs (n + 1 - c.utf8Size)).map fun (a, b) => (c :: a, b)
      else none

/-- `is_char_boundary`. -/
def IsBoundary (s : Str) (n : Nat) : Prop := (splitAt? s n).isSome

instance (s : Str) (n : Nat) : Decidable (IsBoundary s n) := inferInstanceAs (Decidable (_ = true))

/-- `split_at`. -/
def splitAt (s : Str) (n : Nat) : Checked (Str × Str) :=
  match splitAt? s n with
  | some r => .ok r
  | none => .error .boundary

/-- `s[..n]`. -/
def sliceTo (s : Str) (n : Nat) : Checked Str := do
  let (a, _) ← splitAt s n
  pure a

/-- `s[n..]`. -/
def sliceFrom (s : Str) (n : Nat) : Checked Str := do
  let (_, b) ← splitAt s n
  pure b

/-- `find`: the offset of the first occurrence. -/
def find (c : Char) : Str → Option Nat
  | [] => none
  | d :: ds => if d = c then some 0 else (find c ds).map (d.utf8Size + ·)

/-- `rfind`: the offset of the last occurrence. -/
def rfind (c : Char) : Str → Option Nat
  | [] => none
  | d :: ds =>
      match rfind c ds with
      | some n => some (d.utf8Size + n)
      | none => if d = c then some 0 else none

/-! ## Slices at the ends of characters -/

@[simp] theorem byteLen_append (a b : Str) : byteLen (a ++ b) = byteLen a + byteLen b := by
  induction a with
  | nil => simp [byteLen]
  | cons c cs ih => simp only [List.cons_append, byteLen, ih, Nat.add_assoc]

@[simp] theorem splitAt?_append (a b : Str) : splitAt? (a ++ b) (byteLen a) = some (a, b) := by
  induction a with
  | nil => rw [byteLen, List.nil_append, splitAt?]
  | cons c cs ih =>
      have hpos : 0 < c.utf8Size := Char.utf8Size_pos c
      obtain ⟨n, hn⟩ : ∃ n, byteLen (c :: cs) = n + 1 :=
        ⟨byteLen (c :: cs) - 1, by rw [byteLen]; omega⟩
      have hle : c.utf8Size ≤ n + 1 := by rw [← hn, byteLen]; omega
      have hsub : n + 1 - c.utf8Size = byteLen cs := by rw [← hn, byteLen]; omega
      rw [hn, List.cons_append, splitAt?, if_pos hle, hsub, ih]
      rfl

theorem eq_append_of_splitAt? : ∀ {s a b : Str} {n : Nat}, splitAt? s n = some (a, b) →
    s = a ++ b ∧ byteLen a = n
  | s, a, b, 0, h => by
      rw [splitAt?] at h
      cases h
      exact ⟨rfl, rfl⟩
  | [], _, _, _ + 1, h => by
      rw [splitAt?] at h
      cases h
  | c :: cs, a, b, n + 1, h => by
      rw [splitAt?] at h
      split at h
      · next hle =>
          obtain ⟨⟨a', b'⟩, hs, heq⟩ := Option.map_eq_some_iff.mp h
          cases heq
          obtain ⟨rfl, hlen⟩ := eq_append_of_splitAt? hs
          exact ⟨rfl, by rw [byteLen, hlen]; omega⟩
      · cases h

theorem splitAt_append (a b : Str) : splitAt (a ++ b) (byteLen a) = .ok (a, b) := by
  rw [splitAt, splitAt?_append]

theorem sliceTo_append (a b : Str) : sliceTo (a ++ b) (byteLen a) = .ok a := by
  rw [sliceTo, splitAt_append]
  rfl

theorem sliceFrom_append (a b : Str) : sliceFrom (a ++ b) (byteLen a) = .ok b := by
  rw [sliceFrom, splitAt_append]
  rfl

theorem runs_splitAt {s : Str} {n : Nat} : Runs (splitAt s n) ↔ IsBoundary s n := by
  rw [splitAt, IsBoundary]
  cases splitAt? s n <;> simp

theorem runs_sliceTo {s : Str} {n : Nat} : Runs (sliceTo s n) ↔ IsBoundary s n := by
  show Runs (Prod.fst <$> splitAt s n) ↔ _
  rw [runs_map, runs_splitAt]

theorem runs_sliceFrom {s : Str} {n : Nat} : Runs (sliceFrom s n) ↔ IsBoundary s n := by
  show Runs (Prod.snd <$> splitAt s n) ↔ _
  rw [runs_map, runs_splitAt]

theorem isBoundary_append (a b : Str) : IsBoundary (a ++ b) (byteLen a) := by
  rw [IsBoundary, splitAt?_append]
  rfl

theorem eq_append_of_sliceFrom {s b : Str} {n : Nat} (h : sliceFrom s n = .ok b) :
    ∃ a, s = a ++ b ∧ byteLen a = n := by
  rw [sliceFrom, splitAt] at h
  split at h
  · next r hr =>
      obtain ⟨a, b'⟩ := r
      cases h
      exact ⟨a, eq_append_of_splitAt? hr⟩
  · cases h

/-- What `find` finds stands at its offset. -/
theorem eq_append_of_find {c : Char} : ∀ {s : Str} {n : Nat}, find c s = some n →
    ∃ a b, s = a ++ c :: b ∧ byteLen a = n
  | [], _, h => by cases h
  | d :: ds, n, h => by
      rw [find] at h
      split at h
      · next hd =>
          cases h
          subst hd
          exact ⟨[], ds, rfl, rfl⟩
      · obtain ⟨m, hm, rfl⟩ := Option.map_eq_some_iff.mp h
        obtain ⟨a, b, rfl, rfl⟩ := eq_append_of_find hm
        exact ⟨d :: a, b, rfl, rfl⟩

theorem eq_append_of_rfind {c : Char} : ∀ {s : Str} {n : Nat}, rfind c s = some n →
    ∃ a b, s = a ++ c :: b ∧ byteLen a = n
  | [], _, h => by cases h
  | d :: ds, n, h => by
      rw [rfind] at h
      split at h
      · next m hm =>
          cases h
          obtain ⟨a, b, rfl, rfl⟩ := eq_append_of_rfind hm
          exact ⟨d :: a, b, rfl, rfl⟩
      · split at h
        · next hd =>
            cases h
            subst hd
            exact ⟨[], ds, rfl, rfl⟩
        · cases h

/-- The offset after an ASCII character that was found. -/
theorem isBoundary_after (a b : Str) {c : Char} (hc : c.utf8Size = 1) :
    IsBoundary (a ++ c :: b) (byteLen a + 1) := by
  have h := isBoundary_append (a ++ [c]) b
  rwa [List.append_assoc, byteLen_append, byteLen, byteLen, hc] at h

/-! ## Trimming and searching -/

def trimStart (s : Str) : Str := s.dropWhile isWhiteSpace

def trimEnd (s : Str) : Str := s.rdropWhile isWhiteSpace

/-- `trim_start_matches` with a text, which is not empty. -/
def trimStartMatches (pat : Str) : (fuel : Nat) → Str → Str
  | 0, s => s
  | fuel + 1, s =>
      if pat.isPrefixOf s then trimStartMatches pat fuel (s.drop pat.length) else s

/-- `strip_prefix`. -/
def stripPrefix (pat s : Str) : Option Str :=
  if pat.isPrefixOf s then some (s.drop pat.length) else none

/-- `contains` with a text. -/
def contains (pat : Str) : Str → Bool
  | [] => pat.isEmpty
  | c :: cs => pat.isPrefixOf (c :: cs) || contains pat cs

def endsWith (c : Char) (s : Str) : Bool := s.getLast? = some c

def startsWith (c : Char) (s : Str) : Bool := s.head? = some c

def toLower (s : Str) : Str := s.map toAsciiLowercase

/-- `eq_ignore_ascii_case`. -/
def eqIgnoreCase (s t : Str) : Bool := toLower s = toLower t

theorem length_trim_le (s : Str) : (trim s).length ≤ s.length :=
  Nat.le_trans (List.rdropWhile_prefix _ _).length_le (List.dropWhile_sublist _).length_le

/-- A text without white space at its ends. -/
theorem trim_of_ends {s : Str} (hfirst : ∀ c ∈ s.head?, isWhiteSpace c = false)
    (hlast : ∀ c ∈ s.getLast?, isWhiteSpace c = false) : trim s = s := by
  cases s with
  | nil => rfl
  | cons x xs =>
      have hx : isWhiteSpace x = false := hfirst x rfl
      rw [trim, List.dropWhile_cons_of_neg (by simp [hx]), List.rdropWhile_eq_self_iff]
      intro hne
      have := hlast _ (List.getLast?_eq_getLast_of_ne_nil hne)
      simp [this]

theorem trim_trim (s : Str) : trim (trim s) = trim s := by
  have hpre : trim s <+: s.dropWhile isWhiteSpace := List.rdropWhile_prefix _ _
  have hstart : (trim s).dropWhile isWhiteSpace = trim s := by
    rw [List.dropWhile_eq_self_iff]
    intro hlen
    rw [hpre.getElem hlen]
    exact List.dropWhile_get_zero_not _ _ (Nat.lt_of_lt_of_le hlen hpre.length_le)
  show ((trim s).dropWhile isWhiteSpace).rdropWhile isWhiteSpace = trim s
  rw [hstart]
  exact List.rdropWhile_idempotent _ _

theorem contains_iff {pat : Str} : ∀ {s : Str}, contains pat s ↔ pat <:+: s
  | [] => by rw [contains, List.isEmpty_iff, List.infix_nil]
  | c :: cs => by
      rw [contains, Bool.or_eq_true, List.isPrefixOf_iff_prefix, contains_iff, List.infix_cons_iff]

/-- Dropping what a text cannot start with does not drop it. -/
theorem infix_dropWhile {p : Char → Bool} {c : Char} (hc : p c = false) (cs : Str) :
    ∀ {s : Str}, c :: cs <:+: s.dropWhile p ↔ c :: cs <:+: s
  | [] => Iff.rfl
  | d :: ds => by
      rw [List.dropWhile_cons]
      split
      · next hd =>
          rw [infix_dropWhile hc, List.infix_cons_iff, List.cons_prefix_cons]
          constructor
          · exact .inr
          · rintro (⟨rfl, _⟩ | h)
            · rw [hc] at hd
              cases hd
            · exact h
      · rfl

theorem infix_rdropWhile {p : Char → Bool} {c : Char} (hc : p c = false) (cs s : Str) :
    cs ++ [c] <:+: s.rdropWhile p ↔ cs ++ [c] <:+: s := by
  rw [← List.reverse_infix, ← @List.reverse_infix _ (cs ++ [c]) s, List.rdropWhile,
    List.reverse_reverse, List.reverse_append]
  exact infix_dropWhile hc cs.reverse

/-! ## Splitting and replacing -/

/-- `split` at the characters that meet `p`. -/
def split (p : Char → Bool) : Str → List Str
  | [] => [[]]
  | c :: cs =>
      if p c then [] :: split p cs
      else match split p cs with
        | [] => [[c]]
        | part :: parts => (c :: part) :: parts

/-- `split_once`. -/
def splitOnce (c : Char) : Str → Option (Str × Str)
  | [] => none
  | d :: ds => if d = c then some ([], ds) else (splitOnce c ds).map fun (a, b) => (d :: a, b)

/-- `rsplit_once`. -/
def rsplitOnce (c : Char) : Str → Option (Str × Str)
  | [] => none
  | d :: ds =>
      match rsplitOnce c ds with
      | some (a, b) => some (d :: a, b)
      | none => if d = c then some ([], ds) else none

theorem splitOnce_append {c : Char} (r : Str) : ∀ {l : Str}, c ∉ l →
    splitOnce c (l ++ c :: r) = some (l, r)
  | [], _ => by rw [List.nil_append, splitOnce, if_pos rfl]
  | x :: l, h => by
      rw [List.mem_cons, not_or] at h
      rw [List.cons_append, splitOnce, if_neg (Ne.symm h.1), splitOnce_append r h.2]
      rfl

theorem splitOnce_of_mem {c : Char} : ∀ {s : Str}, c ∈ s → ∃ a b, splitOnce c s = some (a, b)
  | x :: xs, h => by
      rw [splitOnce]
      split
      · exact ⟨_, _, rfl⟩
      · next hx =>
          obtain ⟨a, b, hab⟩ := splitOnce_of_mem ((List.mem_cons.mp h).resolve_left (Ne.symm hx))
          rw [hab]
          exact ⟨_, _, rfl⟩

theorem rsplitOnce_none {c : Char} : ∀ {s : Str}, c ∉ s → rsplitOnce c s = none
  | [], _ => rfl
  | x :: s, h => by
      rw [List.mem_cons, not_or] at h
      rw [rsplitOnce, rsplitOnce_none h.2]
      exact if_neg (Ne.symm h.1)

theorem rsplitOnce_append {c : Char} {r : Str} (h : c ∉ r) : ∀ l : Str,
    rsplitOnce c (l ++ c :: r) = some (l, r)
  | [] => by
      rw [List.nil_append, rsplitOnce, rsplitOnce_none h]
      exact if_pos rfl
  | x :: l => by rw [List.cons_append, rsplitOnce, rsplitOnce_append h l]

/-- `replace` of a text that is not empty, from left to right. -/
def replace (pat new : Str) : (fuel : Nat) → Str → Str
  | 0, s => s
  | _ + 1, [] => []
  | fuel + 1, c :: cs =>
      if pat.isPrefixOf (c :: cs) then new ++ replace pat new fuel ((c :: cs).drop pat.length)
      else c :: replace pat new fuel cs

/-- `replace` over a whole text. -/
def replaceAll (pat new s : Str) : Str := replace pat new (s.length + 1) s

theorem length_replace_le {pat new : Str} (h : new.length ≤ pat.length) :
    ∀ (fuel : Nat) (s : Str), (replace pat new fuel s).length ≤ s.length
  | 0, s => Nat.le_refl _
  | _ + 1, [] => Nat.le_refl _
  | fuel + 1, c :: cs => by
      rw [replace]
      split
      · next hpre =>
          obtain ⟨t, ht⟩ := List.isPrefixOf_iff_prefix.mp hpre
          have ih := length_replace_le h fuel t
          rw [← ht, List.drop_left, List.length_append, List.length_append]
          omega
      · exact Nat.succ_le_succ (length_replace_le h fuel cs)

/-- `slice::join`. -/
def join (sep : Str) : List Str → Str
  | [] => []
  | [s] => s
  | s :: ss => s ++ sep ++ join sep ss

/-! ## Numbers -/

/-- `parse::<u16>` and the other unsigned types: an optional `+` and decimal digits with a
value below `bound`. -/
def parseNat (bound : Nat) (s : Str) : Option Nat :=
  let digits := match s with
    | '+' :: rest => rest
    | _ => s
  if digits.isEmpty || !digits.all (fun c => '0' ≤ c && c ≤ '9') then none
  else
    let value := digits.foldl (fun n c => n * 10 + (c.toNat - '0'.toNat)) 0
    if value < bound then some value else none

def parseU16 (s : Str) : Option UInt16 := (parseNat 65536 s).map UInt16.ofNat

/-! ## UTF-8 -/

/-- `str::as_bytes`. -/
def bytes (s : Str) : Bytes := s.flatMap String.utf8EncodeChar

theorem utf8EncodeChar_ascii {c : Char} (h : c.toNat < 128) :
    String.utf8EncodeChar c = [UInt8.ofNat c.toNat] :=
  if_pos (Nat.le_of_lt_succ h)

theorem bytes_cons_ascii {c : Char} (h : c.toNat < 128) (cs : Str) :
    bytes (c :: cs) = UInt8.ofNat c.toNat :: bytes cs := by
  rw [bytes, List.flatMap_cons, utf8EncodeChar_ascii h]
  rfl

@[simp] theorem length_bytes (s : Str) : (bytes s).length = byteLen s := by
  induction s with
  | nil => rfl
  | cons c cs ih =>
      rw [bytes, List.flatMap_cons, List.length_append, String.length_utf8EncodeChar, byteLen, ← ih]
      rfl

def isCont (b : UInt8) : Bool := b &&& 0xC0 = 0x80

/-- The character at the head of the bytes, or `none` if they are no UTF-8 there, and how
many bytes it takes or the longest beginning of a character spans. -/
def decodeHead (b0 : UInt8) (rest : Bytes) : Option Char × Nat :=
  let b1 := rest.getD 0 0
  let b2 := rest.getD 1 0
  let b3 := rest.getD 2 0
  let low (b : UInt8) : Nat := (b &&& 0x3F).toNat
  if b0 < 0x80 then (some (Char.ofNat b0.toNat), 1)
  else if 0xC2 ≤ b0 ∧ b0 ≤ 0xDF then
    if isCont b1 then (some (Char.ofNat ((b0 &&& 0x1F).toNat * 64 + low b1)), 2) else (none, 1)
  else if 0xE0 ≤ b0 ∧ b0 ≤ 0xEF then
    if !isCont b1 ∨ (b0 = 0xE0 ∧ b1 < 0xA0) ∨ (b0 = 0xED ∧ 0x9F < b1) then (none, 1)
    else if !isCont b2 then (none, 2)
    else (some (Char.ofNat (((b0 &&& 0x0F).toNat * 64 + low b1) * 64 + low b2)), 3)
  else if 0xF0 ≤ b0 ∧ b0 ≤ 0xF4 then
    if !isCont b1 ∨ (b0 = 0xF0 ∧ b1 < 0x90) ∨ (b0 = 0xF4 ∧ 0x8F < b1) then (none, 1)
    else if !isCont b2 then (none, 2)
    else if !isCont b3 then (none, 3)
    else (some (Char.ofNat ((((b0 &&& 0x07).toNat * 64 + low b1) * 64 + low b2) * 64 + low b3)), 4)
  else (none, 1)

/-- The characters of the bytes, with `none` for each sequence that is none. -/
def decode : (fuel : Nat) → Bytes → List (Option Char)
  | 0, _ => []
  | _ + 1, [] => []
  | fuel + 1, b :: bs =>
      let (c, n) := decodeHead b bs
      c :: decode fuel (bs.drop (n - 1))

/-- `String::from_utf8`. -/
def fromUtf8 (bs : Bytes) : Option Str := (decode bs.length bs).mapM id

/-- `String::from_utf8_lossy`. -/
def fromUtf8Lossy (bs : Bytes) : Str := (decode bs.length bs).map (·.getD '\uFFFD')

end Str

end RustClash
