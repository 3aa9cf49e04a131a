import Mathlib.Data.List.DropRight
import Mathlib.Data.List.Infix

/-!
# HTTP/1.1 messages

How a receiver finds the end of a request: the header section ends at the first
empty line, the framing fields say how the body is delimited, and what follows the
body is the next message.  `parse` accepts well formed requests only.
-/

namespace Http

/-! ## Lines -/

section Lines

variable {α : Type} [DecidableEq α] (a b : α)

/-- The list cut at every pair of `a` and `b`. -/
def splitPair : List α → List (List α)
  | [] => [[]]
  | [x] => [[x]]
  | x :: y :: rest =>
      if x = a ∧ y = b then [] :: splitPair rest
      else match splitPair (y :: rest) with
        | [] => [[x]]
        | line :: lines => (x :: line) :: lines

/-- The lines with the pair after each of them. -/
def joinPair (lines : List (List α)) : List α := lines.flatMap fun line => line ++ [a, b]

/-- The lines with the pair between them. -/
def between : List (List α) → List α
  | [] => []
  | line :: lines => line ++ lines.flatMap fun l => a :: b :: l

omit [DecidableEq α] in
theorem joinPair_eq_between (l : List α) (ls : List (List α)) :
    joinPair a b (l :: ls) = between a b (l :: ls) ++ [a, b] := by
  induction ls generalizing l with
  | nil => simp [joinPair, between]
  | cons m ls ih =>
    rw [show joinPair a b (l :: m :: ls) = l ++ [a, b] ++ joinPair a b (m :: ls) from rfl, ih m]
    simp [between]

theorem splitPair_ne_nil : ∀ xs : List α, splitPair a b xs ≠ []
  | [] => List.cons_ne_nil _ _
  | [_] => List.cons_ne_nil _ _
  | x :: y :: rest => by
      rw [splitPair]
      split
      · exact List.cons_ne_nil _ _
      · split <;> exact List.cons_ne_nil _ _

/-- Cutting loses nothing. -/
theorem between_splitPair : ∀ xs : List α, between a b (splitPair a b xs) = xs
  | [] => rfl
  | [_] => rfl
  | x :: y :: rest => by
      rw [splitPair]
      split
      · next h =>
          have ih := between_splitPair rest
          obtain ⟨rfl, rfl⟩ := h
          revert ih
          cases hs : splitPair x y rest with
          | nil => exact absurd hs (splitPair_ne_nil x y rest)
          | cons l ls =>
              intro ih
              show x :: y :: between x y (l :: ls) = _
              rw [ih]
      · have ih := between_splitPair (y :: rest)
        revert ih
        cases hs : splitPair a b (y :: rest) with
        | nil => exact absurd hs (splitPair_ne_nil a b _)
        | cons l ls =>
            intro ih
            show x :: between a b (l :: ls) = _
            rw [ih]

variable {a b}

theorem splitPair_pair {x y : α} (h : x = a ∧ y = b) (rest : List α) :
    splitPair a b (x :: y :: rest) = [] :: splitPair a b rest := if_pos h

theorem headD_splitPair {x y : α} {rest : List α} (h : ¬ (x = a ∧ y = b)) :
    (splitPair a b (x :: y :: rest)).headD [] = x :: (splitPair a b (y :: rest)).headD [] := by
  rw [splitPair, if_neg h]
  cases hs : splitPair a b (y :: rest) with
  | nil => exact absurd hs (splitPair_ne_nil a b _)
  | cons line lines => rfl

/-- The first line does not depend on what follows its end. -/
theorem headD_splitPair_append (v w : List α) : ∀ u : List α,
    (splitPair a b (u ++ a :: b :: v)).headD [] = (splitPair a b (u ++ a :: b :: w)).headD []
  | [] => by
      rw [List.nil_append, List.nil_append, splitPair_pair ⟨rfl, rfl⟩, splitPair_pair ⟨rfl, rfl⟩]
      rfl
  | [x] => by
      by_cases h : x = a ∧ a = b
      · rw [List.singleton_append, List.singleton_append, splitPair_pair h, splitPair_pair h]
        rfl
      · have ih := headD_splitPair_append v w []
        rw [List.singleton_append, List.singleton_append, headD_splitPair h, headD_splitPair h]
        exact congrArg (x :: ·) ih
  | x :: y :: u => by
      by_cases h : x = a ∧ y = b
      · rw [List.cons_append, List.cons_append, List.cons_append, List.cons_append,
          splitPair_pair h, splitPair_pair h]
        rfl
      · have ih := headD_splitPair_append v w (y :: u)
        rw [List.cons_append, List.cons_append, List.cons_append, List.cons_append,
          headD_splitPair h, headD_splitPair h]
        exact congrArg (x :: ·) ih

theorem splitPair_line : ∀ {line : List α}, a ∉ line → splitPair a b line = [line]
  | [], _ => rfl
  | [_], _ => rfl
  | x :: y :: rest, h => by
      rw [List.mem_cons, not_or] at h
      rw [splitPair, if_neg (fun hx => h.1 hx.1.symm), splitPair_line h.2]

theorem splitPair_append (rest : List α) : ∀ {line : List α}, a ∉ line →
    splitPair a b (line ++ a :: b :: rest) = line :: splitPair a b rest
  | [], _ => by rw [List.nil_append, splitPair, if_pos ⟨rfl, rfl⟩]
  | [x], h => by
      rw [List.mem_singleton] at h
      show splitPair a b (x :: a :: b :: rest) = _
      rw [splitPair, if_neg (fun hx => h hx.1.symm), splitPair, if_pos ⟨rfl, rfl⟩]
  | x :: y :: line, h => by
      rw [List.mem_cons, not_or] at h
      have ih := splitPair_append rest h.2
      show splitPair a b (x :: y :: (line ++ a :: b :: rest)) = _
      rw [splitPair, if_neg (fun hx => h.1 hx.1.symm)]
      rw [List.cons_append] at ih
      rw [ih]

/-- Lines that do not contain the first of the pair are found again. -/
theorem splitPair_between : ∀ {lines : List (List α)}, lines ≠ [] → (∀ l ∈ lines, a ∉ l) →
    splitPair a b (between a b lines) = lines
  | [], h, _ => absurd rfl h
  | [l], _, h => by
      rw [between, List.flatMap_nil, List.append_nil, splitPair_line (h l List.mem_cons_self)]
  | l :: m :: ls, _, h => by
      have ih := @splitPair_between (m :: ls) (List.cons_ne_nil _ _)
        fun l hl => h l (List.mem_cons_of_mem _ hl)
      show splitPair a b (l ++ a :: b :: between a b (m :: ls)) = _
      rw [splitPair_append _ (h l List.mem_cons_self), ih]

end Lines

/-- The header section before the first empty line, and what follows that line. -/
def splitHead : List UInt8 → Option (List UInt8 × List UInt8)
  | [] => none
  | b :: bs =>
      if [13, 10, 13, 10].isPrefixOf (b :: bs) then some ([], (b :: bs).drop 4)
      else (splitHead bs).map fun (head, rest) => (b :: head, rest)

theorem splitHead_empty_line (tail : List UInt8) : ∀ {line : List UInt8}, 13 ∉ line →
    splitHead (line ++ 13 :: 10 :: 13 :: 10 :: tail) = some (line, tail)
  | [], _ => by
      rw [List.nil_append, splitHead, if_pos]
      · rfl
      · simp
  | x :: line, h => by
      rw [List.mem_cons, not_or] at h
      rw [List.cons_append, splitHead, if_neg (by simp [List.isPrefixOf, h.1]),
        splitHead_empty_line tail h.2]
      rfl

/-- A line break with something after it does not end the header section. -/
theorem splitHead_line {x : UInt8} (hx : 13 ≠ x) (rest : List UInt8) : ∀ {line : List UInt8},
    13 ∉ line → splitHead (line ++ 13 :: 10 :: x :: rest) =
      (splitHead (x :: rest)).map fun (head, rest) => (line ++ 13 :: 10 :: head, rest)
  | [], _ => by
      have hne : ([13, 10, 13, 10] : List UInt8).isPrefixOf (13 :: 10 :: x :: rest) = false := by
        simp [List.isPrefixOf, hx]
      rw [List.nil_append, splitHead, hne, if_neg Bool.false_ne_true]
      show ((splitHead (10 :: x :: rest)).map _) = _
      rw [splitHead, if_neg (by simp [List.isPrefixOf]), Option.map_map]
      rfl
  | y :: line, h => by
      rw [List.mem_cons, not_or] at h
      rw [List.cons_append, splitHead, if_neg (by simp [List.isPrefixOf, h.1]),
        splitHead_line hx rest h.2, Option.map_map]
      rfl

/-- The header section made of lines that are not empty ends where they do. -/
theorem splitHead_between (tail : List UInt8) : ∀ {lines : List (List UInt8)}, lines ≠ [] →
    (∀ l ∈ lines, l ≠ [] ∧ 13 ∉ l) →
    splitHead (between 13 10 lines ++ 13 :: 10 :: 13 :: 10 :: tail) = some (between 13 10 lines, tail)
  | [], h, _ => absurd rfl h
  | [l], _, h => by
      rw [between, List.flatMap_nil, List.append_nil]
      exact splitHead_empty_line tail (h l List.mem_cons_self).2
  | l :: m :: ls, _, h => by
      have ih := @splitHead_between tail (m :: ls) (List.cons_ne_nil _ _)
        fun l hl => h l (List.mem_cons_of_mem _ hl)
      obtain ⟨hm, hm13⟩ := h m (List.mem_cons_of_mem _ List.mem_cons_self)
      cases m with
      | nil => exact absurd rfl hm
      | cons x m =>
          rw [List.mem_cons, not_or] at hm13
          show splitHead ((l ++ 13 :: 10 :: between 13 10 ((x :: m) :: ls)) ++ _) = _
          rw [List.append_assoc]
          show splitHead (l ++ 13 :: 10 :: (between 13 10 ((x :: m) :: ls) ++ _)) = _
          rw [show between 13 10 ((x :: m) :: ls) ++ 13 :: 10 :: 13 :: 10 :: tail =
            x :: (between 13 10 (m :: ls) ++ 13 :: 10 :: 13 :: 10 :: tail) from rfl] at ih ⊢
          rw [splitHead_line hm13.1 _ (h l List.mem_cons_self).2, ih]
          rfl

/-- The empty line stands between the two parts. -/
theorem splitHead_eq_some : ∀ {bs head rest : List UInt8}, splitHead bs = some (head, rest) →
    bs = head ++ 13 :: 10 :: 13 :: 10 :: rest
  | [], _, _, h => by cases h
  | b :: bs, head, rest, h => by
      rw [splitHead] at h
      split at h
      · next hpre =>
          obtain ⟨t, ht⟩ := List.isPrefixOf_iff_prefix.mp hpre
          rw [← ht] at h ⊢
          cases h
          rfl
      · obtain ⟨⟨head', rest'⟩, hr, heq⟩ := Option.map_eq_some_iff.mp h
        cases heq
        rw [splitHead_eq_some hr]
        rfl

/-- What ends a header section ends it whatever follows. -/
theorem splitHead_append (more : List UInt8) : ∀ {bs head rest : List UInt8},
    splitHead bs = some (head, rest) → splitHead (bs ++ more) = some (head, rest ++ more)
  | [], _, _, h => by cases h
  | b :: bs, head, rest, h => by
      rw [splitHead] at h
      rw [List.cons_append, splitHead]
      split at h
      · next hpre =>
          have hle : 4 ≤ (b :: bs).length := (List.isPrefixOf_iff_prefix.mp hpre).length_le
          have hpre' := (List.isPrefixOf_iff_prefix.mp hpre).trans (List.prefix_append _ more)
          rw [List.cons_append] at hpre'
          cases h
          rw [if_pos (List.isPrefixOf_iff_prefix.mpr hpre'), ← List.cons_append,
            List.drop_append_of_le_length hle]
      · next hpre =>
          obtain ⟨⟨head', rest'⟩, hr, heq⟩ := Option.map_eq_some_iff.mp h
          cases heq
          have hfour : 4 ≤ (b :: bs).length := by
            rw [splitHead_eq_some hr, List.length_cons, List.length_append]
            simp only [List.length_cons]
            omega
          have hpre' : ¬ ([13, 10, 13, 10] : List UInt8).isPrefixOf (b :: (bs ++ more)) := by
            intro hp
            refine hpre (List.isPrefixOf_iff_prefix.mpr ?_)
            exact List.prefix_of_prefix_length_le (List.isPrefixOf_iff_prefix.mp hp)
              (List.prefix_append (b :: bs) more) hfour
          rw [if_neg hpre', splitHead_append more hr]
          rfl

/-- The line before the first line break, and what follows it. -/
def takeLine : List UInt8 → Option (List UInt8 × List UInt8)
  | [] => none
  | b :: bs =>
      if [13, 10].isPrefixOf (b :: bs) then some ([], (b :: bs).drop 2)
      else (takeLine bs).map fun (line, rest) => (b :: line, rest)

/-! ## Fields -/

def toChar (b : UInt8) : Char := Char.ofNat b.toNat

def lower (c : Char) : Char := if 'A' ≤ c ∧ c ≤ 'Z' then Char.ofNat (c.toNat + 32) else c

/-- `tchar`. -/
def isToken (c : Char) : Bool :=
  ('a' ≤ c && c ≤ 'z') || ('A' ≤ c && c ≤ 'Z') || ('0' ≤ c && c ≤ '9') ||
    "!#$%&'*+-.^_|~\x60".toList.contains c

/-- A byte of a field value: a tab, a blank, a visible character or a byte above ASCII. -/
def isFieldByte (b : UInt8) : Bool := b = 9 || (32 ≤ b && b ≠ 127)

def isBlank (b : UInt8) : Bool := b = 32 || b = 9

/-- A visible ASCII character. -/
def isVisible (b : UInt8) : Bool := 33 ≤ b && b ≤ 126

/-- A header field, its value without the blanks around it. -/
structure Field where
  name : List Char
  value : List UInt8
deriving DecidableEq

def Field.is (f : Field) (name : String) : Bool := f.name.map lower = name.toList

/-- The bytes before the first `sep` and those after it. -/
def cut (sep : UInt8) : List UInt8 → Option (List UInt8 × List UInt8)
  | [] => none
  | b :: bs => if b = sep then some ([], bs) else (cut sep bs).map fun (l, r) => (b :: l, r)

def trimBlanks (bs : List UInt8) : List UInt8 := (bs.dropWhile isBlank).rdropWhile isBlank

def parseField (line : List UInt8) : Option Field := do
  let (name, value) ← cut 58 line
  let name := name.map toChar
  if name.isEmpty || !name.all isToken || !value.all isFieldByte then none
  return ⟨name, trimBlanks value⟩

/-- The values of the fields with a name. -/
def values (name : String) (fields : List Field) : List (List UInt8) :=
  (fields.filter (·.is name)).map (·.value)

/-- The value of a line, if it has the name. -/
def lineValue (name : String) (line : List UInt8) : Option (List UInt8) :=
  (cut 58 line).bind fun (n, value) =>
    if (n.map toChar).map lower = name.toList then some (trimBlanks value) else none

/-- The values of the lines with a name, whatever the other lines are. -/
def lineValues (name : String) (lines : List (List UInt8)) : List (List UInt8) :=
  lines.filterMap (lineValue name)

/-! ### Cutting -/

theorem cut_append {sep : UInt8} (r : List UInt8) : ∀ {l : List UInt8}, sep ∉ l →
    cut sep (l ++ sep :: r) = some (l, r)
  | [], _ => by rw [List.nil_append, cut, if_pos rfl]
  | x :: l, h => by
      rw [List.mem_cons, not_or] at h
      rw [List.cons_append, cut, if_neg (Ne.symm h.1), cut_append r h.2]
      rfl

theorem lineValue_named {name : String} {n : List UInt8} (hn : 58 ∉ n)
    (hname : (n.map toChar).map lower = name.toList) (value : List UInt8) :
    lineValue name (n ++ 58 :: value) = some (trimBlanks value) := by
  rw [lineValue, cut_append value hn]
  exact if_pos hname

theorem lineValue_other {name : String} {n : List UInt8} (hn : 58 ∉ n)
    (hname : (n.map toChar).map lower ≠ name.toList) (value : List UInt8) :
    lineValue name (n ++ 58 :: value) = none := by
  rw [lineValue, cut_append value hn]
  exact if_neg hname

theorem eq_append_of_cut {sep : UInt8} : ∀ {bs l r : List UInt8}, cut sep bs = some (l, r) →
    bs = l ++ sep :: r ∧ sep ∉ l
  | [], _, _, h => by cases h
  | x :: bs, l, r, h => by
      rw [cut] at h
      split at h
      · next hx =>
          cases h
          subst hx
          exact ⟨rfl, List.not_mem_nil⟩
      · next hx =>
          obtain ⟨⟨l', r'⟩, hc, heq⟩ := Option.map_eq_some_iff.mp h
          cases heq
          obtain ⟨rfl, hl⟩ := eq_append_of_cut hc
          refine ⟨rfl, ?_⟩
          rw [List.mem_cons, not_or]
          exact ⟨fun h => hx h.symm, hl⟩

theorem parseField_eq_some {line : List UInt8} {f : Field} (h : parseField line = some f) :
    ∃ name value, line = name ++ 58 :: value ∧ name.map toChar = f.name ∧ f.name ≠ [] ∧
      f.name.all isToken ∧ value.all isFieldByte ∧ trimBlanks value = f.value := by
  obtain ⟨⟨name, value⟩, hcut, h⟩ := Option.bind_eq_some_iff.mp h
  replace h : (if (name.map toChar).isEmpty || !(name.map toChar).all isToken ||
      !value.all isFieldByte then none else some ⟨name.map toChar, trimBlanks value⟩) = some f := h
  split at h
  · cases h
  · next hok =>
      cases h
      simp only [Bool.or_eq_true, Bool.not_eq_true', not_or, Bool.not_eq_true, Bool.not_eq_false] at hok
      exact ⟨name, value, (eq_append_of_cut hcut).1, rfl, List.isEmpty_eq_false_iff.mp hok.1.1,
        hok.1.2, hok.2, rfl⟩

theorem parseField_line {name value : List UInt8} (hsep : 58 ∉ name) (hne : name ≠ [])
    (hname : (name.map toChar).all isToken) (hvalue : value.all isFieldByte) :
    parseField (name ++ 58 :: value) = some ⟨name.map toChar, trimBlanks value⟩ := by
  have hempty : (name.map toChar).isEmpty = false :=
    List.isEmpty_eq_false_iff.mpr (List.map_eq_nil_iff.not.mpr hne)
  rw [parseField, cut_append value hsep]
  show (if (name.map toChar).isEmpty || !(name.map toChar).all isToken ||
      !value.all isFieldByte then none else some _) = _
  rw [hempty, hname, hvalue]
  rfl

/-! ## Framing -/

inductive Framing where
  | none
  | length (n : Nat)
  | chunked
deriving DecidableEq

def isDigit (b : UInt8) : Bool := 48 ≤ b && b ≤ 57

def decimal (bs : List UInt8) : Option Nat :=
  if bs.isEmpty || !bs.all isDigit then none
  else some (bs.foldl (fun n b => n * 10 + (b.toNat - 48)) 0)

theorem digit_range {b : UInt8} (h : isDigit b) : 48 ≤ b.toNat ∧ b.toNat ≤ 57 := by
  simp only [isDigit, Bool.and_eq_true, decide_eq_true_eq, UInt8.le_iff_toNat_le] at h
  exact h

theorem decimal_eq_some {v : List UInt8} {n : Nat} (h : decimal v = some n) :
    v.all isDigit ∧ v ≠ [] := by
  rw [decimal] at h
  split at h
  · cases h
  · next hok =>
      simp only [Bool.or_eq_true, Bool.not_eq_true', not_or, Bool.not_eq_true, Bool.not_eq_false] at hok
      exact ⟨hok.2, List.isEmpty_eq_false_iff.mp hok.1⟩

theorem trimBlanks_digits {v : List UInt8} (hd : v.all isDigit) (hne : v ≠ []) :
    trimBlanks (32 :: v) = v := by
  have hdigit : ∀ b ∈ v, isBlank b = false := by
    intro b hb
    have hr := digit_range (List.all_eq_true.mp hd b hb)
    have hne {n : UInt8} (hn : n.toNat < 48) : b ≠ n := by
      rintro rfl
      omega
    simp [isBlank, hne (n := 32) (by decide), hne (n := 9) (by decide)]
  rw [trimBlanks, List.dropWhile_cons_of_pos (by decide)]
  have hfirst : v.dropWhile isBlank = v := by
    cases v with
    | nil => rfl
    | cons b bs =>
        exact List.dropWhile_cons_of_neg (by rw [hdigit b List.mem_cons_self]; exact Bool.false_ne_true)
  rw [hfirst, List.rdropWhile_eq_self_iff]
  intro hv
  rw [hdigit _ (List.getLast_mem hv)]
  exact Bool.false_ne_true

/-- The decimal digits of a number. -/
def digits (n : Nat) : List UInt8 := (Nat.toDigits 10 n).map fun c => UInt8.ofNat c.toNat

theorem digitChar_range {n : Nat} {c : Char} (h : c ∈ Nat.toDigits 10 n) :
    48 ≤ c.toNat ∧ c.toNat ≤ 57 := by
  have hd := Nat.isDigit_of_mem_toDigits (by decide) (by decide) h
  simp only [Char.isDigit, Bool.and_eq_true, decide_eq_true_eq, ge_iff_le, UInt32.le_iff_toNat_le]
    at hd
  exact hd

theorem isDigit_digits (n : Nat) : (digits n).all isDigit := by
  rw [List.all_eq_true]
  intro b hb
  obtain ⟨c, hc, rfl⟩ := List.mem_map.mp hb
  have hr := digitChar_range hc
  simp only [isDigit, Bool.and_eq_true, decide_eq_true_eq, UInt8.le_iff_toNat_le, UInt8.toNat_ofNat']
  rw [Nat.mod_eq_of_lt (by omega)]
  exact hr

theorem digits_ne_nil (n : Nat) : digits n ≠ [] :=
  List.map_eq_nil_iff.not.mpr Nat.toDigits_ne_nil

theorem decimal_digits (n : Nat) : decimal (digits n) = some n := by
  have hempty : (digits n).isEmpty = false := List.isEmpty_eq_false_iff.mpr (digits_ne_nil n)
  have hfold : ∀ (cs : List Char) (m : Nat), (∀ c ∈ cs, c.toNat ≤ 57) →
      (cs.map fun c => UInt8.ofNat c.toNat).foldl (fun n b => n * 10 + (b.toNat - 48)) m =
        Nat.ofDigitChars 10 cs m := by
    intro cs
    induction cs with
    | nil => exact fun _ _ => Nat.ofDigitChars_nil.symm
    | cons c cs ih =>
      intro m h
      rw [List.forall_mem_cons] at h
      rw [List.map_cons, List.foldl_cons, ih _ h.2, Nat.ofDigitChars_cons, UInt8.toNat_ofNat',
        Nat.mod_eq_of_lt (Nat.lt_of_le_of_lt h.1 (by decide)), Nat.mul_comm m]
      rfl
  rw [decimal, hempty, isDigit_digits, if_neg (by decide), digits,
    hfold _ _ fun c hc => (digitChar_range hc).2, Nat.ofDigitChars_ten_toDigits]

/-- How the body of a request is delimited; `none` if the fields contradict each other. -/
def framing (fields : List Field) : Option Framing :=
  match values "transfer-encoding" fields, values "content-length" fields with
  | [], [] => some .none
  | [], v :: vs => if vs.all (· = v) then (decimal v).map .length else none
  | [v], [] =>
      if (v.map fun b => lower (toChar b)) = "chunked".toList then some .chunked else none
  | _, _ => none

/-! ## Bodies -/

def hexDigit (b : UInt8) : Option Nat :=
  if 48 ≤ b ∧ b ≤ 57 then some (b.toNat - 48)
  else if 65 ≤ b ∧ b ≤ 70 then some (b.toNat - 55)
  else if 97 ≤ b ∧ b ≤ 102 then some (b.toNat - 87)
  else none

/-- The size in front of the extensions of a chunk. -/
def chunkSize (line : List UInt8) : Option Nat := do
  let digits ← (line.takeWhile fun b => b ≠ 59 && !isBlank b).mapM hexDigit
  if digits.isEmpty then none
  return digits.foldl (fun n d => n * 16 + d) 0

/-- What follows the trailer section. -/
def dropTrailers : (fuel : Nat) → List UInt8 → Option (List UInt8)
  | 0, _ => none
  | fuel + 1, bs => do
      let (line, rest) ← takeLine bs
      if line.isEmpty then return rest
      dropTrailers fuel rest

/-- The data of the chunks, and what follows the last one and the trailers. -/
def readChunks : (fuel : Nat) → List UInt8 → Option (List UInt8 × List UInt8)
  | 0, _ => none
  | fuel + 1, bs => do
      let (line, rest) ← takeLine bs
      let size ← chunkSize line
      if size = 0 then
        let rest ← dropTrailers (fuel + 1) rest
        return ([], rest)
      let data := rest.take size
      if data.length < size || !([13, 10].isPrefixOf (rest.drop size)) then none
      let (body, rest) ← readChunks fuel (rest.drop (size + 2))
      return (data ++ body, rest)

/-- The body, and what follows it. -/
def readBody (bs : List UInt8) : Framing → Option (List UInt8 × List UInt8)
  | .none => some ([], bs)
  | .length n => if n ≤ bs.length then some (bs.take n, bs.drop n) else none
  | .chunked => readChunks (bs.length + 1) bs

/-! ### Where a body ends -/

theorem takeLine_lt : ∀ {bs line rest : List UInt8}, takeLine bs = some (line, rest) →
    rest.length < bs.length
  | [], _, _, h => by cases h
  | b :: bs, line, rest, h => by
      rw [takeLine] at h
      split at h
      · cases h
        rw [List.length_drop, List.length_cons]
        omega
      · obtain ⟨⟨l, r⟩, hr, heq⟩ := Option.map_eq_some_iff.mp h
        cases heq
        exact Nat.lt_succ_of_lt (takeLine_lt hr)

theorem dropTrailers_lt : ∀ {fuel : Nat} {bs rest : List UInt8}, dropTrailers fuel bs = some rest →
    rest.length < bs.length
  | 0, _, _, h => by cases h
  | fuel + 1, bs, rest, h => by
      rw [dropTrailers] at h
      obtain ⟨⟨line, mid⟩, hline, h⟩ := Option.bind_eq_some_iff.mp h
      have hlt := takeLine_lt hline
      replace h : (if line.isEmpty then some mid else dropTrailers fuel mid) = some rest := h
      split at h
      · cases h
        exact hlt
      · exact Nat.lt_trans (dropTrailers_lt h) hlt

/-- A chunked body is never empty on the wire. -/
theorem readChunks_lt : ∀ {fuel : Nat} {bs body rest : List UInt8},
    readChunks fuel bs = some (body, rest) → rest.length < bs.length
  | 0, _, _, _, h => by cases h
  | fuel + 1, bs, body, rest, h => by
      rw [readChunks] at h
      obtain ⟨⟨line, mid⟩, hline, h⟩ := Option.bind_eq_some_iff.mp h
      obtain ⟨size, _, h⟩ := Option.bind_eq_some_iff.mp h
      have hlt := takeLine_lt hline
      replace h : (if size = 0 then (dropTrailers (fuel + 1) mid).bind fun rest => some ([], rest)
        else if (mid.take size).length < size || !([13, 10].isPrefixOf (mid.drop size)) then none
        else (readChunks fuel (mid.drop (size + 2))).bind fun r =>
          some (mid.take size ++ r.1, r.2)) = some (body, rest) := h
      split at h
      · obtain ⟨r, hr, h⟩ := Option.bind_eq_some_iff.mp h
        cases h
        exact Nat.lt_trans (dropTrailers_lt hr) hlt
      · split at h
        · cases h
        · obtain ⟨⟨b, r⟩, hr, h⟩ := Option.bind_eq_some_iff.mp h
          cases h
          have hdrop := readChunks_lt hr
          rw [List.length_drop] at hdrop
          show r.length < bs.length
          omega

/-! ## Requests -/

structure Request where
  method : List Char
  target : List UInt8
  fields : List Field
  framing : Framing
  body : List UInt8
  /-- What follows the request. -/
  rest : List UInt8
deriving DecidableEq

/-- The method and the target of a request line. -/
def parseStart (line : List UInt8) : Option (List Char × List UInt8) := do
  let (method, line) ← cut 32 line
  let (target, version) ← cut 32 line
  let method := method.map toChar
  if method.isEmpty || !method.all isToken || target.isEmpty || !target.all isVisible then none
  if version.map toChar ≠ "HTTP/1.1".toList then none
  return (method, target)

theorem parseStart_eq_some {line : List UInt8} {m : List Char} {t : List UInt8}
    (h : parseStart line = some (m, t)) : ∃ method version, line = method ++ 32 :: (t ++ 32 :: version) ∧
      method.map toChar = m ∧ 32 ∉ t ∧ m ≠ [] ∧ m.all isToken ∧ t ≠ [] ∧ t.all isVisible ∧
      version.map toChar = "HTTP/1.1".toList := by
  obtain ⟨⟨method, line'⟩, hcut, h⟩ := Option.bind_eq_some_iff.mp h
  obtain ⟨⟨target, version⟩, hcut', h⟩ := Option.bind_eq_some_iff.mp h
  replace h : (if (method.map toChar).isEmpty || !(method.map toChar).all isToken ||
      target.isEmpty || !target.all isVisible then none
    else if version.map toChar ≠ "HTTP/1.1".toList then none
    else some (method.map toChar, target)) = some (m, t) := h
  split at h
  · cases h
  · next hok =>
      split at h
      · cases h
      · next hversion =>
          cases h
          simp only [Bool.or_eq_true, Bool.not_eq_true', not_or, Bool.not_eq_true, Bool.not_eq_false]
            at hok
          obtain ⟨rfl, _⟩ := eq_append_of_cut hcut
          obtain ⟨rfl, ht⟩ := eq_append_of_cut hcut'
          exact ⟨method, version, rfl, rfl, ht, List.isEmpty_eq_false_iff.mp hok.1.1.1, hok.1.1.2,
            List.isEmpty_eq_false_iff.mp hok.1.2, hok.2, not_not.mp hversion⟩

theorem parseStart_line {method t version : List UInt8} (hmsep : 32 ∉ method) (htsep : 32 ∉ t)
    (hmne : method ≠ []) (hm : (method.map toChar).all isToken) (htne : t ≠ [])
    (ht : t.all isVisible) (hv : version.map toChar = "HTTP/1.1".toList) :
    parseStart (method ++ 32 :: (t ++ 32 :: version)) = some (method.map toChar, t) := by
  have hempty : (method.map toChar).isEmpty = false :=
    List.isEmpty_eq_false_iff.mpr (List.map_eq_nil_iff.not.mpr hmne)
  have htempty : t.isEmpty = false := List.isEmpty_eq_false_iff.mpr htne
  rw [parseStart, cut_append _ hmsep]
  show ((cut 32 (t ++ 32 :: version)).bind _) = _
  rw [cut_append version htsep]
  show (if (method.map toChar).isEmpty || !(method.map toChar).all isToken ||
      t.isEmpty || !t.all isVisible then none
    else if version.map toChar ≠ "HTTP/1.1".toList then none
    else some (method.map toChar, t)) = _
  rw [hempty, hm, htempty, ht, hv]
  rfl

def parse (bs : List UInt8) : Option Request := do
  let (head, rest) ← splitHead bs
  let lines := splitPair 13 10 head
  let (method, target) ← parseStart (lines.headD [])
  let fields ← lines.tail.mapM parseField
  let framing ← framing fields
  let (body, rest) ← readBody rest framing
  return { method, target, fields, framing, body, rest }

end Http
