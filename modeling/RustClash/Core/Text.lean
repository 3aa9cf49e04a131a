import Mathlib.Algebra.Group.Nat.Defs
import RustClash.Core.Str

/-!
# Lines, fields and numbers

How texts are put together that are to be read again: lines behind one another, fields with a
separator between them, numbers in decimal digits.
-/

namespace RustClash

namespace Str

/-! ## Splitting what was joined -/

section

variable {c : Char} {s : Str}

theorem split_append (rest : Str) (h : c ∉ s) :
    split (· = c) (s ++ c :: rest) = s :: split (· = c) rest := by
  induction s with
  | nil => simp [split]
  | cons d ds ih =>
      rw [List.mem_cons, not_or] at h
      rw [List.cons_append, split, if_neg (by simpa using Ne.symm h.1), ih h.2]

theorem split_of_notMem (h : c ∉ s) : split (· = c) s = [s] := by
  induction s with
  | nil => rfl
  | cons d ds ih =>
      rw [List.mem_cons, not_or] at h
      rw [split, if_neg (by simpa using Ne.symm h.1), ih h.2]

theorem split_join {lines : List Str} (hne : lines ≠ []) (h : ∀ raw ∈ lines, c ∉ raw) :
    split (· = c) (join [c] lines) = lines := by
  induction lines with
  | nil => exact absurd rfl hne
  | cons raw lines ih =>
      obtain ⟨hraw, hlines⟩ := List.forall_mem_cons.mp h
      cases lines with
      | nil => exact split_of_notMem hraw
      | cons raw' lines =>
          rw [join, List.append_assoc, List.singleton_append, split_append _ hraw,
            ih (by simp) hlines]
          simp

theorem split_ne_nil {p : Char → Bool} : ∀ {s : Str}, split p s ≠ []
  | [] => by simp [split]
  | c :: cs => by
      rw [split]
      split
      · simp
      · split <;> simp

end

theorem mem_join {c : Char} {sep : Str} : ∀ {ss : List Str}, c ∈ join sep ss →
    c ∈ sep ∨ ∃ s ∈ ss, c ∈ s
  | [], h => by cases h
  | [s], h => .inr ⟨s, List.mem_cons_self, h⟩
  | s :: s' :: ss, h => by
      rcases List.mem_append.mp h with h | h
      · rcases List.mem_append.mp h with h | h
        · exact .inr ⟨s, List.mem_cons_self, h⟩
        · exact .inl h
      · obtain hsep | ⟨t, ht, hc⟩ := mem_join h
        · exact .inl hsep
        · exact .inr ⟨t, List.mem_cons_of_mem _ ht, hc⟩

theorem mem_join_of_mem {c : Char} {sep s : Str} : ∀ {ss : List Str}, s ∈ ss → c ∈ s →
    c ∈ join sep ss
  | [t], hs, hc => by
      rw [List.mem_singleton.mp hs] at hc
      exact hc
  | t :: t' :: ss, hs, hc => by
      rcases List.mem_cons.mp hs with rfl | hs
      · exact List.mem_append_left _ (List.mem_append_left _ hc)
      · exact List.mem_append_right _ (mem_join_of_mem hs hc)

theorem notMem_join {c d : Char} (hcd : c ≠ d) {fields : List Str} (h : ∀ s ∈ fields, c ∉ s) :
    c ∉ join [d] fields := by
  intro hc
  obtain hsep | ⟨s, hs, hmem⟩ := mem_join hc
  · exact hcd (List.mem_singleton.mp hsep)
  · exact h s hs hmem

/-- The last character of a join is that of its last part. -/
theorem getLast_join {sep : Str} : ∀ {parts : List Str} (hne : join sep parts ≠ []),
    (∀ part ∈ parts, part ≠ []) → ∃ part ∈ parts, (join sep parts).getLast hne ∈ part
  | [], hne, _ => absurd rfl hne
  | [part], hne, _ => ⟨part, List.mem_cons_self, List.getLast_mem hne⟩
  | part :: part' :: parts, hne, hvalid => by
      have hvalid' := (List.forall_mem_cons.mp hvalid).2
      have hne' : join sep (part' :: parts) ≠ [] := by
        obtain ⟨c, cs, hc⟩ := List.exists_cons_of_ne_nil (hvalid' part' List.mem_cons_self)
        rw [hc]
        exact List.ne_nil_of_mem (mem_join_of_mem List.mem_cons_self List.mem_cons_self)
      obtain ⟨found, hfound, hmem⟩ := getLast_join hne' hvalid'
      have hlast : (part ++ sep ++ join sep (part' :: parts)).getLast hne =
          (join sep (part' :: parts)).getLast hne' := List.getLast_append_of_ne_nil _ hne'
      exact ⟨found, List.mem_cons_of_mem _ hfound, hlast ▸ hmem⟩

theorem join_concat (sep s : Str) : ∀ ss : List Str,
    join sep (ss ++ [s]) = if ss = [] then s else join sep ss ++ sep ++ s
  | [] => rfl
  | [_] => rfl
  | t :: t' :: ss => by
      have ih := join_concat sep s (t' :: ss)
      rw [if_neg (List.cons_ne_nil _ _)] at ih ⊢
      show t ++ sep ++ join sep ((t' :: ss) ++ [s]) = t ++ sep ++ join sep (t' :: ss) ++ sep ++ s
      rw [ih]
      simp only [List.append_assoc]

/-! ## Lines -/

/-- A line without the carriage return before its line feed. -/
def dropCr (s : Str) : Str := if endsWith '\r' s then s.dropLast else s

/-- `lines`: the last one is there without a line feed only if it is not empty. -/
def lines (s : Str) : List Str :=
  let parts := split (· = '\n') s
  parts.dropLast.map dropCr ++ parts.getLast?.toList.filter (!·.isEmpty)

@[simp] theorem lines_nil : lines [] = [] := rfl

theorem lines_append {s : Str} (rest : Str) (h : '\n' ∉ s) :
    lines (s ++ '\n' :: rest) = dropCr s :: lines rest := by
  have hne : split (· = '\n') rest ≠ [] := split_ne_nil
  rw [lines, lines, split_append _ h]
  rw [List.dropLast_cons_of_ne_nil hne, List.map_cons, List.cons_append,
    List.getLast?_cons, List.getLast?_eq_getLast_of_ne_nil hne, Option.getD_some]

theorem dropCr_of_notMem {s : Str} (h : '\r' ∉ s) : dropCr s = s := by
  refine if_neg fun hend => h ?_
  exact List.mem_of_getLast? (of_decide_eq_true hend)

theorem dropCr_append {s t : Str} (hne : t ≠ []) (h : '\r' ∉ t) : dropCr (s ++ t) = s ++ t := by
  refine if_neg fun hend => h ?_
  have hlast : (s ++ t).getLast? = some '\r' := of_decide_eq_true hend
  rw [List.getLast?_append_of_ne_nil s hne] at hlast
  exact List.mem_of_getLast? hlast

/-! ## Blanks -/

theorem trim_of_visible {s : Str} (h : ∀ c ∈ s, isWhiteSpace c = false) : trim s = s :=
  trim_of_ends (fun c hc => h c (List.mem_of_mem_head? hc)) fun c hc =>
    h c (List.mem_of_getLast? hc)

theorem trim_cons {c : Char} (hc : isWhiteSpace c = true) (s : Str) : trim (c :: s) = trim s := by
  rw [trim, trim, List.dropWhile_cons_of_pos hc]

theorem head_of_trim {s : Str} (h : trim s = s) : ∀ c ∈ s.head?, isWhiteSpace c = false := by
  cases s with
  | nil => exact fun c hc => by cases hc
  | cons c cs =>
      rintro _ ⟨⟩
      by_contra hc
      have hlen := length_trim_le cs
      rw [← trim_cons (Bool.of_not_eq_false hc), h, List.length_cons] at hlen
      omega

theorem trim_lead {lead : Str} (h : ∀ c ∈ lead, isWhiteSpace c) (s : Str) :
    trim (lead ++ s) = trim s := by
  induction lead with
  | nil => rfl
  | cons c cs ih =>
      rw [List.forall_mem_cons] at h
      rw [List.cons_append, trim_cons h.1, ih h.2]

theorem rdropWhile_append_blanks (s : Str) {blanks : Str} (h : ∀ c ∈ blanks, isWhiteSpace c) :
    (s ++ blanks).rdropWhile isWhiteSpace = s.rdropWhile isWhiteSpace := by
  induction blanks using List.reverseRecOn with
  | nil => rw [List.append_nil]
  | append_singleton blanks b ih =>
      have hb := h b (List.mem_append_right _ List.mem_cons_self)
      rw [← List.append_assoc, List.rdropWhile_concat_pos _ _ _ hb,
        ih fun d hd => h d (List.mem_append_left _ hd)]

theorem trim_blanks {s blanks : Str} (hne : s ≠ []) (h : ∀ c ∈ s, isWhiteSpace c = false)
    (hblanks : ∀ c ∈ blanks, isWhiteSpace c) : trim (s ++ blanks) = s := by
  cases s with
  | nil => exact absurd rfl hne
  | cons c cs =>
      have hc : ¬ isWhiteSpace c = true := Bool.eq_false_iff.mp (h c List.mem_cons_self)
      have hvisible := trim_of_visible h
      rw [trim, List.dropWhile_cons_of_neg hc] at hvisible
      rw [trim, List.cons_append, List.dropWhile_cons_of_neg hc, ← List.cons_append,
        rdropWhile_append_blanks _ hblanks, hvisible]

/-- A text that is not blank where it begins, and the blanks behind it. -/
theorem trim_append_blanks {s : Str} (h : ∀ c ∈ s.head?, isWhiteSpace c = false) :
    ∃ blanks, s = trim s ++ blanks ∧ ∀ c ∈ blanks, isWhiteSpace c := by
  have hstart : s.dropWhile isWhiteSpace = s := by
    cases s with
    | nil => rfl
    | cons c cs =>
        have hc := h c rfl
        rw [List.dropWhile_cons_of_neg (by simp [hc])]
  refine ⟨s.rtakeWhile isWhiteSpace, ?_, fun c hc => List.mem_rtakeWhile_imp hc⟩
  rw [trim, hstart, List.rdropWhile_append_rtakeWhile]

/-- What is not blank stays, with all that stands before it. -/
theorem trim_append_cons {y rest : Str} {c : Char} (h : ∀ c ∈ y.head?, isWhiteSpace c = false)
    (hc : isWhiteSpace c = false) : ∃ rest', trim (y ++ c :: rest) = y ++ c :: rest' := by
  have hhead : ∀ d ∈ (y ++ c :: rest).head?, isWhiteSpace d = false := by
    cases y with
    | nil =>
        rintro _ ⟨⟩
        exact hc
    | cons d ds => exact h
  obtain ⟨blanks, heq, hblanks⟩ := trim_append_blanks hhead
  have hfree : c ∉ blanks := fun hmem => by
    rw [hblanks c hmem] at hc
    cases hc
  rcases List.append_eq_append_iff.mp heq with ⟨as, htrim, hrest⟩ | ⟨bs, -, hrest⟩
  · cases as with
    | nil =>
        rw [List.nil_append] at hrest
        exact absurd (hrest ▸ List.mem_cons_self) hfree
    | cons d ds =>
        cases hrest
        exact ⟨ds, htrim⟩
  · exact absurd (hrest ▸ List.mem_append_right _ List.mem_cons_self) hfree

/-! ## Numbers -/

theorem char_le_iff {a b : Char} : a ≤ b ↔ a.toNat ≤ b.toNat := by
  rw [Char.le_def, UInt32.le_iff_toNat_le]
  rfl

/-- A digit is not a blank. -/
theorem isWhiteSpace_digit {c : Char} (h : '0' ≤ c ∧ c ≤ '9') : isWhiteSpace c = false := by
  have hrange : 48 ≤ c.toNat ∧ c.toNat ≤ 57 := ⟨char_le_iff.mp h.1, char_le_iff.mp h.2⟩
  simp only [isWhiteSpace, Bool.or_eq_false_iff, Bool.and_eq_false_iff, decide_eq_false_iff_not,
    beq_eq_false_iff_ne]
  omega

/-- The digits of a number, as it prints. -/
def ofNat (n : Nat) : Str := Nat.toDigits 10 n

def ofInt : Int → Str
  | .ofNat n => ofNat n
  | .negSucc n => '-' :: ofNat (n + 1)

/-- `parse::<i32>`. -/
def parseI32 (s : Str) : Option Int :=
  match s with
  | '-' :: rest =>
      if startsWith '+' rest then none else (parseNat (2 ^ 31 + 1) rest).map fun n => -(n : Int)
  | _ => (parseNat (2 ^ 31) s).map fun n => (n : Int)

/-- `parse::<i64>`. -/
def parseI64 (s : Str) : Option Int64 :=
  match s with
  | '-' :: rest =>
      if startsWith '+' rest then none
      else (parseNat (2 ^ 63 + 1) rest).map fun (n : Nat) => Int64.ofInt (-n)
  | _ => (parseNat (2 ^ 63) s).map fun (n : Nat) => Int64.ofInt n

theorem isDigit_of_mem_ofNat {n : Nat} {c : Char} (h : c ∈ ofNat n) : '0' ≤ c ∧ c ≤ '9' := by
  have hd : c.isDigit = true := Nat.isDigit_of_mem_toDigits (by decide) (by decide) h
  simpa [Char.isDigit, Char.le_def] using hd

theorem notMem_ofNat {n : Nat} {c : Char} (h : ¬ ('0' ≤ c ∧ c ≤ '9')) : c ∉ ofNat n :=
  fun hc => h (isDigit_of_mem_ofNat hc)

theorem trim_ofNat (n : Nat) : trim (ofNat n) = ofNat n := by
  exact trim_of_visible fun c hc => isWhiteSpace_digit (isDigit_of_mem_ofNat hc)

theorem ofNat_ne_nil {n : Nat} : ofNat n ≠ [] := Nat.toDigits_ne_nil

theorem parseNat_ofNat {bound n : Nat} (h : n < bound) : parseNat bound (ofNat n) = some n := by
  have hall : ((ofNat n).all fun c => '0' ≤ c && c ≤ '9') = true :=
    List.all_eq_true.mpr fun c hc => by
      obtain ⟨h0, h9⟩ := isDigit_of_mem_ofNat hc
      rw [decide_eq_true h0, decide_eq_true h9]
      rfl
  have hempty : (ofNat n).isEmpty = false := by
    rw [Bool.eq_false_iff]
    exact fun he => ofNat_ne_nil (List.isEmpty_iff.mp he)
  have hvalue : (ofNat n).foldl (fun n c => n * 10 + (c.toNat - '0'.toNat)) 0 = n := by
    have hfold := @Nat.ofDigitChars_ten_toDigits n
    rw [Nat.ofDigitChars_eq_foldl] at hfold
    simpa only [Nat.mul_comm 10, ofNat] using hfold
  unfold parseNat
  split
  · next rest hplus =>
      exact absurd (List.mem_of_mem_head? (a := '+') (by rw [hplus]; rfl)) (notMem_ofNat (by decide))
  · simp only [hempty, hall, hvalue]
    exact if_pos h

theorem parseI32_ofNat {n : Nat} (h : n < 2 ^ 31) : parseI32 (ofNat n) = some (n : Int) := by
  unfold parseI32
  split
  · next rest hminus =>
      exact absurd (List.mem_of_mem_head? (a := '-') (by rw [hminus]; rfl)) (notMem_ofNat (by decide))
  · rw [parseNat_ofNat h]
    rfl

/-- A number is read back as it was printed. -/
theorem parseI64_ofInt (n : Int64) : parseI64 (ofInt n.toInt) = some n := by
  have hlow := n.le_toInt
  have hhigh := n.toInt_lt
  have hofInt : Int64.ofInt n.toInt = n := Int64.ofInt_toInt n
  generalize n.toInt = i at *
  cases i with
  | ofNat m =>
      unfold parseI64
      rw [ofInt]
      split
      · next rest hminus =>
          exact absurd (List.mem_of_mem_head? (a := '-') (by rw [hminus]; rfl))
            (notMem_ofNat (by decide))
      · rw [Int.ofNat_eq_natCast] at hhigh
        rw [parseNat_ofNat (by omega), Option.map_some]
        exact congrArg some hofInt
  | negSucc m =>
      have hplus : startsWith '+' (ofNat (m + 1)) = false := by
        refine decide_eq_false fun hhead => ?_
        exact notMem_ofNat (by decide) (List.mem_of_mem_head? hhead)
      rw [ofInt, parseI64, hplus, if_neg Bool.false_ne_true, parseNat_ofNat (by omega),
        Option.map_some]
      exact congrArg some hofInt

end Str

end RustClash
