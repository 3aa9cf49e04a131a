import RustClash.Config.BlockYaml

/-!
# Reading block style

A line `- …` starts an entry wherever it stands, so the reader counts the items of
the inner sequences as proxies.  Without such items the run over the lines of a
mapping puts each scalar at its dotted key and leaves the enclosing pairs as they
were.
-/

namespace RustClash

namespace Config.BlockYaml

open Str Checked

/-! ## Quotes -/

section Replace

variable {pat new : Str}

/-- A text without the pattern stays. -/
theorem replace_of_not_infix : ∀ (fuel : Nat) {s : Str}, ¬ pat <:+: s → replace pat new fuel s = s
  | 0, _, _ => rfl
  | _ + 1, [], _ => rfl
  | fuel + 1, c :: cs, h => by
      rw [List.infix_cons_iff, not_or, ← List.isPrefixOf_iff_prefix] at h
      rw [replace, if_neg h.1, replace_of_not_infix fuel h.2]

/-- A text with the pattern gets shorter when what replaces it is. -/
theorem length_replace_lt (h : new.length < pat.length) : ∀ {fuel : Nat} {s : Str},
    s.length < fuel → pat <:+: s → (replace pat new fuel s).length < s.length
  | 0, _, hf, _ => absurd hf (Nat.not_lt_zero _)
  | _ + 1, [], _, hp => by
      rw [List.infix_nil.mp hp] at h
      exact absurd h (Nat.not_lt_zero _)
  | fuel + 1, c :: cs, hf, hp => by
      rw [replace]
      split
      · next hpre =>
          obtain ⟨t, ht⟩ := List.isPrefixOf_iff_prefix.mp hpre
          have hle := length_replace_le (Nat.le_of_lt h) fuel t
          rw [← ht, List.drop_left, List.length_append, List.length_append]
          omega
      · next hpre =>
          rw [List.infix_cons_iff, ← List.isPrefixOf_iff_prefix] at hp
          exact Nat.succ_lt_succ (length_replace_lt h (Nat.lt_of_succ_lt_succ hf)
            (hp.resolve_left hpre))

theorem count_replace {q : Char} (h : pat.count q = new.count q) :
    ∀ (fuel : Nat) (s : Str), (replace pat new fuel s).count q = s.count q
  | 0, _ => rfl
  | _ + 1, [] => rfl
  | fuel + 1, c :: cs => by
      rw [replace]
      split
      · next hpre =>
          obtain ⟨t, ht⟩ := List.isPrefixOf_iff_prefix.mp hpre
          rw [← ht, List.drop_left, List.count_append, List.count_append,
            count_replace h fuel t, h]
      · rw [List.count_cons, List.count_cons, count_replace h fuel cs]

end Replace

namespace Scalar

/-- A text with its backslashes escaped, but not its quotes. -/
def halfEscaped (s : Str) : Str := s.flatMap fun c => if c = '\\' then ['\\', c] else [c]

theorem halfEscaped_cons (c : Char) (cs : Str) :
    halfEscaped (c :: cs) = (if c = '\\' then ['\\', c] else [c]) ++ halfEscaped cs := rfl

theorem escaped_cons (c : Char) (cs : Str) :
    escaped (c :: cs) = (if c = '"' ∨ c = '\\' then ['\\', c] else [c]) ++ escaped cs := rfl

/-- An escaped text starts with no quote. -/
theorem head?_escaped (s : Str) : (escaped s).head? ≠ some '"' := by
  cases s with
  | nil => simp [escaped]
  | cons c cs =>
      rw [escaped_cons]
      split
      · simp
      · next h =>
          simp only [List.cons_append, List.head?_cons, ne_eq, Option.some.injEq]
          exact fun hc => h (.inl hc)

theorem replace_quote_escaped : ∀ {fuel : Nat} (s : Str), (escaped s).length < fuel →
    replace "\\\"".toList "\"".toList fuel (escaped s) = halfEscaped s
  | 0, _, h => absurd h (Nat.not_lt_zero _)
  | _ + 1, [], _ => rfl
  | fuel + 1, c :: cs, h => by
      rw [escaped_cons] at h ⊢
      rw [halfEscaped_cons]
      by_cases hq : c = '"'
      · subst hq
        rw [if_pos (.inl rfl)] at h ⊢
        have ih := @replace_quote_escaped fuel cs (by simp at h; omega)
        show '"' :: replace _ _ fuel (escaped cs) = _
        rw [ih]
        rfl
      · by_cases hb : c = '\\'
        · subst hb
          rw [if_pos (.inr rfl)] at h ⊢
          cases fuel with
          | zero => simp at h
          | succ fuel =>
              have ih := @replace_quote_escaped fuel cs (by simp at h; omega)
              have hpre : ("\\\"".toList).isPrefixOf ('\\' :: escaped cs) = false := by
                cases he : escaped cs with
                | nil => rfl
                | cons d ds =>
                    have hd : d ≠ '"' := fun hd => head?_escaped cs (by rw [he, hd]; rfl)
                    simp [List.isPrefixOf, hd.symm]
              show '\\' :: replace _ _ (fuel + 1) ('\\' :: escaped cs) = _
              rw [replace, hpre, if_neg Bool.false_ne_true, ih]
              rfl
        · rw [if_neg (by simp [hq, hb])] at h ⊢
          have ih := @replace_quote_escaped fuel cs (by simp at h; omega)
          show replace _ _ (fuel + 1) (c :: escaped cs) = _
          rw [replace, if_neg (by simp [List.isPrefixOf, Ne.symm hb]), ih, if_neg hb]
          rfl

theorem replace_backslash_halfEscaped : ∀ {fuel : Nat} (s : Str), (halfEscaped s).length < fuel →
    replace "\\\\".toList "\\".toList fuel (halfEscaped s) = s
  | 0, _, h => absurd h (Nat.not_lt_zero _)
  | _ + 1, [], _ => rfl
  | fuel + 1, c :: cs, h => by
      rw [halfEscaped_cons] at h ⊢
      by_cases hb : c = '\\'
      · subst hb
        rw [if_pos rfl] at h ⊢
        have ih := @replace_backslash_halfEscaped fuel cs (by simp at h; omega)
        show '\\' :: replace _ _ fuel (halfEscaped cs) = _
        rw [ih]
      · rw [if_neg hb] at h ⊢
        have ih := @replace_backslash_halfEscaped fuel cs (by simp at h; omega)
        show replace _ _ (fuel + 1) (c :: halfEscaped cs) = _
        rw [replace, if_neg (by simp [List.isPrefixOf, Ne.symm hb]), ih]

theorem doubled_of_not_mem : ∀ {s : Str}, '\'' ∉ s → doubled s = s
  | [], _ => rfl
  | c :: cs, h => by
      rw [List.mem_cons, not_or] at h
      show (if c = '\'' then _ else _) ++ doubled cs = _
      rw [if_neg (Ne.symm h.1), doubled_of_not_mem h.2]
      rfl

theorem count_doubled : ∀ s : Str, (doubled s).count '\'' = 2 * s.count '\''
  | [] => rfl
  | c :: cs => by
      show ((if c = '\'' then _ else _) ++ doubled cs).count '\'' = _
      rw [List.count_append, count_doubled cs, List.count_cons]
      split
      · next h =>
          subst h
          simp
          omega
      · next h => simp [h]

/-- The text between quotes. -/
theorem unquote_quoted {q : Char} (hq : q = '"' ∨ q = '\'') (s : Str) :
    unquote (q :: (s ++ [q])) =
      .ok (replaceAll "\\\\".toList "\\".toList (replaceAll "\\\"".toList "\"".toList s)) := by
  have hq1 := utf8Size_quote hq
  have hend : endsWith q (q :: (s ++ [q])) := by
    rw [← List.cons_append, endsWith, List.getLast?_concat]
    exact decide_eq_true rfl
  have hlen : 2 ≤ byteLen (q :: (s ++ [q])) := by
    rw [byteLen, byteLen_append, byteLen, byteLen, hq1]
    omega
  have hquotes : (startsWith '"' (q :: (s ++ [q])) ∧ endsWith '"' (q :: (s ++ [q]))) ∨
      (startsWith '\'' (q :: (s ++ [q])) ∧ endsWith '\'' (q :: (s ++ [q]))) := by
    rcases hq with rfl | rfl
    · exact .inl ⟨rfl, hend⟩
    · exact .inr ⟨rfl, hend⟩
  obtain ⟨t, ht, hto⟩ := sliceTo_last hend hq1
  have ht' : t = q :: s := List.append_cancel_right ((List.cons_append ▸ ht).symm)
  subst ht'
  have hfrom := sliceFrom_append [q] s
  rw [byteLen, byteLen, hq1] at hfrom
  rw [unquote, if_pos ⟨hlen, hquotes⟩, hto]
  show (sliceFrom ([q] ++ s) 1 >>= _) = _
  rw [hfrom]
  rfl

theorem unquote_written {w : Scalar} (h : w.Ok) : unquote w.written = .ok w.read := by
  cases w with
  | plain s =>
      have hq (q : Char) (hq : q ∈ indicators) : startsWith q s = false := by
        refine decide_eq_false fun hs => ?_
        exact Plain.indicator h q (by rw [hs]; rfl) hq
      show unquote s = .ok s
      rw [unquote, hq '"' (by decide), hq '\'' (by decide), if_neg (by simp)]
  | single s => exact unquote_quoted (.inr rfl) (doubled s)
  | double s =>
      rw [written, unquote_quoted (.inl rfl), replaceAll, replaceAll,
        replace_quote_escaped s (Nat.lt_succ_self _), replace_backslash_halfEscaped s (Nat.lt_succ_self _)]
      rfl

/-- Exactly the readable scalars are read as what they stand for. -/
theorem readable_iff {w : Scalar} (h : w.Ok) : w.Readable ↔ w.read = w.text ∧ w.text ≠ [] := by
  cases w with
  | plain s => exact iff_of_true trivial ⟨rfl, Plain.nonempty h⟩
  | double s => exact ⟨fun hs => ⟨rfl, hs⟩, fun hs => hs.2⟩
  | single s =>
      show _ ↔ replaceAll _ _ (replaceAll _ _ (doubled s)) = s ∧ s ≠ []
      by_cases hq : '\'' ∈ s
      · have hread : replaceAll "\\\\".toList "\\".toList (replaceAll "\\\"".toList "\"".toList (doubled s)) ≠ s := by
          intro heq
          have hcount := congrArg (List.count '\'') heq
          rw [replaceAll, count_replace (by decide), replaceAll, count_replace (by decide),
            count_doubled] at hcount
          have := List.count_pos_iff.mpr hq
          omega
        exact iff_of_false (fun hr => hr.2.1 hq) fun hr => hread hr.1
      · rw [doubled_of_not_mem hq]
        by_cases h1 : "\\\"".toList <:+: s
        · refine iff_of_false (fun hr => hr.2.2.1 h1) fun hr => ?_
          have hlt := @length_replace_lt "\\\"".toList "\"".toList (by decide) (s.length + 1) s
            (Nat.lt_succ_self _) h1
          have hle := @length_replace_le "\\\\".toList "\\".toList (by decide)
            ((replaceAll "\\\"".toList "\"".toList s).length + 1) (replaceAll "\\\"".toList "\"".toList s)
          have heq := congrArg List.length hr.1
          rw [replaceAll] at heq
          rw [show (replaceAll "\\\"".toList "\"".toList s) = replace _ _ (s.length + 1) s from rfl]
            at hle heq
          omega
        · rw [show replaceAll "\\\"".toList "\"".toList s = s from replace_of_not_infix _ h1]
          by_cases h2 : "\\\\".toList <:+: s
          · refine iff_of_false (fun hr => hr.2.2.2 h2) fun hr => ?_
            have hlt := @length_replace_lt "\\\\".toList "\\".toList (by decide) (s.length + 1) s
              (Nat.lt_succ_self _) h2
            rw [show replace _ _ (s.length + 1) s = s from hr.1] at hlt
            exact absurd hlt (Nat.lt_irrefl _)
          · rw [show replaceAll "\\\\".toList "\\".toList s = s from replace_of_not_infix _ h2]
            exact ⟨fun hr => ⟨rfl, hr.1⟩, fun hr => ⟨hr.2, hq, h1, h2⟩⟩

end Scalar

/-! ## Lines -/

theorem trim_eq_self {s : Str} (h : Tight s) : trim s = s := trim_of_ends h.first h.last

theorem dropWhile_spaces (n : Nat) (s : Str) :
    (spaces n ++ s).dropWhile isWhiteSpace = s.dropWhile isWhiteSpace :=
  List.dropWhile_append_of_pos fun c hc => by
    rw [List.eq_of_mem_replicate hc]
    rfl

theorem trim_spaces (n : Nat) {s : Str} (h : Tight s) : trim (spaces n ++ s) = s := by
  rw [trim, dropWhile_spaces]
  exact trim_eq_self h

theorem trimStart_spaces (n : Nat) {c : Char} {cs : Str} (h : Tight (c :: cs)) :
    trimStart (spaces n ++ c :: cs) = c :: cs := by
  rw [trimStart, dropWhile_spaces, List.dropWhile_cons_of_neg]
  rw [h.first c rfl]
  exact Bool.false_ne_true

theorem indentOf_spaces (n : Nat) {c : Char} {cs : Str} (h : Tight (c :: cs)) :
    indentOf (spaces n ++ c :: cs) = n := by
  have hc : c ≠ ' ' := by
    rintro rfl
    cases h.first ' ' rfl
  rw [indentOf, List.takeWhile_append_of_pos (by simp [spaces]), List.takeWhile_cons_of_neg (by simpa using hc),
    List.append_nil, spaces, List.length_replicate]

theorem isComment_spaces (n : Nat) {c : Char} {cs : Str} (h : Tight (c :: cs)) (hc : c ≠ '#') :
    isComment (spaces n ++ c :: cs) = false := by
  rw [isComment, trim_spaces n h, trimStart_spaces n h]
  simp [startsWith, hc]

theorem endsSection_spaces {n : Nat} {c : Char} {cs : Str} (h : Tight (c :: cs))
    (hc : 0 < n ∨ c = '-') : endsSection (spaces n ++ c :: cs) = false := by
  rw [endsSection, trimStart_spaces n h]
  rcases hc with hn | rfl
  · obtain ⟨m, rfl⟩ : ∃ m, n = m + 1 := ⟨n - 1, by omega⟩
    simp [startsWith, spaces, List.replicate_succ]
  · simp [startsWith]

/-- Two tight texts with something between them are tight. -/
theorem Tight.append {s t : Str} (hs : Tight s) (ht : Tight t) (hs' : s ≠ []) (ht' : t ≠ [])
    (u : Str) : Tight (s ++ (u ++ t)) where
  first c hc := by
    rw [List.head?_append_of_ne_nil _ hs'] at hc
    exact hs.first c hc
  last c hc := by
    rw [← List.append_assoc, List.getLast?_append_of_ne_nil _ ht'] at hc
    exact ht.last c hc

theorem tight_singleton {c : Char} (h : isWhiteSpace c = false) : Tight [c] where
  first d hd := by
    cases Option.mem_some.mp hd
    exact h
  last d hd := by
    cases Option.mem_some.mp hd
    exact h

theorem Scalar.written_ne_nil {w : Scalar} (h : w.Ok) : w.written ≠ [] := by
  cases w with
  | plain s => exact Plain.nonempty h
  | single s => exact List.cons_ne_nil _ _
  | double s => exact List.cons_ne_nil _ _

theorem Scalar.tight_written {w : Scalar} (h : w.Ok) : Tight w.written := by
  cases w with
  | plain s => exact Plain.tight h
  | single s =>
      exact (tight_singleton rfl).append (tight_singleton rfl) (List.cons_ne_nil _ _)
        (List.cons_ne_nil _ _) (doubled s)
  | double s =>
      exact (tight_singleton rfl).append (tight_singleton rfl) (List.cons_ne_nil _ _)
        (List.cons_ne_nil _ _) (escaped s)

/-- The value of a line can be written. -/
def Value.LineOk : Value → Prop
  | .scalar w => w.Ok
  | .mapping .. | .sequence .. => True

theorem Value.Ok.line {v : Value} (h : v.Ok) : v.LineOk := by
  cases v with
  | scalar w => exact h
  | mapping extra es => trivial
  | sequence extra items => trivial

/-- What follows the colon of a line. -/
def afterColon : Value → Str
  | .scalar w => ' ' :: w.written
  | .mapping .. | .sequence .. => []

theorem pairText_eq (key : Str) (v : Value) : pairText key v = key ++ ':' :: afterColon v := by
  cases v <;> rfl

theorem tight_pairText {key : Str} {v : Value} (hk : Key key) (hv : v.LineOk) :
    Tight (pairText key v) := by
  cases v with
  | scalar w =>
      exact hk.tight.append (Scalar.tight_written hv) hk.nonempty (Scalar.written_ne_nil hv)
        [':', ' ']
  | mapping extra es =>
      exact hk.tight.append (tight_singleton rfl) hk.nonempty (List.cons_ne_nil _ _) []
  | sequence extra items =>
      exact hk.tight.append (tight_singleton rfl) hk.nonempty (List.cons_ne_nil _ _) []

/-- The line of a pair starts with the first character of its key. -/
theorem pairText_cons {key : Str} (hk : Key key) (v : Value) :
    ∃ c cs, pairText key v = c :: cs ∧ c ∉ '-' :: '?' :: indicators := by
  rw [pairText_eq]
  cases key with
  | nil => exact absurd rfl hk.nonempty
  | cons c cs => exact ⟨c, _, rfl, hk.indicator c rfl⟩

theorem tight_itemText {w : Scalar} (h : w.Ok) : Tight (itemText w) :=
  (tight_singleton rfl).append (Scalar.tight_written h) (List.cons_ne_nil _ _)
    (Scalar.written_ne_nil h) [' ']

/-! ## Items -/

/-- The line starts an entry. -/
def isItem (raw : Str) : Bool := (stripPrefix "- ".toList (trim raw)).isSome

/-- The line is read as a part of the section. -/
def Inside (raw : Str) : Prop := isComment raw = false ∧ endsSection raw = false

/-- The entries of a section, with the one being read. -/
def entries (st : Section) : Nat := st.result.length + st.current.toList.length

theorem entries_readLine {st st' : Section} {raw : Str} (h : readLine st raw = .ok st') :
    entries st' = entries st + if isItem raw then 1 else 0 := by
  rw [readLine] at h
  rw [isItem]
  cases hs : stripPrefix "- ".toList (trim raw) with
  | none =>
      rw [hs] at h
      obtain ⟨result, current, nest⟩ := st
      cases current with
      | none =>
          cases h
          rfl
      | some map =>
          replace h : (applyPair map nest (indentOf raw) (trim raw) >>= fun r =>
            pure { result, current := some r.1, nest := r.2 }) = Except.ok st' := h
          cases hp : applyPair map nest (indentOf raw) (trim raw) with
          | error e =>
              rw [hp] at h
              cases h
          | ok r =>
              rw [hp] at h
              cases h
              rfl
  | some rest =>
      rw [hs] at h
      replace h : (if (trim rest).isEmpty then
          pure { result := st.result ++ st.current.toList, current := some ∅ }
        else if startsWith '{' (trim rest) then applyFlowMap ∅ (trim rest) >>= fun map =>
          pure { result := st.result ++ st.current.toList, current := some map }
        else applyPair ∅ [] (indentOf raw + 2) (trim rest) >>= fun r =>
          pure { result := st.result ++ st.current.toList, current := some r.1, nest := r.2 }) =
        Except.ok st' := h
      have hcount (map : YamlMap) (nest : Nest) : entries
          { result := st.result ++ st.current.toList, current := some map, nest } = entries st + 1 := by
        simp [entries]
      split at h
      · cases h
        exact hcount ∅ []
      · split at h
        · cases hm : applyFlowMap ∅ (trim rest) with
          | error e =>
              rw [hm] at h
              cases h
          | ok map =>
              rw [hm] at h
              cases h
              exact hcount map []
        · cases hp : applyPair ∅ [] (indentOf raw + 2) (trim rest) with
          | error e =>
              rw [hp] at h
              cases h
          | ok r =>
              rw [hp] at h
              cases h
              exact hcount r.1 r.2

theorem readLines_cons {raw : Str} (h : Inside raw) (lines : List Str) (st : Section) :
    readLines (raw :: lines) st = readLine st raw >>= readLines lines := by
  rw [readLines, h.1, h.2, if_neg Bool.false_ne_true, if_neg Bool.false_ne_true]

/-- The reader counts the lines that look like items. -/
theorem entries_readLines : ∀ {lines : List Str} {st st' : Section}, (∀ raw ∈ lines, Inside raw) →
    readLines lines st = .ok st' → entries st' = entries st + (lines.filter isItem).length
  | [], st, st', _, h => by
      cases h
      rfl
  | raw :: lines, st, st', hin, h => by
      rw [readLines_cons (hin raw List.mem_cons_self)] at h
      cases hr : readLine st raw with
      | error e =>
          rw [hr] at h
          cases h
      | ok mid =>
          rw [hr] at h
          have ih := entries_readLines (fun r hr => hin r (List.mem_cons_of_mem _ hr)) h
          rw [ih, entries_readLine hr, List.filter_cons]
          split
          · rw [List.length_cons, Nat.add_assoc, Nat.add_comm 1]
          · rfl

/-! ### The lines of a document -/

theorem isItem_pair {key : Str} {v : Value} (hk : Key key) (hv : v.LineOk) (n : Nat) :
    stripPrefix "- ".toList (trim (spaces n ++ pairText key v)) = none := by
  rw [trim_spaces n (tight_pairText hk hv)]
  obtain ⟨c, cs, hcs, hc⟩ := pairText_cons hk v
  rw [hcs, stripPrefix, if_neg]
  intro hpre
  have hdash : '-' = c := by
    have := List.isPrefixOf_iff_prefix.mp hpre
    exact (List.cons_prefix_cons.mp this).1
  exact hc (hdash ▸ by decide)

theorem inside_pair {key : Str} {v : Value} (hk : Key key) (hv : v.LineOk) {n : Nat} (hn : 0 < n) :
    Inside (spaces n ++ pairText key v) := by
  have ht := tight_pairText hk hv
  obtain ⟨c, cs, hcs, hc⟩ := pairText_cons hk v
  rw [hcs] at ht ⊢
  exact ⟨isComment_spaces n ht fun h => hc (h ▸ by decide), endsSection_spaces ht (.inl hn)⟩

theorem stripPrefix_dash {t : Str} (h : Tight ('-' :: ' ' :: t)) (n : Nat) :
    stripPrefix "- ".toList (trim (spaces n ++ '-' :: ' ' :: t)) = some t := by
  rw [trim_spaces n h]
  rfl

theorem inside_dash {t : Str} (h : Tight ('-' :: ' ' :: t)) (n : Nat) :
    Inside (spaces n ++ '-' :: ' ' :: t) :=
  ⟨isComment_spaces n h (by decide), endsSection_spaces h (.inr rfl)⟩

mutual

theorem Value.lines_inside : ∀ {v : Value}, v.Ok → ∀ {col : Nat}, 0 < col →
    (∀ raw ∈ v.lines col, Inside raw) ∧ ((v.lines col).filter isItem).length = v.items.length
  | .scalar _, _, _, _ => ⟨fun _ h => absurd h List.not_mem_nil, rfl⟩
  | .mapping extra es, h, col, hc => Entries.lines_inside h (by omega)
  | .sequence extra items, h, col, _ => by
      refine ⟨fun raw hraw => ?_, ?_⟩
      · obtain ⟨w, hw, rfl⟩ := List.mem_map.mp hraw
        exact inside_dash (tight_itemText (h w hw)) _
      · have hall : ∀ raw ∈ (Value.sequence extra items).lines col, isItem raw := by
          intro raw hraw
          obtain ⟨w, hw, rfl⟩ := List.mem_map.mp hraw
          rw [isItem, itemText, stripPrefix_dash (tight_itemText (h w hw))]
          rfl
        rw [List.filter_eq_self.mpr hall]
        exact List.length_map _

theorem Entries.lines_inside : ∀ {es : Entries}, es.Ok → ∀ {col : Nat}, 0 < col →
    (∀ raw ∈ es.lines col, Inside raw) ∧ ((es.lines col).filter isItem).length = es.items.length
  | .nil, _, _, _ => ⟨fun _ h => absurd h List.not_mem_nil, rfl⟩
  | .cons key v es, ⟨hk, hv, hes⟩, col, hc => by
      obtain ⟨hvin, hvlen⟩ := Value.lines_inside hv hc
      obtain ⟨hesin, heslen⟩ := Entries.lines_inside hes hc
      constructor
      · rintro raw (_ | ⟨_, hraw⟩)
        · exact inside_pair hk hv.line hc
        · rcases List.mem_append.mp hraw with h | h
          · exact hvin raw h
          · exact hesin raw h
      · have hpair : isItem (spaces col ++ pairText key v) = false := by
          rw [isItem, isItem_pair hk hv.line]
          rfl
        rw [Entries.lines, List.filter_cons_of_neg (by rw [hpair]; exact Bool.false_ne_true),
          List.filter_append, List.length_append, hvlen, heslen, Entries.items, List.length_append]

end

theorem tight_dash {key : Str} {v : Value} (hk : Key key) (hv : v.LineOk) :
    Tight ('-' :: ' ' :: pairText key v) := by
  obtain ⟨c, cs, hcs, _⟩ := pairText_cons hk v
  exact (tight_singleton rfl).append (tight_pairText hk hv) (List.cons_ne_nil _ _)
    (by rw [hcs]; exact List.cons_ne_nil _ _) [' ']

theorem Proxy.lines_inside {p : Proxy} (h : p.all.Ok) (indent : Nat) :
    (∀ raw ∈ p.lines indent, Inside raw) ∧
      ((p.lines indent).filter isItem).length = p.items.length + 1 := by
  obtain ⟨hk, hv, hes⟩ := h
  obtain ⟨hvin, hvlen⟩ := Value.lines_inside hv (show 0 < indent + 2 by omega)
  obtain ⟨hesin, heslen⟩ := Entries.lines_inside hes (show 0 < indent + 2 by omega)
  have hdash := tight_dash hk hv.line
  constructor
  · rintro raw (_ | ⟨_, hraw⟩)
    · exact inside_dash hdash indent
    · rcases List.mem_append.mp hraw with h | h
      · exact hvin raw h
      · exact hesin raw h
  · have hitem : isItem (spaces indent ++ '-' :: ' ' :: pairText p.key p.value) = true := by
      rw [isItem, stripPrefix_dash hdash]
      rfl
    rw [Proxy.lines, List.filter_cons_of_pos hitem, List.length_cons, List.filter_append,
      List.length_append, hvlen, heslen, Proxy.items, Proxy.all, Entries.items, List.length_append]

theorem sectionLines_render (indent : Nat) (ps : List Proxy) :
    sectionLines (render indent ps) = ps.flatMap (Proxy.lines indent) := by
  rw [sectionLines, render, List.dropWhile_cons_of_neg (by decide)]
  rfl

/-- Every item of an inner sequence is returned as an entry. -/
theorem length_parse {indent : Nat} {ps : List Proxy} {maps : List YamlMap}
    (hok : ∀ p ∈ ps, Proxy.Ok p) (h : parseProxiesSection (render indent ps) = .ok maps) :
    maps.length = ps.length + (ps.flatMap Proxy.items).length := by
  rw [parseProxiesSection, sectionLines_render] at h
  have hlines : (∀ raw ∈ ps.flatMap (Proxy.lines indent), Inside raw) ∧
      ((ps.flatMap (Proxy.lines indent)).filter isItem).length =
        ps.length + (ps.flatMap Proxy.items).length := by
    clear h
    induction ps with
    | nil => exact ⟨fun _ h => absurd h List.not_mem_nil, rfl⟩
    | cons p ps ih =>
        obtain ⟨hin, hlen⟩ := ih fun q hq => hok q (List.mem_cons_of_mem _ hq)
        obtain ⟨hpin, hplen⟩ := Proxy.lines_inside (hok p List.mem_cons_self).all indent
        constructor
        · intro raw hraw
          rw [List.flatMap_cons] at hraw
          rcases List.mem_append.mp hraw with h | h
          · exact hpin raw h
          · exact hin raw h
        · rw [List.flatMap_cons, List.filter_append, List.length_append, hplen, hlen,
            List.flatMap_cons, List.length_append, List.length_cons]
          omega
  cases hr : readLines (ps.flatMap (Proxy.lines indent)) {} with
  | error e =>
      rw [hr] at h
      cases h
  | ok st =>
      rw [hr] at h
      cases h
      have := entries_readLines hlines.1 hr
      rw [hlines.2] at this
      rw [List.length_append]
      simpa [entries] using this

/-! ## Pairs -/

/-- What precedes a key under the pairs in `nest`. -/
def above : Nest → Str
  | [] => []
  | (_, path) :: _ => path ++ ['.']

/-- The text that the reader finds after the key. -/
def Value.read : Value → Str
  | .scalar w => w.read
  | .mapping .. | .sequence .. => []

theorem find_colon : ∀ {key : Str}, ':' ∉ key → ∀ s : Str,
    find ':' (key ++ ':' :: s) = some (byteLen key)
  | [], _, _ => rfl
  | c :: cs, h, s => by
      rw [List.mem_cons, not_or] at h
      rw [List.cons_append, find, if_neg (Ne.symm h.1), find_colon h.2]
      rfl

theorem unquote_afterColon {v : Value} (hv : v.LineOk) :
    unquote (trim (afterColon v)) = .ok v.read := by
  cases v with
  | scalar w =>
      have : trim (afterColon (.scalar w)) = w.written :=
        trim_spaces 1 (Scalar.tight_written hv)
      rw [this]
      exact Scalar.unquote_written hv
  | mapping extra es => rfl
  | sequence extra items => rfl

/-- A pair without a text encloses the lines to its right, one with a text is put at its key. -/
theorem applyPair_pairText {key : Str} {v : Value} (hk : Key key) (hv : v.LineOk) (map : YamlMap)
    (nest : Nest) (col : Nat) : applyPair map nest col (pairText key v) =
      .ok (if v.read.isEmpty then
          (map, (col, above (nest.dropWhile (col ≤ ·.1)) ++ key) :: nest.dropWhile (col ≤ ·.1))
        else (map.insert (above (nest.dropWhile (col ≤ ·.1)) ++ key) v.read,
          nest.dropWhile (col ≤ ·.1))) := by
  have hkey := sliceTo_append key (':' :: afterColon v)
  have hval : sliceFrom (key ++ ':' :: afterColon v) (byteLen key + 1) = .ok (afterColon v) := by
    have h := sliceFrom_append (key ++ [':']) (afterColon v)
    rwa [List.append_assoc, byteLen_append] at h
  rw [applyPair, pairText_eq, find_colon hk.noColon]
  show (sliceTo _ _ >>= _) = _
  rw [hkey]
  show (sliceFrom _ _ >>= _) = _
  rw [hval]
  show (unquote _ >>= _) = _
  rw [unquote_afterColon hv, trim_eq_self hk.tight]
  generalize nest.dropWhile (fun e => decide (col ≤ e.1)) = base
  cases base with
  | nil =>
      show (if v.read.isEmpty then _ else _) = _
      split <;> rfl
  | cons e base =>
      show (if v.read.isEmpty then _ else _) = _
      rw [above, List.append_assoc]
      split <;> rfl

/-! ## Mappings -/

/-- The scalars that have a text, put into a map. -/
def insertLeaves (map : YamlMap) (leaves : List (Str × Scalar)) : YamlMap :=
  leaves.foldl (fun map l => if l.2.read.isEmpty then map else map.insert l.1 l.2.read) map

theorem insertLeaves_append (map : YamlMap) (ls ls' : List (Str × Scalar)) :
    insertLeaves map (ls ++ ls') = insertLeaves (insertLeaves map ls) ls' := List.foldl_append

theorem insertLeaves_singleton (map : YamlMap) (path : Str) (w : Scalar) :
    insertLeaves map [(path, w)] = if w.read.isEmpty then map else map.insert path w.read := rfl

theorem dropWhile_dropWhile {nest : Nest} {m n : Nat} (h : m ≤ n) :
    (nest.dropWhile (n ≤ ·.1)).dropWhile (m ≤ ·.1) = nest.dropWhile (m ≤ ·.1) := by
  induction nest with
  | nil => rfl
  | cons e nest ih =>
      rw [List.dropWhile_cons]
      split
      · next he =>
          rw [ih, List.dropWhile_cons_of_pos]
          exact decide_eq_true (Nat.le_trans h (of_decide_eq_true he))
      · rfl

/-- The state of the reader within an entry. -/
def within (result : List YamlMap) (map : YamlMap) (nest : Nest) : Section :=
  { result, current := some map, nest }

theorem readLines_pair {key : Str} {v : Value} (hk : Key key) (hv : v.LineOk) {col : Nat}
    (hc : 0 < col) (result : List YamlMap) (map : YamlMap) (nest : Nest) (lines : List Str) :
    readLines ((spaces col ++ pairText key v) :: lines) (within result map nest) =
      applyPair map nest col (pairText key v) >>= fun r => readLines lines (within result r.1 r.2) := by
  have ht := tight_pairText hk hv
  have hindent : indentOf (spaces col ++ pairText key v) = col := by
    obtain ⟨c, cs, hcs, _⟩ := pairText_cons hk v
    rw [hcs] at ht ⊢
    exact indentOf_spaces col ht
  rw [readLines_cons (inside_pair hk hv hc), readLine, isItem_pair hk hv, hindent, trim_spaces col ht]
  show (applyPair map nest col (pairText key v) >>= fun r => _) >>= _ = _
  rw [bind_assoc]
  rfl

/-- What the pair of a key leaves behind encloses nothing in the key's column. -/
theorem dropWhile_pair (nest : Nest) (col : Nat) (path : Str) :
    ((col, path) :: nest.dropWhile (col ≤ ·.1)).dropWhile (col ≤ ·.1) =
      nest.dropWhile (col ≤ ·.1) := by
  rw [List.dropWhile_cons_of_pos]
  · exact dropWhile_dropWhile (Nat.le_refl col)
  · exact decide_eq_true (Nat.le_refl col)

mutual

/-- The pair of a key and the lines under it. -/
theorem readLines_value : ∀ {v : Value}, v.Ok → v.items = [] → ∀ {key : Str}, Key key →
    ∀ {col : Nat}, 0 < col → ∀ (result : List YamlMap) (map : YamlMap) (nest : Nest)
    (lines : List Str), ∃ nest', nest'.dropWhile (col ≤ ·.1) = nest.dropWhile (col ≤ ·.1) ∧
      (applyPair map nest col (pairText key v) >>= fun r =>
        readLines (v.lines col ++ lines) (within result r.1 r.2)) =
      readLines lines (within result
        (insertLeaves map (v.leaves (above (nest.dropWhile (col ≤ ·.1)) ++ key))) nest')
  | .scalar w, hv, _, key, hk, col, hc, result, map, nest, lines => by
      rw [applyPair_pairText hk (Value.Ok.line hv), Value.leaves, insertLeaves_singleton]
      cases hw : Value.read (.scalar w) with
      | nil => exact ⟨_, dropWhile_pair nest col _, by rw [show w.read = [] from hw]; rfl⟩
      | cons c cs =>
          exact ⟨_, dropWhile_dropWhile (Nat.le_refl col), by rw [show w.read = c :: cs from hw]; rfl⟩
  | .mapping extra es, hv, hi, key, hk, col, hc, result, map, nest, lines => by
      obtain ⟨nest', hnest, hread⟩ := readLines_entries (show es.Ok from hv) hi
        (show 0 < col + 1 + extra by omega) result map
        ((col, above (nest.dropWhile (col ≤ ·.1)) ++ key) :: nest.dropWhile (col ≤ ·.1)) lines
      rw [List.dropWhile_cons_of_neg (by simp; omega)] at hnest hread
      refine ⟨nest', ?_, ?_⟩
      · rw [← dropWhile_dropWhile (n := col + 1 + extra) (by omega), hnest, dropWhile_pair]
      · rw [applyPair_pairText (v := .mapping extra es) hk trivial]
        exact hread
  | .sequence extra items, hv, hi, key, hk, col, hc, result, map, nest, lines => by
      cases (hi : items = [])
      rw [applyPair_pairText (v := .sequence extra []) hk trivial]
      exact ⟨_, dropWhile_pair nest col _, rfl⟩

/-- The lines of a mapping. -/
theorem readLines_entries : ∀ {es : Entries}, es.Ok → es.items = [] → ∀ {col : Nat}, 0 < col →
    ∀ (result : List YamlMap) (map : YamlMap) (nest : Nest) (lines : List Str),
    ∃ nest', nest'.dropWhile (col ≤ ·.1) = nest.dropWhile (col ≤ ·.1) ∧
      readLines (es.lines col ++ lines) (within result map nest) = readLines lines (within result
        (insertLeaves map (es.leaves (above (nest.dropWhile (col ≤ ·.1))))) nest')
  | .nil, _, _, col, _, result, map, nest, lines => ⟨nest, rfl, rfl⟩
  | .cons key v es, ⟨hk, hv, hes⟩, hi, col, hc, result, map, nest, lines => by
      obtain ⟨hvi, hesi⟩ := List.append_eq_nil_iff.mp hi
      obtain ⟨mid, hmid, hvread⟩ := readLines_value hv hvi hk hc result map nest
        (es.lines col ++ lines)
      obtain ⟨nest', hnest, hread⟩ := readLines_entries hes hesi hc result
        (insertLeaves map (v.leaves (above (nest.dropWhile (col ≤ ·.1)) ++ key))) mid lines
      rw [hmid] at hnest hread
      refine ⟨nest', hnest, ?_⟩
      rw [Entries.lines, List.cons_append, List.append_assoc, readLines_pair hk hv.line hc, hvread,
        hread, Entries.leaves, insertLeaves_append]

end

/-- The lines of a proxy: the entry before it is done, and its own is complete at the end. -/
theorem readLines_proxy {p : Proxy} (hok : p.all.Ok) (hi : p.items = []) (indent : Nat)
    (st : Section) (lines : List Str) : ∃ nest,
      readLines (p.lines indent ++ lines) st = readLines lines
        (within (st.result ++ st.current.toList) (insertLeaves ∅ p.leaves) nest) := by
  obtain ⟨hk, hv, hes⟩ := hok
  obtain ⟨hvi, hesi⟩ := List.append_eq_nil_iff.mp hi
  obtain ⟨mid, hmid, hvread⟩ := readLines_value hv hvi hk (show 0 < indent + 2 by omega)
    (st.result ++ st.current.toList) ∅ [] (p.entries.lines (indent + 2) ++ lines)
  obtain ⟨nest, _, hread⟩ := readLines_entries hes hesi (show 0 < indent + 2 by omega)
    (st.result ++ st.current.toList) (insertLeaves ∅ (p.value.leaves p.key)) mid lines
  have hdash := tight_dash hk hv.line
  have ht := tight_pairText hk hv.line
  obtain ⟨c, cs, hcs, hc⟩ := pairText_cons hk p.value
  have hne : (pairText p.key p.value).isEmpty = false := by rw [hcs]; rfl
  have hbrace : startsWith '{' (pairText p.key p.value) = false := by
    rw [hcs]
    exact decide_eq_false fun h => hc (Option.some.inj h ▸ by decide)
  have hfirst : readLine st (spaces indent ++ '-' :: ' ' :: pairText p.key p.value) =
      applyPair ∅ [] (indent + 2) (pairText p.key p.value) >>= fun r =>
        .ok (within (st.result ++ st.current.toList) r.1 r.2) := by
    rw [readLine, stripPrefix_dash hdash]
    show (if (trim (pairText p.key p.value)).isEmpty then _ else
      if startsWith '{' (trim (pairText p.key p.value)) then _ else _) = _
    rw [trim_eq_self ht, hne, hbrace, if_neg Bool.false_ne_true, if_neg Bool.false_ne_true,
      indentOf_spaces indent hdash]
    rfl
  refine ⟨nest, ?_⟩
  rw [hmid] at hread
  rw [Proxy.lines, List.cons_append, List.append_assoc, readLines_cons (inside_dash hdash indent),
    hfirst, bind_assoc]
  refine Eq.trans hvread (Eq.trans hread ?_)
  rw [Proxy.leaves, Proxy.all, Entries.leaves, insertLeaves_append]
  rfl

/-- The section without items of inner sequences. -/
theorem parse_render {ps : List Proxy} (hok : ∀ p ∈ ps, p.all.Ok) (hi : ∀ p ∈ ps, p.items = [])
    (indent : Nat) : parseProxiesSection (render indent ps) =
      .ok (ps.map fun p => insertLeaves ∅ p.leaves) := by
  have hrun : ∀ {qs : List Proxy}, (∀ p ∈ qs, p.all.Ok) → (∀ p ∈ qs, p.items = []) →
      ∀ st : Section, ∃ st', readLines (qs.flatMap (Proxy.lines indent)) st = .ok st' ∧
        st'.result ++ st'.current.toList =
          st.result ++ st.current.toList ++ qs.map fun p => insertLeaves ∅ p.leaves := by
    intro qs hok hi
    induction qs with
    | nil => exact fun st => ⟨st, rfl, (List.append_nil _).symm⟩
    | cons p qs ih =>
        intro st
        obtain ⟨nest, hp⟩ := readLines_proxy (hok p List.mem_cons_self) (hi p List.mem_cons_self)
          indent st (qs.flatMap (Proxy.lines indent))
        obtain ⟨st', hst', hres⟩ := ih (fun q hq => hok q (List.mem_cons_of_mem _ hq))
          (fun q hq => hi q (List.mem_cons_of_mem _ hq))
          (within (st.result ++ st.current.toList) (insertLeaves ∅ p.leaves) nest)
        refine ⟨st', by rw [List.flatMap_cons, hp, hst'], ?_⟩
        rw [hres, List.map_cons]
        show _ ++ [insertLeaves ∅ p.leaves] ++ _ = _
        rw [List.append_assoc]
        rfl
  obtain ⟨st, hst, hres⟩ := hrun hok hi {}
  rw [parseProxiesSection, sectionLines_render, hst]
  exact congrArg Except.ok hres

/-! ## Faithful documents -/

theorem lookup_insertLeaves_of_notMem {path : Str} : ∀ {ls : List (Str × Scalar)},
    path ∉ ls.map (·.1) → ∀ map : YamlMap, (insertLeaves map ls).lookup path = map.lookup path
  | [], _, _ => rfl
  | l :: ls, h, map => by
      rw [List.map_cons, List.mem_cons, not_or] at h
      show (insertLeaves (if l.2.read.isEmpty then map else map.insert l.1 l.2.read) ls).lookup path = _
      rw [lookup_insertLeaves_of_notMem h.2]
      split
      · rfl
      · rw [FinMap.lookup_insert_eq, if_neg h.1]

/-- With one scalar for each dotted key, each is found at its own. -/
theorem lookup_insertLeaves {l : Str × Scalar} : ∀ {ls : List (Str × Scalar)},
    (ls.map (·.1)).Nodup → l ∈ ls → ∀ map : YamlMap,
    (insertLeaves map ls).lookup l.1 = if l.2.read.isEmpty then map.lookup l.1 else some l.2.read
  | m :: ls, hnd, hl, map => by
      rw [List.map_cons, List.nodup_cons] at hnd
      show (insertLeaves (if m.2.read.isEmpty then map else map.insert m.1 m.2.read) ls).lookup l.1 = _
      rcases List.mem_cons.mp hl with rfl | hl'
      · rw [lookup_insertLeaves_of_notMem hnd.1]
        split
        · rfl
        · rw [FinMap.lookup_insert_eq, if_pos rfl]
      · have hne : l.1 ≠ m.1 := fun h => hnd.1 (h ▸ List.mem_map_of_mem hl')
        rw [lookup_insertLeaves hnd.2 hl']
        split
        · split
          · rfl
          · rw [FinMap.lookup_insert_eq, if_neg hne]
        · rfl

mutual

theorem Value.leaves_ok : ∀ {v : Value}, v.Ok → ∀ {path : Str}, ∀ leaf ∈ v.leaves path, leaf.2.Ok
  | .scalar w, h, path, leaf, hl => by
      cases List.mem_singleton.mp hl
      exact h
  | .mapping extra es, h, path, leaf, hl => Entries.leaves_ok (show es.Ok from h) leaf hl
  | .sequence extra items, _, path, leaf, hl => absurd hl List.not_mem_nil

theorem Entries.leaves_ok : ∀ {es : Entries}, es.Ok → ∀ {above : Str}, ∀ leaf ∈ es.leaves above,
    leaf.2.Ok
  | .nil, _, _, leaf, hl => absurd hl List.not_mem_nil
  | .cons key v es, ⟨_, hv, hes⟩, above, leaf, hl => by
      rcases List.mem_append.mp hl with h | h
      · exact Value.leaves_ok hv leaf h
      · exact Entries.leaves_ok hes leaf h

end

/-- A scalar is found as it was written exactly if it is readable. -/
theorem found_iff {p : Proxy} (hok : p.Ok) {leaf : Str × Scalar} (hl : leaf ∈ p.leaves) :
    (insertLeaves ∅ p.leaves).lookup leaf.1 = some leaf.2.text ↔ leaf.2.Readable := by
  rw [lookup_insertLeaves hok.distinct hl, Scalar.readable_iff (Entries.leaves_ok hok.all leaf hl)]
  split
  · next h =>
      rw [List.isEmpty_iff] at h
      refine iff_of_false (by simp) fun hr => hr.2 (hr.1 ▸ h)
  · next h =>
      rw [List.isEmpty_iff] at h
      constructor
      · intro hs
        have hs := Option.some.inj hs
        exact ⟨hs, hs ▸ h⟩
      · exact fun hr => congrArg some hr.1

/-- The section is read faithfully exactly if no value is a sequence with items, and every
scalar is readable. -/
theorem faithful_iff (indent : Nat) {ps : List Proxy} (hok : ∀ p ∈ ps, Proxy.Ok p) :
    Faithful indent ps ↔ ∀ p ∈ ps, p.items = [] ∧ ∀ leaf ∈ p.leaves, leaf.2.Readable := by
  constructor
  · rintro ⟨maps, hparse, hall⟩ p hp
    have hlen := length_parse hok hparse
    rw [← hall.length_eq] at hlen
    have hnil : ps.flatMap Proxy.items = [] := List.length_eq_zero_iff.mp (by omega)
    have hitems : ∀ q ∈ ps, q.items = [] := List.flatMap_eq_nil_iff.mp hnil
    rw [parse_render (fun q hq => (hok q hq).all) hitems] at hparse
    cases hparse
    rw [List.forall₂_map_right_iff, List.forall₂_same] at hall
    exact ⟨hitems p hp, fun leaf hl => (found_iff (hok p hp) hl).mp (hall p hp leaf hl)⟩
  · intro h
    refine ⟨_, parse_render (fun q hq => (hok q hq).all) (fun q hq => (h q hq).1) indent, ?_⟩
    rw [List.forall₂_map_right_iff, List.forall₂_same]
    exact fun p hp leaf hl => (found_iff (hok p hp) hl).mpr ((h p hp).2 leaf hl)

/-- A proxy whose third value is given. -/
def sample (value : Value) : Proxy where
  key := "name".toList
  value := .scalar (.plain "a".toList)
  entries := .cons "opts".toList value (.cons "server".toList (.scalar (.plain "h".toList)) .nil)

theorem sample_ok {value : Value} (h : value.Ok)
    (hd : ((sample value).leaves.map (·.1)).Nodup) : (sample value).Ok where
  all := ⟨show Key "name".toList by decide, show Plain "a".toList by decide,
    show Key "opts".toList by decide, h, show Key "server".toList by decide,
    show Plain "h".toList by decide, trivial⟩
  distinct := hd

/-- A mapping with a quoted text is read, and the key after it too. -/
theorem faithful_mapping : Faithful 2 [sample (.mapping 1 (.cons "Host".toList
    (.scalar (.double "x".toList)) .nil))] := by
  refine (faithful_iff 2 fun p hp => ?_).mpr fun p hp => ?_
  · cases List.mem_singleton.mp hp
    exact sample_ok ⟨by decide, trivial, trivial⟩ (by decide)
  · cases List.mem_singleton.mp hp
    refine ⟨rfl, fun leaf hl => ?_⟩
    rcases hl with _ | ⟨_, _ | ⟨_, _ | ⟨_, hl⟩⟩⟩
    · trivial
    · exact List.cons_ne_nil _ _
    · trivial
    · cases hl

/-- One item under a key makes two entries of one proxy. -/
theorem not_faithful : ¬ ∀ (indent : Nat) (ps : List Proxy), (∀ p ∈ ps, Proxy.Ok p) →
    Faithful indent ps := by
  intro h
  have hok : ∀ p ∈ [sample (.sequence 2 [.plain "h2".toList])], Proxy.Ok p := fun p hp => by
    cases List.mem_singleton.mp hp
    refine sample_ok (fun w hw => ?_) (by decide)
    cases List.mem_singleton.mp hw
    exact (by decide : Plain "h2".toList)
  obtain ⟨maps, hparse, hall⟩ := h 2 _ hok
  have htwo : (parseProxiesSection (render 2 [sample (.sequence 2 [.plain "h2".toList])])).map
      List.length = .ok 2 := by
    decide +kernel
  rw [hparse] at htwo
  have hlen := hall.length_eq
  rw [Except.ok.inj htwo] at hlen
  cases hlen

end Config.BlockYaml

end RustClash
