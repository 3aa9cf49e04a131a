import RustClash.Core.Rules
import RustClash.Core.Text

/-!
# The most specific record decides

`match_domain_uncached` looks the labels of a name up from the last on, with one label
more in each round, and the last record that applies wins.  A record applies to a suffix
of the labels if it stands for all names below the suffix or the suffix is the whole name
(`Applies`).  After the rounds of a suffix the walk holds what the longest such suffix in
it says (`walk_suffix`).
-/

namespace RustClash

open Str

namespace RuleDb

/-- The labels of a name; empty ones do not count. -/
def labelsOf (domain : Str) : List Str := (split (· = '.') domain).filter (!·.isEmpty)

/-- The key of a record for a suffix of the labels: the labels from the last on. -/
def key (suffix : List Str) : Str := join [sep] suffix.reverse

/-- The record of a non-empty suffix, for names below it or for the whole name alone. -/
structure Applies (records : RuleRecords) (labels suffix : List Str) (packed : UInt8) : Prop where
  nonempty : suffix ≠ []
  isSuffix : suffix <:+ labels
  record : records.lookup (key suffix) = some packed
  scope : packed &&& flagSuffix ≠ 0 ∨ suffix = labels

/-- No record that applies is for more labels. -/
def Decides (records : RuleRecords) (labels suffix : List Str) (packed : UInt8) : Prop :=
  Applies records labels suffix packed ∧
    ∀ suffix' packed', Applies records labels suffix' packed' → suffix'.length ≤ suffix.length

def actionOf (packed : UInt8) : Option RuleAction := RuleAction.fromU8 (packed &&& 0x7F)

variable {records : RuleRecords} {labels l : List Str} {label : Str}

theorem key_cons (hl : ∀ s ∈ l, s ≠ []) :
    key (label :: l) = if (key l).isEmpty then label else key l ++ sep :: label := by
  rw [key, List.reverse_cons, join_concat]
  cases l with
  | nil => rfl
  | cons s l =>
      have hs : s ≠ [] := hl s List.mem_cons_self
      have hkey : (key (s :: l)).isEmpty = false := by
        rw [key, List.reverse_cons, join_concat]
        split
        · simpa using hs
        · simp
      rw [hkey, if_neg (by simp), if_neg Bool.false_ne_true, List.append_assoc]
      rfl

/-- What the longest suffix of `l` with a record that applies to the name says. -/
structure Reached (records : RuleRecords) (labels l : List Str) (best : Option RuleAction) :
    Prop where
  decided : ∀ suffix packed, Applies records labels suffix packed → suffix <:+ l →
    (∀ suffix' packed', Applies records labels suffix' packed' → suffix' <:+ l →
      suffix'.length ≤ suffix.length) → best = actionOf packed
  undecided : (∀ suffix packed, Applies records labels suffix packed → ¬ suffix <:+ l) →
    best = none

/-- A record that applies decides over those for fewer labels. -/
theorem Reached.of_applies {packed : UInt8} (h : Applies records labels l packed) :
    Reached records labels l (actionOf packed) where
  decided suffix packed' happ hsuffix hmax := by
    obtain rfl := hsuffix.eq_of_length_le (hmax l packed h (List.suffix_refl l))
    cases happ.record.symm.trans h.record
    rfl
  undecided hnone := absurd (List.suffix_refl l) (hnone l packed h)

/-- Without such a record nothing changes. -/
theorem Reached.cons {best : Option RuleAction} (h : Reached records labels l best)
    (hnot : ∀ packed, ¬ Applies records labels (label :: l) packed) :
    Reached records labels (label :: l) best := by
  have hiff : ∀ {suffix packed}, Applies records labels suffix packed →
      (suffix <:+ label :: l ↔ suffix <:+ l) := by
    intro suffix packed happ
    refine ⟨fun hs => ?_, fun hs => hs.trans (List.suffix_cons label l)⟩
    rcases List.suffix_cons_iff.mp hs with rfl | hs
    · exact absurd happ (hnot packed)
    · exact hs
  refine ⟨fun suffix packed happ hs hmax => ?_, fun hnone => ?_⟩
  · exact h.decided suffix packed happ ((hiff happ).mp hs) fun s p hp hsl =>
      hmax s p hp ((hiff hp).mpr hsl)
  · exact h.undecided fun s p hp => mt (hiff hp).mpr (hnone s p hp)

/-- After the rounds of a suffix: its key, its number of labels and what it says. -/
theorem walk_suffix (hlabels : ∀ s ∈ labels, s ≠ []) : ∀ l : List Str, l <:+ labels →
    let w := l.foldr (fun label w => Walk.next records labels.length w label) ⟨[], 0, none⟩
    w.sb = key l ∧ w.acc = l.length ∧ Reached records labels l w.best
  | [], _ => by
      refine ⟨rfl, rfl, fun suffix packed happ hs => ?_, fun _ => rfl⟩
      exact absurd (List.suffix_nil.mp hs) happ.nonempty
  | label :: l, hl => by
      have hl' : l <:+ labels := (List.suffix_cons label l).trans hl
      obtain ⟨hsb, hacc, hreached⟩ := walk_suffix hlabels l hl'
      rw [List.foldr_cons]
      generalize l.foldr _ _ = w at hsb hacc hreached
      have hkey : (if w.sb.isEmpty then label else w.sb ++ sep :: label) = key (label :: l) := by
        rw [hsb, key_cons fun s hs => hlabels s (hl'.subset hs)]
      -- the round is about the record of `label :: l`
      have hwhole : w.acc + 1 = labels.length ↔ label :: l = labels := by
        rw [hacc]
        exact ⟨fun h => hl.eq_of_length h, fun h => congrArg List.length h⟩
      simp only [Walk.next]
      generalize (if w.sb.isEmpty then label else w.sb ++ sep :: label) = sb at hkey
      subst hkey
      cases hrecord : records.lookup (key (label :: l)) with
      | none =>
          refine ⟨rfl, congrArg (· + 1) hacc, hreached.cons fun packed happ => ?_⟩
          cases happ.record.symm.trans hrecord
      | some packed =>
          refine ⟨rfl, congrArg (· + 1) hacc, ?_⟩
          simp only [hwhole]
          split
          · next hscope =>
              exact .of_applies ⟨List.cons_ne_nil _ _, hl, hrecord, by simpa using hscope⟩
          · next hscope =>
              refine hreached.cons fun packed' happ => hscope ?_
              cases happ.record.symm.trans hrecord
              simpa using happ.scope

theorem ne_nil_of_mem_labelsOf {domain : Str} : ∀ s ∈ labelsOf domain, s ≠ [] := by
  intro s hs
  simpa using (List.mem_filter.mp hs).2

/-- Only the labels count. -/
theorem matchDomainUncached_eq (records : RuleRecords) (domain : Str) :
    matchDomainUncached records domain = ((labelsOf domain).foldr
      (fun label w => Walk.next records (labelsOf domain).length w label)
      ⟨[], 0, none⟩).best.getD .proxy := by
  show (if (labelsOf domain).isEmpty then _ else _) = _
  split
  · next hempty =>
      rw [List.isEmpty_iff.mp hempty]
      rfl
  · rw [List.foldl_reverse]
    rfl

/-- Empty labels do not count. -/
theorem labelsOf_join {parts : List Str} (h : ∀ part ∈ parts, '.' ∉ part) :
    labelsOf (join ['.'] parts) = parts.filter (!·.isEmpty) := by
  cases parts with
  | nil => rfl
  | cons part parts => rw [labelsOf, split_join (List.cons_ne_nil _ _) h]

/-- The record for the most labels decides, whatever the table holds: by its action, or
`Proxy` if its action is none.  Where no record applies the action is `Proxy`, and empty labels
between the dots change nothing. -/
theorem most_specific_decides (records : RuleRecords) (domain : Str) :
    (∀ suffix packed, Decides records (labelsOf domain) suffix packed →
      matchDomainUncached records domain = (actionOf packed).getD .proxy) ∧
    ((∀ suffix packed, ¬ Applies records (labelsOf domain) suffix packed) →
      matchDomainUncached records domain = .proxy) ∧
    ∀ parts : List Str, (∀ part ∈ parts, '.' ∉ part) →
      matchDomainUncached records (join ['.'] parts) =
        matchDomainUncached records (join ['.'] (parts.filter (!·.isEmpty))) := by
  obtain ⟨-, -, hreached⟩ := @walk_suffix records (labelsOf domain) ne_nil_of_mem_labelsOf
    (labelsOf domain) (List.suffix_refl _)
  have heq := matchDomainUncached_eq records domain
  refine ⟨fun suffix packed h => ?_, fun hnone => ?_, fun parts hparts => ?_⟩
  · rw [heq, hreached.decided suffix packed h.1 h.1.isSuffix fun s p hp _ => h.2 s p hp]
  · rw [heq, hreached.undecided fun s p hp => absurd hp (hnone s p)]
    rfl
  · have hfilter : ∀ part ∈ parts.filter (!·.isEmpty), '.' ∉ part := fun part hpart =>
      hparts part (List.mem_filter.mp hpart).1
    have hlabels : labelsOf (join ['.'] parts) =
        labelsOf (join ['.'] (parts.filter (!·.isEmpty))) := by
      rw [labelsOf_join hparts, labelsOf_join hfilter, List.filter_filter]
      simp only [Bool.and_self]
    rw [matchDomainUncached_eq, matchDomainUncached_eq, hlabels]

/-- The record of a name itself decides over that of the names above it. -/
theorem most_specific_decides_name :
    let records : RuleRecords :=
      AList.insert "com\x01a".toList 1 (AList.insert "com".toList 0x82 ∅)
    matchDomainUncached records "a.com".toList = .reject := by
  intro records
  have hlabels : labelsOf "a.com".toList = ["a".toList, "com".toList] := by decide +kernel
  have happ : Applies records (labelsOf "a.com".toList) (labelsOf "a.com".toList) 1 :=
    ⟨by rw [hlabels]; simp, List.suffix_refl _, by decide +kernel, .inr rfl⟩
  exact (most_specific_decides records "a.com".toList).1 _ 1
    ⟨happ, fun suffix packed h => h.isSuffix.length_le⟩

end RuleDb

end RustClash
