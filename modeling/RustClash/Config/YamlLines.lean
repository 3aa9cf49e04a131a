import RustClash.Config.BlockYamlRead

/-!
# What lines do to a section

A line that is no item sets at most one key of the entry being read, whatever the entry
has; an item ends that entry.  So what a run of lines does is a list of keys and texts,
followed by entries that depend on the lines alone.
-/

namespace RustClash

namespace Config

open Str Checked BlockYaml

/-! ## Pairs -/

/-- The text that `unquote` makes of one. -/
def unquoted (s : Str) : Str :=
  match unquote s with
  | .ok t => t
  | .error _ => s

theorem unquote_eq (s : Str) : unquote s = .ok (unquoted s) := by
  obtain ⟨t, ht, -⟩ := unquote_ok s
  rw [unquoted, ht]

/-- The key and the text of a pair. -/
def pairOf (content : Str) : Option (Str × Str) :=
  (splitOnce ':' content).map fun (k, v) => (trim k, unquoted (trim v))

/-- What a line sets, with the nest behind it: a pair without a text encloses the lines to its
right. -/
def pairSets (nest : Nest) (indent : Nat) (content : Str) : List (Str × Str) × Nest :=
  match pairOf content with
  | none => ([], nest)
  | some (key, val) =>
      let nest := nest.dropWhile fun e => indent ≤ e.1
      if val.isEmpty then ([], (indent, above nest ++ key) :: nest)
      else ([(above nest ++ key, val)], nest)

def setAll (map : YamlMap) (sets : List (Str × Str)) : YamlMap :=
  sets.foldl (fun map e => map.insert e.1 e.2) map

theorem setAll_append (map : YamlMap) (a b : List (Str × Str)) :
    setAll map (a ++ b) = setAll (setAll map a) b := List.foldl_append

theorem splitOnce_none {c : Char} : ∀ {s : Str}, c ∉ s → splitOnce c s = none ∧ find c s = none
  | [], _ => ⟨rfl, rfl⟩
  | d :: ds, h => by
      rw [List.mem_cons, not_or] at h
      obtain ⟨hsplit, hfind⟩ := splitOnce_none h.2
      rw [splitOnce, find, if_neg (Ne.symm h.1), if_neg (Ne.symm h.1), hsplit, hfind]
      exact ⟨rfl, rfl⟩

theorem applyPair_eq (map : YamlMap) (nest : Nest) (indent : Nat) (content : Str) :
    applyPair map nest indent content = .ok (setAll map (pairSets nest indent content).1,
      (pairSets nest indent content).2) := by
  by_cases hcolon : ':' ∈ content
  · obtain ⟨key, val, rfl, hkey⟩ := List.eq_append_cons_of_mem hcolon
    have hto := sliceTo_append key (':' :: val)
    have hfrom : sliceFrom (key ++ ':' :: val) (byteLen key + 1) = .ok val := by
      have h := sliceFrom_append (key ++ [':']) val
      rwa [List.append_assoc, byteLen_append] at h
    have hpair : pairOf (key ++ ':' :: val) = some (trim key, unquoted (trim val)) := by
      rw [pairOf, splitOnce_append val hkey]
      rfl
    rw [applyPair, find_colon hkey, pairSets, hpair]
    show (sliceTo _ _ >>= _) = _
    rw [hto]
    show (sliceFrom _ _ >>= _) = _
    rw [hfrom]
    show (unquote _ >>= _) = _
    rw [unquote_eq]
    generalize nest.dropWhile (fun e => decide (indent ≤ e.1)) = base
    show (if (unquoted (trim val)).isEmpty then _ else _) = _
    cases base with
    | nil =>
        dsimp only
        split <;> rfl
    | cons e base =>
        dsimp only
        rw [above, List.append_assoc]
        split <;> rfl
  · obtain ⟨hsplit, hfind⟩ := splitOnce_none hcolon
    rw [applyPair, hfind, pairSets, pairOf, hsplit]
    rfl

/-- What a run of lines sets. -/
def setsOf : Nest → List Str → List (Str × Str)
  | _, [] => []
  | nest, raw :: lines =>
      if isComment raw then setsOf nest lines
      else
        let (sets, nest) := pairSets nest (indentOf raw) (trim raw)
        sets ++ setsOf nest lines

/-! ## Lines -/

/-- The line does not end the section. -/
def Stays (raw : Str) : Prop := isComment raw = true ∨ endsSection raw = false

theorem readLines_comment {raw : Str} (h : isComment raw = true) (lines : List Str) (st : Section) :
    readLines (raw :: lines) st = readLines lines st := by
  rw [readLines, h, if_pos rfl]

theorem readLines_append {lines : List Str} (h : ∀ raw ∈ lines, Stays raw) (rest : List Str)
    (st : Section) : readLines (lines ++ rest) st = readLines lines st >>= readLines rest := by
  induction lines generalizing st with
  | nil => rfl
  | cons raw lines ih =>
      obtain ⟨hraw, hlines⟩ := List.forall_mem_cons.mp h
      rw [List.cons_append]
      cases hc : isComment raw with
      | true =>
          rw [readLines_comment hc, readLines_comment hc]
          exact ih hlines st
      | false =>
          have hinside : Inside raw := ⟨hc, hraw.resolve_left (by simp [hc])⟩
          rw [readLines_cons hinside, readLines_cons hinside, bind_assoc]
          exact congrArg _ (funext fun st => ih hlines st)

/-- The lines that are read of those behind a section. -/
def taken (lines : List Str) : List Str := lines.takeWhile fun raw => isComment raw || !endsSection raw

theorem readLines_taken (lines : List Str) (st : Section) :
    readLines (taken lines) st = readLines lines st := by
  induction lines generalizing st with
  | nil => rfl
  | cons raw lines ih =>
      rw [taken, List.takeWhile_cons]
      cases hc : isComment raw with
      | true =>
          rw [Bool.true_or, if_pos rfl, readLines_comment hc, readLines_comment hc]
          exact ih st
      | false =>
          cases he : endsSection raw with
          | true =>
              show Except.ok st = if isComment raw then _ else if endsSection raw then _ else _
              rw [hc, he]
              rfl
          | false =>
              rw [Bool.not_false, Bool.or_true, if_pos rfl, readLines_cons ⟨hc, he⟩,
                readLines_cons ⟨hc, he⟩]
              exact congrArg _ (funext fun st => ih st)

theorem stays_taken {lines : List Str} : ∀ raw ∈ taken lines, Stays raw := by
  intro raw hraw
  have h := List.mem_takeWhile_imp hraw
  rw [Bool.or_eq_true, Bool.not_eq_true'] at h
  exact h

/-! ## Pairs and items -/

namespace Section

/-- The entries read so far. -/
def maps (st : Section) : List YamlMap := st.result ++ st.current.toList

/-- The section behind entries that are complete. -/
def behind (pre : List YamlMap) (st : Section) : Section := { st with result := pre ++ st.result }

theorem maps_behind (pre : List YamlMap) (st : Section) : (st.behind pre).maps = pre ++ st.maps :=
  List.append_assoc _ _ _

end Section

theorem parseProxiesSection_eq (lines : List Str) :
    parseProxiesSection lines = Section.maps <$> readLines (sectionLines lines) {} := rfl

theorem readLine_pair {raw : Str} (h : isItem raw = false) (result : List YamlMap) (map : YamlMap)
    (nest : Nest) : readLine (within result map nest) raw =
      .ok (within result (setAll map (pairSets nest (indentOf raw) (trim raw)).1)
        (pairSets nest (indentOf raw) (trim raw)).2) := by
  have hnone : stripPrefix "- ".toList (trim raw) = none := by simpa [isItem] using h
  rw [readLine, hnone]
  show (applyPair map nest (indentOf raw) (trim raw) >>= _) = _
  rw [applyPair_eq]
  rfl

/-- A run of lines without an item sets keys of the entry being read. -/
theorem readLines_pairs {lines : List Str} (hstay : ∀ raw ∈ lines, Stays raw)
    (h : ∀ raw ∈ lines, isItem raw = false) (result : List YamlMap) (map : YamlMap) (nest : Nest) :
    ∃ nest', readLines lines (within result map nest) =
      .ok (within result (setAll map (setsOf nest lines)) nest') := by
  induction lines generalizing map nest with
  | nil => exact ⟨nest, rfl⟩
  | cons raw lines ih =>
      obtain ⟨hraw, hlines⟩ := List.forall_mem_cons.mp hstay
      obtain ⟨hitem, hitems⟩ := List.forall_mem_cons.mp h
      rw [setsOf]
      cases hc : isComment raw with
      | true =>
          rw [readLines_comment hc, if_pos rfl]
          exact ih hlines hitems map nest
      | false =>
          obtain ⟨nest', hread⟩ := ih hlines hitems
            (setAll map (pairSets nest (indentOf raw) (trim raw)).1)
            (pairSets nest (indentOf raw) (trim raw)).2
          refine ⟨nest', ?_⟩
          rw [readLines_cons ⟨hc, hraw.resolve_left (by simp [hc])⟩, readLine_pair hitem,
            if_neg Bool.false_ne_true, setAll_append]
          exact hread

/-- In front of the first item they do nothing. -/
theorem readLines_outside {lines : List Str} (hstay : ∀ raw ∈ lines, Stays raw)
    (h : ∀ raw ∈ lines, isItem raw = false) {st : Section} (hst : st.current = none) :
    readLines lines st = .ok st := by
  induction lines with
  | nil => rfl
  | cons raw lines ih =>
      obtain ⟨hraw, hlines⟩ := List.forall_mem_cons.mp hstay
      obtain ⟨hitem, hitems⟩ := List.forall_mem_cons.mp h
      cases hc : isComment raw with
      | true =>
          rw [readLines_comment hc]
          exact ih hlines hitems
      | false =>
          have hnone : stripPrefix "- ".toList (trim raw) = none := by simpa [isItem] using hitem
          have hline : readLine st raw = .ok st := by
            rw [readLine, hnone, hst]
            rfl
          rw [readLines_cons ⟨hc, hraw.resolve_left (by simp [hc])⟩, hline]
          exact ih hlines hitems

/-- The entry that an item starts. -/
def startOf (indent : Nat) (rest : Str) : Checked (YamlMap × Nest) :=
  let rest := trim rest
  if rest.isEmpty then .ok (∅, [])
  else if startsWith '{' rest then (·, []) <$> applyFlowMap ∅ rest
  else applyPair ∅ [] (indent + 2) rest

theorem readLine_item {raw rest : Str} (h : stripPrefix "- ".toList (trim raw) = some rest)
    (st : Section) :
    readLine st raw = (fun r : YamlMap × Nest => BlockYaml.within st.maps r.1 r.2) <$>
      startOf (indentOf raw) rest := by
  rw [readLine, h, startOf]
  dsimp only
  split
  · rfl
  · split
    · cases applyFlowMap ∅ (trim rest) <;> rfl
    · rw [applyPair_eq]
      rfl

theorem readLine_behind (pre : List YamlMap) (st : Section) (raw : Str) :
    readLine (st.behind pre) raw = Section.behind pre <$> readLine st raw := by
  cases h : stripPrefix "- ".toList (trim raw) with
  | none =>
      have hitem : isItem raw = false := by rw [isItem, h]; rfl
      obtain ⟨result, current, nest⟩ := st
      cases current with
      | none =>
          rw [readLine, readLine, h]
          rfl
      | some map =>
          have hpair := readLine_pair hitem result map nest
          have hbehind := readLine_pair hitem (pre ++ result) map nest
          exact hbehind.trans (congrArg (Section.behind pre <$> ·) hpair).symm
  | some rest =>
      rw [readLine_item h, readLine_item h, Section.maps_behind, Functor.map_map]
      rfl

theorem readLines_behind (pre : List YamlMap) (lines : List Str) (st : Section) :
    readLines lines (st.behind pre) = Section.behind pre <$> readLines lines st := by
  induction lines generalizing st with
  | nil => rfl
  | cons raw lines ih =>
      cases hc : isComment raw with
      | true =>
          rw [readLines_comment hc, readLines_comment hc]
          exact ih st
      | false =>
          cases he : endsSection raw with
          | true =>
              show (if isComment raw then _ else if endsSection raw then _ else _) =
                _ <$> (if isComment raw then _ else if endsSection raw then _ else _)
              rw [hc, he]
              rfl
          | false =>
              rw [readLines_cons ⟨hc, he⟩, readLines_cons ⟨hc, he⟩, readLine_behind, map_bind,
                bind_map_left]
              exact congrArg _ (funext ih)

theorem dash_of_isItem {raw : Str} (h : isItem raw = true) :
    trim raw ≠ [] ∧ startsWith '-' (trimStart raw) = true := by
  have hdash : "- ".toList <+: trim raw := by
    rw [isItem, stripPrefix] at h
    split at h
    · next hp => exact List.isPrefixOf_iff_prefix.mp hp
    · cases h
  refine ⟨fun hnil => by simp [hnil] at hdash, ?_⟩
  obtain ⟨t, ht⟩ := hdash.trans (List.rdropWhile_prefix _ (trimStart raw))
  rw [← ht]
  rfl

theorem inside_of_isItem {raw : Str} (h : isItem raw = true) : Inside raw := by
  obtain ⟨hne, hstart⟩ := dash_of_isItem h
  constructor
  · have hhash : startsWith '#' (trimStart raw) = false := by
      cases hs : trimStart raw with
      | nil => rfl
      | cons c cs =>
          rw [hs] at hstart
          have hc : c = '-' := Option.some.inj (of_decide_eq_true hstart)
          rw [hc]
          rfl
    rw [isComment, hhash, Bool.or_false]
    exact List.isEmpty_eq_false_iff.mpr hne
  · rw [endsSection, hstart, Bool.not_true, Bool.and_false]

/-- An item ends the entry before it, and what follows it depends on the lines alone. -/
theorem readLines_item {raw : Str} (h : isItem raw = true) (lines : List Str) (st : Section) :
    readLines (raw :: lines) st = Section.behind st.maps <$> readLines (raw :: lines) {} := by
  obtain ⟨rest, hrest⟩ := Option.isSome_iff_exists.mp h
  have hinside := inside_of_isItem h
  have hline : readLine st raw = Section.behind st.maps <$> readLine {} raw := by
    rw [readLine_item hrest, readLine_item hrest, Functor.map_map]
    refine congrArg (· <$> startOf (indentOf raw) rest) (funext fun r => ?_)
    show BlockYaml.within st.maps r.1 r.2 = BlockYaml.within (st.maps ++ []) r.1 r.2
    rw [List.append_nil]
  rw [readLines_cons hinside, readLines_cons hinside, hline, map_bind, bind_map_left]
  exact congrArg _ (funext fun st' => readLines_behind _ lines st')

/-- A line at the margin is enclosed by nothing. -/
theorem setsOf_margin {raw : Str} (hcomment : isComment raw = false) (hindent : indentOf raw = 0)
    (hcolon : ':' ∈ trim raw) (nest : Nest) (lines : List Str) :
    setsOf nest (raw :: lines) = setsOf [] (raw :: lines) := by
  have hall : nest.dropWhile (fun e => decide (0 ≤ e.1)) = [] := by simp
  have hpair : pairSets nest 0 (trim raw) = pairSets [] 0 (trim raw) := by
    obtain ⟨key, val, heq, hkey⟩ := List.eq_append_cons_of_mem hcolon
    rw [heq, pairSets, pairSets, pairOf, splitOnce_append val hkey]
    dsimp only [Option.map_some]
    rw [hall]
    rfl
  rw [setsOf, setsOf, hcomment, hindent, hpair]
  rfl

/-- The lines in front of the first item, and those from it on. -/
def pairLines (lines : List Str) : List Str := lines.takeWhile (!isItem ·)

def itemLinesOf (lines : List Str) : List Str := lines.dropWhile (!isItem ·)

/-- A run of lines sets keys of the entry being read, and then makes entries of its own. -/
theorem maps_readLines {lines : List Str} (hstay : ∀ raw ∈ lines, Stays raw) (st : Section) :
    Section.maps <$> readLines lines st =
      (fun maps => st.result ++
        (st.current.map (setAll · (setsOf st.nest (pairLines lines)))).toList ++ maps) <$>
          (Section.maps <$> readLines (itemLinesOf lines) {}) := by
  have hsplit : pairLines lines ++ itemLinesOf lines = lines := List.takeWhile_append_dropWhile
  have hpairs : ∀ raw ∈ pairLines lines, isItem raw = false := fun raw hraw => by
    simpa using List.mem_takeWhile_imp hraw
  have hstayPairs : ∀ raw ∈ pairLines lines, Stays raw := fun raw hraw =>
    hstay raw (hsplit ▸ List.mem_append_left _ hraw)
  obtain ⟨st', hread, hmaps⟩ : ∃ st', readLines (pairLines lines) st = .ok st' ∧ st'.maps =
      st.result ++ (st.current.map (setAll · (setsOf st.nest (pairLines lines)))).toList := by
    obtain ⟨result, current, nest⟩ := st
    cases current with
    | none => exact ⟨_, readLines_outside hstayPairs hpairs rfl, rfl⟩
    | some map =>
        obtain ⟨nest', hread⟩ := readLines_pairs hstayPairs hpairs result map nest
        exact ⟨_, hread, rfl⟩
  rw [← hmaps]
  conv_lhs => rw [← hsplit, readLines_append hstayPairs, hread]
  show Section.maps <$> readLines (itemLinesOf lines) st' = _
  cases hitems : itemLinesOf lines with
  | nil => exact congrArg Except.ok (List.append_nil _).symm
  | cons raw rest =>
      have hitem : isItem raw = true := by
        have hhead := List.head?_dropWhile_not (!isItem ·) lines
        rw [show lines.dropWhile (!isItem ·) = raw :: rest from hitems] at hhead
        simpa using hhead
      rw [readLines_item hitem, Functor.map_map, Functor.map_map]
      exact congrArg (· <$> _) (funext fun st'' => Section.maps_behind _ st'')

end Config

end RustClash
