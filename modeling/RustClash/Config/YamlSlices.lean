import RustClash.Config.Yaml

/-!
# The slices of the YAML reader

A flow map is cut at an offset that counts characters.  `Cut` says that one of its
parts is cut inside a character; nothing else that the reader does to a line can
stop it.
-/

namespace RustClash

namespace Config

open Str Checked

theorem utf8Size_quote {q : Char} (h : q = '"' ∨ q = '\'') : q.utf8Size = 1 := by
  rcases h with rfl | rfl <;> rfl

/-- The text without its last character. -/
theorem sliceTo_last {s : Str} {c : Char} (h : endsWith c s) (hc : c.utf8Size = 1) :
    ∃ t, s = t ++ [c] ∧ sliceTo s (byteLen s - 1) = .ok t := by
  have hlast : s.getLast? = some c := of_decide_eq_true h
  obtain ⟨t, rfl⟩ := List.getLast?_eq_some_iff.mp hlast
  refine ⟨t, rfl, ?_⟩
  rw [show byteLen (t ++ [c]) - 1 = byteLen t by
    rw [byteLen_append, byteLen, byteLen, hc]
    omega]
  exact sliceTo_append t [c]

/-- The text without its first character. -/
theorem sliceFrom_first {s : Str} {c : Char} (h : startsWith c s) (hc : c.utf8Size = 1) :
    ∃ t, s = c :: t ∧ sliceFrom s 1 = .ok t := by
  have hhead : s.head? = some c := of_decide_eq_true h
  obtain ⟨t, rfl⟩ := List.head?_eq_some_iff.mp hhead
  refine ⟨t, rfl, ?_⟩
  have := sliceFrom_append [c] t
  rwa [byteLen, byteLen, hc] at this

/-- A quoted text of two bytes or more has room for both quotes. -/
theorem unquote_ok (s : Str) : ∃ t, unquote s = .ok t ∧ t.length ≤ s.length := by
  rw [unquote]
  split
  · next h =>
      obtain ⟨hlen, hquotes⟩ := h
      obtain ⟨q, hq, hstart, hend⟩ : ∃ q, (q = '"' ∨ q = '\'') ∧ startsWith q s ∧ endsWith q s := by
        rcases hquotes with ⟨h1, h2⟩ | ⟨h1, h2⟩
        · exact ⟨'"', .inl rfl, h1, h2⟩
        · exact ⟨'\'', .inr rfl, h1, h2⟩
      have hq1 := utf8Size_quote hq
      obtain ⟨t, hs, hto⟩ := sliceTo_last hend hq1
      have hstart' : startsWith q t := by
        cases t with
        | nil =>
            subst hs
            simp [byteLen, hq1] at hlen
        | cons d ds =>
            subst hs
            exact hstart
      obtain ⟨u, ht, hfrom⟩ := sliceFrom_first hstart' hq1
      rw [hto]
      show ∃ r, (sliceFrom t 1 >>= _) = Except.ok r ∧ _
      rw [hfrom]
      refine ⟨_, rfl, Nat.le_trans (length_replace_le (by decide) _ _)
        (Nat.le_trans (length_replace_le (by decide) _ _) ?_)⟩
      rw [hs, ht]
      simp
      omega
  · exact ⟨s, rfl, Nat.le_refl _⟩

theorem runs_unquote (s : Str) : Runs (unquote s) :=
  let ⟨t, h, _⟩ := unquote_ok s
  ⟨t, h⟩

/-! ## Flow maps -/

/-- The flow map is cut inside a character: a part of it, or of a flow map that is the value
of a part, has its first free colon after a number of characters that is no offset of a
character's end, or is none with the byte of the colon. -/
inductive Cut : Str → Prop where
  | colon {flow part : Str} {parts : List Str} {i : Nat} : flowParts flow = .ok parts →
      part ∈ parts → indexTopColon part = some i →
      ¬ (IsBoundary part i ∧ IsBoundary part (i + 1)) → Cut flow
  | inner {flow part key val : Str} {parts : List Str} {i : Nat} : flowParts flow = .ok parts →
      part ∈ parts → indexTopColon part = some i → flowPair part i = .ok (key, val) →
      key ≠ [] → isFlowMap val → Cut val → Cut flow

/-- The part is cut inside a character, or its value is. -/
inductive CutPart (part : Str) : Prop where
  | colon {i : Nat} : indexTopColon part = some i →
      ¬ (IsBoundary part i ∧ IsBoundary part (i + 1)) → CutPart part
  | inner {key val : Str} {i : Nat} : indexTopColon part = some i →
      flowPair part i = .ok (key, val) → key ≠ [] → isFlowMap val → Cut val → CutPart part

theorem cut_iff {flow : Str} {parts : List Str} (h : flowParts flow = .ok parts) :
    Cut flow ↔ ∃ part ∈ parts, CutPart part := by
  constructor
  · rintro (⟨h', hp, hi, hb⟩ | ⟨h', hp, hi, hpair, hk, hm, hc⟩)
    · cases h.symm.trans h'
      exact ⟨_, hp, .colon hi hb⟩
    · cases h.symm.trans h'
      exact ⟨_, hp, .inner hi hpair hk hm hc⟩
  · rintro ⟨part, hp, ⟨hi, hb⟩ | ⟨hi, hpair, hk, hm, hc⟩⟩
    · exact .colon h hp hi hb
    · exact .inner h hp hi hpair hk hm hc

theorem length_pieceOf {cur part : Str} (h : part ∈ pieceOf cur) : part.length ≤ cur.length := by
  rw [pieceOf] at h
  split at h
  · cases h
  · cases List.mem_singleton.mp h
    exact length_trim_le cur

theorem length_splitFlowFrom {part : Str} : ∀ {cs : Str} {st : Scan} {cur : Str},
    part ∈ splitFlowFrom cs st cur → part.length ≤ cur.length + cs.length
  | [], _, _, h => length_pieceOf h
  | c :: cs, st, cur, h => by
      rw [splitFlowFrom] at h
      split at h
      · rcases List.mem_append.mp h with h | h
        · exact Nat.le_trans (length_pieceOf h) (Nat.le_add_right _ _)
        · have := length_splitFlowFrom h
          simp only [List.length_nil, List.length_cons] at this ⊢
          omega
      · have := length_splitFlowFrom h
        simp only [List.length_append, List.length_cons, List.length_nil] at this ⊢
        omega

theorem dropOpen_ok (s : Str) : ∃ t, dropOpen s = .ok t ∧ t.length ≤ s.length := by
  rw [dropOpen]
  split
  · next h =>
      obtain ⟨t, rfl, hfrom⟩ := sliceFrom_first h rfl
      exact ⟨t, hfrom, Nat.le_succ _⟩
  · exact ⟨s, rfl, Nat.le_refl _⟩

theorem dropClose_ok (s : Str) : ∃ t, dropClose s = .ok t ∧ t.length ≤ s.length := by
  rw [dropClose]
  split
  · next h =>
      obtain ⟨t, rfl, hto⟩ := sliceTo_last h rfl
      exact ⟨t, hto, by rw [List.length_append]; exact Nat.le_add_right _ _⟩
  · exact ⟨s, rfl, Nat.le_refl _⟩

theorem flowParts_ok (flow : Str) :
    ∃ parts, flowParts flow = .ok parts ∧ ∀ part ∈ parts, part.length ≤ flow.length := by
  obtain ⟨s, hs, hslen⟩ := dropOpen_ok (trim flow)
  obtain ⟨t, ht, htlen⟩ := dropClose_ok s
  refine ⟨splitFlow t, ?_, fun part hp => ?_⟩
  · rw [flowParts, hs]
    show (dropClose s >>= _) = _
    rw [ht]
    rfl
  · have hpart := length_splitFlowFrom hp
    rw [List.length_nil, Nat.zero_add] at hpart
    have htrim := length_trim_le flow
    omega

theorem runs_flowPair {part : Str} {i : Nat} :
    Runs (flowPair part i) ↔ IsBoundary part i ∧ IsBoundary part (i + 1) := by
  rw [flowPair, ← runs_sliceTo, ← runs_sliceFrom]
  constructor
  · intro h
    obtain ⟨key, hkey, h⟩ := runs_bind.mp h
    obtain ⟨val, hval, h⟩ := runs_bind.mp h
    exact ⟨⟨key, hkey⟩, ⟨val, hval⟩⟩
  · rintro ⟨hto, hfrom⟩
    exact hto.bind fun _ => hfrom.bind fun _ => (runs_unquote _).bind fun _ => runs_pure _

/-- A value is shorter than its part. -/
theorem length_flowPair {part key val : Str} {i : Nat} (h : flowPair part i = .ok (key, val)) :
    val.length < part.length := by
  have hruns : Runs (flowPair part i) := ⟨_, h⟩
  obtain ⟨⟨a, ha⟩, ⟨b, hb⟩⟩ : Runs (sliceTo part i) ∧ Runs (sliceFrom part (i + 1)) := by
    rw [runs_sliceTo, runs_sliceFrom]
    exact runs_flowPair.mp hruns
  obtain ⟨v, hv, hvlen⟩ := unquote_ok (trim b)
  have hval : (trim a, v) = (key, val) := by
    rw [flowPair, ha] at h
    replace h : (sliceFrom part (i + 1) >>= _) = Except.ok (key, val) := h
    rw [hb] at h
    replace h : (unquote (trim b) >>= _) = Except.ok (key, val) := h
    rw [hv] at h
    exact Except.ok.inj h
  cases hval
  obtain ⟨c, rfl, hlen⟩ := eq_append_of_sliceFrom hb
  have hc : 0 < c.length := by
    cases c with
    | nil => simp [byteLen] at hlen
    | cons d ds => exact Nat.succ_pos _
  have := length_trim_le b
  rw [List.length_append]
  omega

theorem runs_applyFlowPart {inner : YamlMap → Str → Checked YamlMap} {part : Str}
    (hinner : ∀ map (val : Str), val.length < part.length → (Runs (inner map val) ↔ ¬ Cut val))
    (map : YamlMap) : Runs (applyFlowPart inner map part) ↔ ¬ CutPart part := by
  rw [applyFlowPart]
  cases hi : indexTopColon part with
  | none =>
      constructor
      · rintro _ (⟨hi', _⟩ | ⟨hi', _⟩) <;> cases hi.symm.trans hi'
      · exact fun _ => runs_pure _
  | some i =>
      show Runs (flowPair part i >>= _) ↔ _
      by_cases hb : IsBoundary part i ∧ IsBoundary part (i + 1)
      · obtain ⟨⟨key, val⟩, hpair⟩ := runs_flowPair.mpr hb
        rw [hpair]
        have hcut : CutPart part ↔ key ≠ [] ∧ isFlowMap val ∧ Cut val := by
          constructor
          · rintro (⟨hi', hb'⟩ | ⟨hi', hpair', hk, hm, hc⟩)
            · cases hi.symm.trans hi'
              exact absurd hb hb'
            · cases hi.symm.trans hi'
              cases hpair.symm.trans hpair'
              exact ⟨hk, hm, hc⟩
          · rintro ⟨hk, hm, hc⟩
            exact .inner hi hpair hk hm hc
        rw [hcut]
        show Runs (if key.isEmpty then _ else _) ↔ _
        split
        · next hk => simp [List.isEmpty_iff.mp hk]
        · next hk =>
            have hk' : key ≠ [] := fun h => hk (List.isEmpty_iff.mpr h)
            split
            · next hm =>
                show Runs (_ <$> inner ∅ val) ↔ _
                rw [runs_map, hinner ∅ val (length_flowPair hpair)]
                simp [hk', hm]
            · next hm => simp [hm]
      · have hfail (f : Str × Str → Checked YamlMap) : ¬ Runs (flowPair part i >>= f) := by
          intro h
          obtain ⟨r, hr, _⟩ := runs_bind.mp h
          exact hb (runs_flowPair.mp ⟨r, hr⟩)
        exact iff_of_false (hfail _) (not_not_intro (.colon hi hb))

/-- More fuel than characters reads a flow map to its end unless it is cut. -/
theorem runs_applyFlowMapWithin : ∀ (fuel : Nat) (map : YamlMap) (flow : Str),
    flow.length < fuel → (Runs (applyFlowMapWithin fuel map flow) ↔ ¬ Cut flow)
  | 0, _, _, h => absurd h (Nat.not_lt_zero _)
  | fuel + 1, map, flow, h => by
      obtain ⟨parts, hparts, hlen⟩ := flowParts_ok flow
      rw [applyFlowMapWithin, hparts, cut_iff hparts]
      show Runs (parts.foldlM _ map) ↔ _
      rw [@runs_foldlM _ _ _ (¬ CutPart ·) parts fun map' part hp =>
        runs_applyFlowPart (fun map'' val hval => runs_applyFlowMapWithin fuel map'' val
          (Nat.lt_of_lt_of_le hval (Nat.le_trans (hlen part hp) (Nat.le_of_lt_succ h)))) map']
      simp

theorem runs_applyFlowMap (map : YamlMap) (flow : Str) :
    Runs (applyFlowMap map flow) ↔ ¬ Cut flow :=
  runs_applyFlowMapWithin _ _ _ (Nat.lt_succ_self _)

/-! ## Sections -/

theorem runs_applyPair (map : YamlMap) (nest : Nest) (indent : Nat) (content : Str) :
    Runs (applyPair map nest indent content) := by
  rw [applyPair]
  cases hc : find ':' content with
  | none => exact runs_pure _
  | some i =>
      obtain ⟨a, b, rfl, rfl⟩ := eq_append_of_find hc
      have hto : Runs (sliceTo (a ++ ':' :: b) (byteLen a)) := runs_sliceTo.mpr (isBoundary_append a _)
      have hfrom : Runs (sliceFrom (a ++ ':' :: b) (byteLen a + 1)) :=
        runs_sliceFrom.mpr (isBoundary_after a b rfl)
      refine hto.bind fun key => hfrom.bind fun val => (runs_unquote _).bind fun val => ?_
      show Runs (if val.isEmpty then _ else _)
      split <;> exact runs_pure _

/-- The flow map that is the item of a line. -/
def flowItem (raw : Str) : Option Str :=
  ((stripPrefix "- ".toList (trim raw)).map trim).filter (startsWith '{')

/-- The lines of a section that are read. -/
def itemLines (lines : List Str) : List Str :=
  ((sectionLines lines).filter (!isComment ·)).takeWhile (!endsSection ·)

/-- The flow maps among the items of the `proxies:` section. -/
def flowItems (text : Str) : List Str := (itemLines (yamlLines text)).filterMap flowItem

theorem runs_readLine (st : Section) (raw : Str) :
    Runs (readLine st raw) ↔ ∀ flow ∈ flowItem raw, ¬ Cut flow := by
  simp only [readLine, flowItem]
  cases stripPrefix "- ".toList (trim raw) with
  | none =>
      refine iff_of_true ?_ (by simp)
      obtain ⟨result, current, nest⟩ := st
      cases current with
      | none => exact runs_pure _
      | some map => exact (runs_applyPair _ _ _ _).bind fun _ => runs_pure _
  | some rest =>
      show Runs (if (trim rest).isEmpty then _ else if startsWith '{' (trim rest) then _ else _) ↔ _
      split
      · next h => exact iff_of_true (runs_pure _) (by simp [List.isEmpty_iff.mp h, startsWith])
      · split
        · next h =>
            show Runs (_ <$> applyFlowMap ∅ (trim rest)) ↔ _
            rw [runs_map, runs_applyFlowMap]
            simp [h]
        · next h =>
            exact iff_of_true ((runs_applyPair _ _ _ _).bind fun _ => runs_pure _) (by simp [h])

theorem runs_readLines : ∀ (lines : List Str) (st : Section), Runs (readLines lines st) ↔
    ∀ flow ∈ ((lines.filter (!isComment ·)).takeWhile (!endsSection ·)).filterMap flowItem, ¬ Cut flow
  | [], st => by simp [readLines]
  | raw :: lines, st => by
      rw [readLines]
      split
      · next h =>
          rw [List.filter_cons_of_neg (by simp [h])]
          exact runs_readLines lines st
      · next h =>
          rw [List.filter_cons_of_pos (by simp [h])]
          split
          · next h => rw [List.takeWhile_cons_of_neg (by simp [h])]; simp
          · next h =>
              rw [List.takeWhile_cons_of_pos (by simp [h]), runs_bind]
              have hflows : ∀ flow, flow ∈ List.filterMap flowItem (raw ::
                  ((lines.filter (!isComment ·)).takeWhile (!endsSection ·))) ↔
                  flow ∈ flowItem raw ∨ flow ∈ List.filterMap flowItem
                    ((lines.filter (!isComment ·)).takeWhile (!endsSection ·)) := by
                intro flow
                simp only [List.mem_filterMap, List.mem_cons]
                constructor
                · rintro ⟨l, rfl | hl, hf⟩
                  · exact .inl hf
                  · exact .inr ⟨l, hl, hf⟩
                · rintro (hf | ⟨l, hl, hf⟩)
                  · exact ⟨raw, .inl rfl, hf⟩
                  · exact ⟨l, .inr hl, hf⟩
              simp only [hflows, or_imp, forall_and]
              constructor
              · rintro ⟨st', hst', hrest⟩
                exact ⟨(runs_readLine st raw).mp ⟨st', hst'⟩, (runs_readLines lines st').mp hrest⟩
              · rintro ⟨hraw, hrest⟩
                obtain ⟨st', hst'⟩ := (runs_readLine st raw).mpr hraw
                exact ⟨st', hst', (runs_readLines lines st').mpr hrest⟩

theorem runs_loadProxiesYaml (text : Str) :
    Runs (loadProxiesYaml text) ↔ ∀ flow ∈ flowItems text, ¬ Cut flow := by
  show Runs (_ <$> (_ <$> readLines (sectionLines (yamlLines text)) {})) ↔ _
  rw [runs_map, runs_map]
  exact runs_readLines _ _

end Config

end RustClash
