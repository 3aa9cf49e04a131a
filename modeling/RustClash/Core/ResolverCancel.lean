import RustClash.Core.Resolver

/-!
# In-flight entries and their leaders

A caller that inserts an in-flight entry leads its key until it removes the
entry again, and everybody else who asks for the key waits on the entry.
`step_effect` says what one step does to entries, leaders and sent results.

Three facts hold in every reachable state (`WF`): a leader's key has an entry, a
key has at most one leader, and a waiter's channel was answered or is still the
entry of its key.  That an entry has a leader (`Covered`) is not among them.  The
leader's only await point lies between the insertion and the removal, and the
removal is ordinary code behind it, not the destructor of a guard, so a leader
dropped there leaves its entry behind.  The channel of such an entry stays open,
every later caller of the key becomes a waiter, and no step removes the entry.
`covered_iff` makes this exact.
-/

namespace RustClash

namespace DohResolver

variable {idna : String → Option String}

/-- The key of the entry a caller inserted and did not remove yet. -/
def Caller.leads : Caller → Option String
  | .lead key | .store key _ | .publish key _ => some key
  | _ => none

/-- The caller is a live future that leads `key`. -/
def Leads (st : State) (c : Nat) (key : String) : Prop :=
  (st.callers c).bind Caller.leads = some key

/-- Every in-flight entry has a live leader. -/
def Covered (st : State) : Prop := ∀ key ∈ st.inflight, ∃ c, Leads st c key

/-- The action drops a leader at its await point. -/
def DropsLeader (st : State) (a : Action) : Prop :=
  ∃ c key, a = .drop c ∧ st.callers c = some (.lead key)

/-! ## What a step does -/

/-- The effect of an action of caller `c` on entries, leaders and results. -/
inductive Effect (st : State) (a : Action) (st' : State) : Prop where
  /-- Only the caller moves, and it leads what it led before. -/
  | move (c : Nat) (caller : Caller)
      (callers : st'.callers = Function.update st.callers c (some caller))
      (inflight : st'.inflight = st.inflight) (sent : st'.sent = st.sent)
      (leads : caller.leads = (st.callers c).bind Caller.leads)
      (waits : ∀ key rx, caller = .wait key rx → st.inflight.lookup key = some rx)
  /-- The caller takes the lead of a key without an entry. -/
  | lead (c : Nat) (key : String) (tx : Chan)
      (callers : st'.callers = Function.update st.callers c (some (.lead key)))
      (inflight : st'.inflight = st.inflight.insert key tx) (sent : st'.sent = st.sent)
      (fresh : st.inflight.lookup key = none) (idle : (st.callers c).bind Caller.leads = none)
  /-- The leader of a key sends its result and removes the entry. -/
  | answer (c : Nat) (key : String) (tx : Chan) (result : ResolveResult)
      (callers : st'.callers = Function.update st.callers c (some (.done result)))
      (inflight : st'.inflight = st.inflight.erase key)
      (sent : st'.sent = Function.update st.sent tx (some result))
      (entry : st.inflight.lookup key = some tx) (leads : Leads st c key)
  /-- A leader finds no entry of its key. -/
  | unanswered (c : Nat) (key : String) (result : ResolveResult)
      (callers : st'.callers = Function.update st.callers c (some (.done result)))
      (inflight : st'.inflight = st.inflight) (sent : st'.sent = st.sent)
      (noEntry : st.inflight.lookup key = none) (leads : Leads st c key)
  /-- A leader is dropped. -/
  | abandon (c : Nat) (key : String)
      (callers : st'.callers = Function.update st.callers c (some .dropped))
      (inflight : st'.inflight = st.inflight) (sent : st'.sent = st.sent)
      (leads : Leads st c key) (drops : DropsLeader st a)

theorem runCaller_effect {st st' : State} {c : Nat} {r : Readings} {caller : Caller}
    (hc : st.callers c = some caller) (h : runCaller idna st c r caller = some st') :
    Effect st (.run c r) st' := by
  have hlead : (st.callers c).bind Caller.leads = caller.leads := by rw [hc]; rfl
  cases caller with
  | start host =>
      simp only [runCaller] at h
      split at h
      · cases h; exact .move c _ rfl rfl rfl hlead.symm (by intro _ _ hw; cases hw)
      · split at h
        · cases h; exact .move c _ rfl rfl rfl hlead.symm (by intro _ _ hw; cases hw)
        · cases h; exact .move c _ rfl rfl rfl hlead.symm (by intro _ _ hw; cases hw)
  | check key =>
      simp only [runCaller] at h
      split at h <;>
        (cases h; exact .move c _ rfl rfl rfl hlead.symm (by intro _ _ hw; cases hw))
  | enter key =>
      simp only [runCaller] at h
      split at h
      · cases h; exact .move c _ rfl rfl rfl hlead.symm (by intro _ _ hw; cases hw)
      · split at h
        · next tx htx =>
            cases h
            exact .move c _ rfl rfl rfl hlead.symm (by intro _ _ hw; cases hw; exact htx)
        · next hnone =>
            cases h
            exact .lead c key st.nextChan rfl rfl rfl hnone hlead
  | wait key rx =>
      simp only [runCaller] at h
      split at h
      · cases h; exact .move c _ rfl rfl rfl hlead.symm (by intro _ _ hw; cases hw)
      · split at h
        · cases h
        · cases h; exact .move c _ rfl rfl rfl hlead.symm (by intro _ _ hw; cases hw)
  | lead key => cases h
  | store key result =>
      simp only [runCaller] at h
      cases h
      exact .move c _ rfl rfl rfl hlead.symm (by intro _ _ hw; cases hw)
  | publish key result =>
      simp only [runCaller] at h
      split at h
      · next tx htx => cases h; exact .answer c key tx result rfl rfl rfl htx hlead
      · next hnone => cases h; exact .unanswered c key result rfl rfl rfl hnone hlead
  | done result => cases h
  | dropped => cases h

theorem step_effect {st st' : State} {a : Action} (h : step idna st a = some st') :
    Effect st a st' := by
  cases a with
  | call c host =>
      simp only [step] at h
      split at h
      · next hc =>
          cases h
          exact .move c _ rfl rfl rfl (by rw [hc]; rfl) (by intro _ _ hw; cases hw)
      · cases h
  | run c r =>
      obtain ⟨caller, hc, hr⟩ := Option.bind_eq_some_iff.mp h
      exact runCaller_effect hc hr
  | resolved c result =>
      simp only [step] at h
      split at h
      · next key hc =>
          cases h
          exact .move c _ rfl rfl rfl (by rw [hc]; rfl) (by intro _ _ hw; cases hw)
      · cases h
  | drop c =>
      simp only [step] at h
      split at h
      · next caller hc =>
          split at h
          · next hsus =>
              cases h
              cases caller with
              | lead key =>
                  exact .abandon c key rfl rfl rfl (by unfold Leads; rw [hc]; rfl) ⟨c, key, rfl, hc⟩
              | start host =>
                  exact .move c _ rfl rfl rfl (by rw [hc]; rfl) (by intro _ _ hw; cases hw)
              | wait key rx =>
                  exact .move c _ rfl rfl rfl (by rw [hc]; rfl) (by intro _ _ hw; cases hw)
              | check | enter | store | publish | done | dropped => exact hsus.elim
          · cases h
      · cases h

/-- The leaders after caller `c` moved. -/
theorem leads_update {st st' : State} {c : Nat} {caller : Caller}
    (h : st'.callers = Function.update st.callers c (some caller)) (c' : Nat) (key : String) :
    Leads st' c' key ↔ if c' = c then caller.leads = some key else Leads st c' key := by
  simp only [Leads]
  rw [h]
  by_cases hc : c' = c
  · subst hc
    simp
  · rw [Function.update_of_ne hc, if_neg hc]

theorem leads_self {st st' : State} {c : Nat} {caller : Caller}
    (h : st'.callers = Function.update st.callers c (some caller)) {key : String} :
    Leads st' c key ↔ caller.leads = some key := by
  rw [leads_update h, if_pos rfl]

theorem leads_other {st st' : State} {c c' : Nat} {caller : Caller}
    (h : st'.callers = Function.update st.callers c (some caller)) (hc : c' ≠ c) {key : String} :
    Leads st' c' key ↔ Leads st c' key := by
  rw [leads_update h, if_neg hc]

/-- A caller that keeps what it leads changes no leader. -/
theorem leads_move {st st' : State} {c : Nat} {caller : Caller}
    (h : st'.callers = Function.update st.callers c (some caller))
    (hl : caller.leads = (st.callers c).bind Caller.leads) (c' : Nat) (key : String) :
    Leads st' c' key ↔ Leads st c' key := by
  by_cases hc : c' = c
  · subst hc
    rw [leads_self h, hl]
    rfl
  · exact leads_other h hc

/-- A caller that stops leading is the only one whose lead changes. -/
theorem leads_stop {st st' : State} {c : Nat} {caller : Caller}
    (h : st'.callers = Function.update st.callers c (some caller)) (hl : caller.leads = none)
    (c' : Nat) (key : String) : Leads st' c' key ↔ c' ≠ c ∧ Leads st c' key := by
  by_cases hc : c' = c
  · subst hc
    rw [leads_self h, hl]
    simp
  · rw [leads_other h hc]
    simp [hc]

/-! ## What holds in every reachable state -/

structure WF (st : State) : Prop where
  entry : ∀ c key, Leads st c key → key ∈ st.inflight
  unique : ∀ c c' key, Leads st c key → Leads st c' key → c = c'
  waiting : ∀ c key rx, st.callers c = some (.wait key rx) →
    (st.sent rx).isSome ∨ st.inflight.lookup key = some rx

theorem WF.init : WF State.init where
  entry := by intro c key h; cases h
  unique := by intro c c' key h; cases h
  waiting := by intro c key rx h; cases h

/-- A waiter after the step was one before it, or is the caller that moved. -/
theorem wait_update {st st' : State} {c : Nat} {caller : Caller}
    (h : st'.callers = Function.update st.callers c (some caller)) {c' : Nat} {key : String}
    {rx : Chan} (hw : st'.callers c' = some (.wait key rx)) :
    caller = .wait key rx ∨ st.callers c' = some (.wait key rx) := by
  rw [h] at hw
  by_cases hc : c' = c
  · subst hc
    rw [Function.update_self] at hw
    exact Or.inl (Option.some.inj hw)
  · rw [Function.update_of_ne hc] at hw
    exact Or.inr hw

theorem WF.step {st st' : State} {a : Action} (h : WF st) (hs : step idna st a = some st') :
    WF st' := by
  cases step_effect hs with
  | move c caller callers inflight sent leads waits =>
      refine ⟨?_, ?_, ?_⟩
      · intro c' key hl
        rw [inflight]
        exact h.entry c' key ((leads_move callers leads c' key).mp hl)
      · intro c₁ c₂ key h₁ h₂
        exact h.unique c₁ c₂ key ((leads_move callers leads c₁ key).mp h₁)
          ((leads_move callers leads c₂ key).mp h₂)
      · intro c' key rx hw
        rw [sent, inflight]
        rcases wait_update callers hw with hnew | hold
        · exact Or.inr (waits key rx hnew)
        · exact h.waiting c' key rx hold
  | lead c key tx callers inflight sent fresh idle =>
      have hnone : ∀ c', ¬ Leads st c' key := fun c' hl =>
        AList.lookup_eq_none.mp fresh (h.entry c' key hl)
      refine ⟨?_, ?_, ?_⟩
      · intro c' key' hl
        rw [inflight, AList.mem_insert]
        by_cases hc : c' = c
        · subst hc
          rw [leads_self callers] at hl
          exact Or.inl (Option.some.inj hl).symm
        · exact Or.inr (h.entry c' key' ((leads_other callers hc).mp hl))
      · intro c₁ c₂ key' h₁ h₂
        by_cases hc₁ : c₁ = c <;> by_cases hc₂ : c₂ = c
        · rw [hc₁, hc₂]
        · subst hc₁
          cases (leads_self callers).mp h₁
          exact absurd ((leads_other callers hc₂).mp h₂) (hnone c₂)
        · subst hc₂
          cases (leads_self callers).mp h₂
          exact absurd ((leads_other callers hc₁).mp h₁) (hnone c₁)
        · exact h.unique c₁ c₂ key' ((leads_other callers hc₁).mp h₁)
            ((leads_other callers hc₂).mp h₂)
      · intro c' key' rx hw
        rw [sent, inflight, FinMap.lookup_insert_eq]
        rcases wait_update callers hw with hnew | hold
        · cases hnew
        · rcases h.waiting c' key' rx hold with hsent | hentry
          · exact Or.inl hsent
          · right
            rw [if_neg]
            · exact hentry
            · intro hkey
              rw [hkey, fresh] at hentry
              cases hentry
  | answer c key tx result callers inflight sent entry leads =>
      refine ⟨?_, ?_, ?_⟩
      · intro c' key' hl
        obtain ⟨hne, hl⟩ := (leads_stop callers rfl c' key').mp hl
        rw [inflight, AList.mem_erase]
        refine ⟨?_, h.entry c' key' hl⟩
        intro hkey
        rw [hkey] at hl
        exact hne (h.unique c' c key hl leads)
      · intro c₁ c₂ key' h₁ h₂
        exact h.unique c₁ c₂ key' ((leads_stop callers rfl c₁ key').mp h₁).2
          ((leads_stop callers rfl c₂ key').mp h₂).2
      · intro c' key' rx hw
        rw [sent, inflight, FinMap.lookup_erase_eq]
        rcases wait_update callers hw with hnew | hold
        · cases hnew
        · by_cases hrx : rx = tx
          · subst hrx
            left
            simp
          · rw [Function.update_of_ne hrx]
            rcases h.waiting c' key' rx hold with hsent | hentry
            · exact Or.inl hsent
            · right
              rw [if_neg]
              · exact hentry
              · intro hkey
                rw [hkey, entry] at hentry
                exact hrx (Option.some.inj hentry).symm
  | unanswered c key result callers inflight sent noEntry leads =>
      exact absurd (h.entry c key leads) (AList.lookup_eq_none.mp noEntry)
  | abandon c key callers inflight sent leads drops =>
      refine ⟨?_, ?_, ?_⟩
      · intro c' key' hl
        rw [inflight]
        exact h.entry c' key' ((leads_stop callers rfl c' key').mp hl).2
      · intro c₁ c₂ key' h₁ h₂
        exact h.unique c₁ c₂ key' ((leads_stop callers rfl c₁ key').mp h₁).2
          ((leads_stop callers rfl c₂ key').mp h₂).2
      · intro c' key' rx hw
        rw [sent, inflight]
        rcases wait_update callers hw with hnew | hold
        · cases hnew
        · exact h.waiting c' key' rx hold

/-! ## Covered states -/

/-- An entry without a leader. -/
def Orphan (st : State) (key : String) : Prop := key ∈ st.inflight ∧ ∀ c, ¬ Leads st c key

theorem not_covered_iff {st : State} : ¬ Covered st ↔ ∃ key, Orphan st key := by
  simp [Covered, Orphan]

/-- A step that drops no leader leaves no entry behind. -/
theorem Covered.step {st st' : State} {a : Action} (hcov : Covered st)
    (hs : step idna st a = some st') (hkeep : ¬ DropsLeader st a) : Covered st' := by
  intro key hkey
  cases step_effect hs with
  | move c caller callers inflight sent leads waits =>
      rw [inflight] at hkey
      obtain ⟨c', hl⟩ := hcov key hkey
      exact ⟨c', (leads_move callers leads c' key).mpr hl⟩
  | lead c key' tx callers inflight sent fresh idle =>
      rw [inflight, AList.mem_insert] at hkey
      rcases hkey with hnew | hold
      · exact ⟨c, (leads_self callers).mpr (by rw [hnew]; rfl)⟩
      · obtain ⟨c', hl⟩ := hcov key hold
        have hc : c' ≠ c := by
          rintro rfl
          simp only [Leads] at hl
          rw [idle] at hl
          cases hl
        exact ⟨c', (leads_other callers hc).mpr hl⟩
  | answer c key' tx result callers inflight sent entry leads =>
      rw [inflight, AList.mem_erase] at hkey
      obtain ⟨c', hl⟩ := hcov key hkey.2
      refine ⟨c', (leads_stop callers rfl c' key).mpr ⟨?_, hl⟩⟩
      rintro rfl
      exact hkey.1 (Option.some.inj (hl.symm.trans leads))
  | unanswered c key' result callers inflight sent noEntry leads =>
      rw [inflight] at hkey
      obtain ⟨c', hl⟩ := hcov key hkey
      refine ⟨c', (leads_stop callers rfl c' key).mpr ⟨?_, hl⟩⟩
      rintro rfl
      cases Option.some.inj (hl.symm.trans leads)
      exact AList.lookup_eq_none.mp noEntry hkey
  | abandon c key' callers inflight sent leads drops => exact absurd drops hkeep

/-- Dropping a leader orphans its entry. -/
theorem orphan_of_drops {st st' : State} {a : Action} (h : WF st)
    (hs : step idna st a = some st') (hd : DropsLeader st a) : ∃ key, Orphan st' key := by
  obtain ⟨c, key, rfl, hc⟩ := hd
  have hl : Leads st c key := by unfold Leads; rw [hc]; rfl
  have hs' : st.set c .dropped = st' := by
    simpa [DohResolver.step, hc, Caller.Suspended] using hs
  subst hs'
  refine ⟨key, h.entry c key hl, ?_⟩
  intro c' hl'
  obtain ⟨hne, hl'⟩ := (leads_stop rfl rfl c' key).mp hl'
  exact hne (h.unique c' c key hl' hl)

/-- No step gives an orphaned entry a leader or removes it. -/
theorem Orphan.step {st st' : State} {a : Action} {key : String} (ho : Orphan st key)
    (hs : step idna st a = some st') : Orphan st' key := by
  obtain ⟨hkey, hno⟩ := ho
  cases step_effect hs with
  | move c caller callers inflight sent leads waits =>
      exact ⟨inflight ▸ hkey, fun c' hl => hno c' ((leads_move callers leads c' key).mp hl)⟩
  | lead c key' tx callers inflight sent fresh idle =>
      have hne : key ≠ key' := by
        rintro rfl
        exact AList.lookup_eq_none.mp fresh hkey
      refine ⟨by rw [inflight, AList.mem_insert]; exact Or.inr hkey, fun c' hl => ?_⟩
      by_cases hc : c' = c
      · subst hc
        exact hne (Option.some.inj ((leads_self callers).mp hl)).symm
      · exact hno c' ((leads_other callers hc).mp hl)
  | answer c key' tx result callers inflight sent entry leads =>
      have hne : key ≠ key' := by
        rintro rfl
        exact hno c leads
      exact ⟨by rw [inflight, AList.mem_erase]; exact ⟨hne, hkey⟩,
        fun c' hl => hno c' ((leads_stop callers rfl c' key).mp hl).2⟩
  | unanswered c key' result callers inflight sent noEntry leads =>
      exact ⟨inflight ▸ hkey, fun c' hl => hno c' ((leads_stop callers rfl c' key).mp hl).2⟩
  | abandon c key' callers inflight sent leads drops =>
      exact ⟨inflight ▸ hkey, fun c' hl => hno c' ((leads_stop callers rfl c' key).mp hl).2⟩

/-! ## Runs -/

variable (idna) in
/-- One step of the callers. -/
def Fires (st : State) (a : Action) (st' : State) : Prop := step idna st a = some st'

variable (idna) in
/-- A step that drops no leader. -/
def FiresKeeping (st : State) (a : Action) (st' : State) : Prop :=
  step idna st a = some st' ∧ ¬ DropsLeader st a

theorem run_wf {as : List Action} {t : State} (h : Run (Fires idna) .init as t) : WF t :=
  h.invariant (I := WF) (fun hwf hs => hwf.step hs) WF.init

theorem covered_of_keeping {as : List Action} {t : State}
    (h : Run (FiresKeeping idna) .init as t) : Covered t :=
  h.invariant (I := Covered) (fun hcov hs => hcov.step hs.1 hs.2) (by
    intro key hkey
    exact absurd hkey (AList.notMem_empty key))

/-- A run ends with every in-flight entry covered by a live leader, and with
every waiter answered or behind such a leader, exactly when none of its steps
drops a leader at its await point. -/
theorem covered_iff {as : List Action} {t : State} (h : Run (Fires idna) .init as t) :
    (Covered t ∧ ∀ c key rx, t.callers c = some (.wait key rx) →
      (t.sent rx).isSome ∨ t.inflight.lookup key = some rx ∧ ∃ c', Leads t c' key) ↔
    Run (FiresKeeping idna) .init as t := by
  constructor
  · rintro ⟨hcov, -⟩
    induction h with
    | nil => exact .nil
    | @snoc as t u a hr hs ih =>
        have hcov' : Covered t := by
          by_contra hn
          obtain ⟨key, ho⟩ := not_covered_iff.mp hn
          exact not_covered_iff.mpr ⟨key, ho.step hs⟩ hcov
        have hkeep : ¬ DropsLeader t a := fun hd =>
          not_covered_iff.mpr (orphan_of_drops (run_wf hr) hs hd) hcov
        exact .snoc (ih hcov') ⟨hs, hkeep⟩
  · intro hk
    have hcov := covered_of_keeping hk
    refine ⟨hcov, ?_⟩
    intro c key rx hw
    rcases (run_wf h).waiting c key rx hw with hsent | hentry
    · exact Or.inl hsent
    · exact Or.inr ⟨hentry, hcov key (FinMap.mem_of_lookup hentry)⟩

/-! ## A dropped leader -/

/-- Two callers of one host: the first takes the lead, the second waits. -/
def leadAndWait (host : String) : List Action :=
  let r : Readings := ⟨0, 0, id⟩
  [.call 0 host, .run 0 r, .run 0 r, .run 0 r, .call 1 host, .run 1 r, .run 1 r, .run 1 r]

/-- Dropping the first of two callers leaves the entry without a leader and the
second caller waiting on a silent channel. -/
theorem covered_fails :
    ∃ as t, Run (Fires some) State.init as t ∧ ¬ Covered t ∧
      t.callers 1 = some (.wait "a.b" 0) ∧ t.sent 0 = none := by
  have heval : ((leadAndWait "a.b").foldlM (step some) State.init).map
      (fun s => (s.callers 0, s.callers 1, s.sent 0)) =
      some (some (.lead "a.b"), some (.wait "a.b" 0), none) := by decide +kernel
  obtain ⟨s, hs, hv⟩ := Option.map_eq_some_iff.mp heval
  obtain ⟨h0, h1, hsent⟩ : s.callers 0 = some (.lead "a.b") ∧
      s.callers 1 = some (.wait "a.b" 0) ∧ s.sent 0 = none := by
    simpa using hv
  have hrun : Run (Fires some) State.init (leadAndWait "a.b") s := run_of_foldlM hs
  have hdrop : step some s (.drop 0) = some (s.set 0 .dropped) := by
    simp [step, h0, Caller.Suspended]
  refine ⟨_, _, .snoc hrun hdrop, ?_, h1, hsent⟩
  exact not_covered_iff.mpr (orphan_of_drops (run_wf hrun) hdrop ⟨0, "a.b", rfl, h0⟩)

/-- The same two callers without the drop. -/
theorem covered_iff_leadAndWait :
    ∃ t, Run (Fires some) State.init (leadAndWait "a.b") t ∧
      ((Covered t ∧ ∀ c key rx, t.callers c = some (.wait key rx) →
        (t.sent rx).isSome ∨ t.inflight.lookup key = some rx ∧ ∃ c', Leads t c' key) ↔
        Run (FiresKeeping some) .init (leadAndWait "a.b") t) := by
  have heval : ((leadAndWait "a.b").foldlM (step some) State.init).isSome := by decide +kernel
  obtain ⟨t, ht⟩ := Option.isSome_iff_exists.mp heval
  exact ⟨t, run_of_foldlM ht, covered_iff (run_of_foldlM ht)⟩

end DohResolver

end RustClash
