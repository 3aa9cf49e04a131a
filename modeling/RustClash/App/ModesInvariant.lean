import RustClash.App.Modes

/-!
# Undisturbed mode switches exclude each other

`Inv` says who will put a disagreement right: where the TUN is up unannounced, a
task that announces or stops it; where it is down but shown as on, a task that will
report so; where the listener is silent beside a TUN that is down, a task that will
start it again.  With no task pending there is no disagreement.  Every undisturbed
step keeps the invariant; a toggle at the wrong moment breaks it for good.
-/

namespace RustClash

namespace Modes

/-! ## What tasks are for -/

/-- The task announces a running TUN or stops it. -/
def Task.raises : Task → Bool
  | .startDone ok => ok
  | .stop _ => true
  | _ => false

/-- The task will report that enhance mode is off. -/
def Task.lowers : Task → Bool
  | .stop reports => reports
  | .listen reports => reports
  | .stopDone => true
  | _ => false

/-- The task starts the listener again, unless it gets the TUN up. -/
def Task.relistens : Task → Bool
  | .startDone ok => ok
  | .stopDone => false
  | _ => true

def Task.isStarting : Task → Bool
  | .starting _ => true
  | _ => false

structure Inv (st : State) : Prop where
  modes : ¬ (st.proxyOn = true ∧ st.enhanceOn = true)
  proxy : st.systemProxy = st.proxyOn
  up : st.running = true → st.enhanceOn = false → ∃ t ∈ st.tasks, t.raises = true
  down : st.running = false → st.enhanceOn = true → ∃ t ∈ st.tasks, t.lowers = true
  silent : st.listening = false → st.running = false → ∃ t ∈ st.tasks, t.relistens = true
  claimed : st.tasks.countP Task.isStarting = st.starting.toNat
  idle : st.starting = true → st.running = false

theorem inv_init : Inv init := by
  constructor <;> simp [init]

/-- With nothing pending the modes are exclusive. -/
theorem Inv.exclusive {st : State} (h : Inv st) (hq : st.tasks = []) : Exclusive st := by
  have hup : st.running = true → st.enhanceOn = true := by
    intro hr
    by_contra he
    obtain ⟨t, ht, _⟩ := h.up hr (by simpa using he)
    simp [hq] at ht
  have hdown : st.enhanceOn = true → st.running = true := by
    intro he
    by_contra hr
    obtain ⟨t, ht, _⟩ := h.down (by simpa using hr) he
    simp [hq] at ht
  refine ⟨h.modes, ⟨hdown, hup⟩, fun hs => ?_⟩
  have hproxy : st.proxyOn = true := h.proxy ▸ hs
  have hrun : st.running = false := by
    by_contra hr
    exact h.modes ⟨hproxy, hup (by simpa using hr)⟩
  refine ⟨hrun, ?_⟩
  by_contra hl
  obtain ⟨t, ht, _⟩ := h.silent (by simpa using hl) hrun
  simp [hq] at ht

/-! ## The toggles -/

theorem Inv.toggleProxy {st : State} (h : Inv st) : Inv st.toggleProxy := by
  obtain ⟨hmodes, hproxy, hup, hdown, hsilent, hclaimed, hidle⟩ := h
  by_cases hon : st.proxyOn = false ∧ st.enhanceOn = true
  · obtain ⟨hp, he⟩ := hon
    have hst : st.toggleProxy = { st with
        proxyOn := true, enhanceOn := false, systemProxy := true,
        tasks := st.tasks ++ [.stop false] } := by
      simp [State.toggleProxy, State.spawn, State.setSystemProxy, hp, he]
    rw [hst]
    refine ⟨by simp, rfl, ?_, by simp, ?_, by simpa [Task.isStarting] using hclaimed, hidle⟩
    · exact fun _ _ => ⟨.stop false, by simp, rfl⟩
    · exact fun _ _ => ⟨.stop false, by simp, rfl⟩
  · have hst : st.toggleProxy = { st with systemProxy := !st.proxyOn, proxyOn := !st.proxyOn } := by
      simp only [State.toggleProxy, State.setSystemProxy]
      rw [if_neg (by simpa using hon)]
    rw [hst]
    refine ⟨?_, rfl, hup, hdown, hsilent, hclaimed, hidle⟩
    rintro ⟨hp, he⟩
    exact hon ⟨by simpa using hp, he⟩

theorem Inv.beginEnhance {st : State} (h : Inv st) {attempts : Nat}
    (hproxy : st.running = true → st.proxyOn = false) (he : st.enhanceOn = false) :
    Inv (st.beginEnhance attempts) := by
  simp only [State.beginEnhance]
  split
  · next hr =>
      obtain ⟨hmodes, hsys, hup, hdown, hsilent, hclaimed, hidle⟩ := h
      refine ⟨?_, hsys, by simp, ?_, ?_, hclaimed, hidle⟩
      · simp [hproxy hr]
      · simp [hr]
      · simp [hr]
  · next hr =>
      split
      · exact h
      · obtain ⟨hmodes, hsys, hup, hdown, hsilent, hclaimed, hidle⟩ := h
        constructor <;> simp only [State.spawn, State.setSystemProxy]
        · simp
        · exact fun hrun => absurd hrun hr
        · simp [he]
        · intro _ _
          exact ⟨.silence (max attempts 1), by simp, rfl⟩
        · simpa [Task.isStarting] using hclaimed
        · exact hidle

theorem Inv.stopEnhance {st : State} (h : Inv st) : Inv st.stopEnhance := by
  obtain ⟨hmodes, hsys, hup, hdown, hsilent, hclaimed, hidle⟩ := h
  constructor <;> simp only [State.stopEnhance, State.spawn]
  · exact hmodes
  · exact hsys
  · exact fun _ _ => ⟨.stop true, by simp, rfl⟩
  · exact fun _ _ => ⟨.stop true, by simp, rfl⟩
  · exact fun _ _ => ⟨.stop true, by simp, rfl⟩
  · simpa [Task.isStarting] using hclaimed
  · exact hidle

/-! ## The tasks -/

/-- A step of the task at `i` changes the state and replaces the task where it stands. -/
theorem step_task {st st' : State} {i : Nat} {ok : Bool} (h : step st (.task i ok) = some st') :
    ∃ before t after st₁ next, st.tasks = before ++ t :: after ∧ st.tasks[i]? = some t ∧
      st.advance ok t = some (st₁, next) ∧
      st' = { st₁ with tasks := before ++ next.toList ++ after } := by
  simp only [step, bind, Option.bind] at h
  cases ht : st.tasks[i]? with
  | none => simp [ht] at h
  | some t =>
      simp only [ht] at h
      obtain ⟨hi, rfl⟩ := List.getElem?_eq_some_iff.mp ht
      cases ha : st.advance ok st.tasks[i] with
      | none => simp [ha] at h
      | some r =>
          simp only [ha] at h
          refine ⟨st.tasks.take i, st.tasks[i], st.tasks.drop (i + 1), r.1, r.2, ?_, rfl, ha, ?_⟩
          · rw [List.getElem_cons_drop, List.take_append_drop]
          · exact (Option.some.inj h).symm

/-- A task that was there is still there, unless it is the one replaced. -/
theorem exists_resumed {before after : List Task} {t : Task} {next : Option Task} {p : Task → Bool}
    (h : ∃ x ∈ before ++ t :: after, p x = true)
    (ht : p t = true → ∃ t' ∈ next, p t' = true) :
    ∃ x ∈ before ++ next.toList ++ after, p x = true := by
  obtain ⟨x, hx, hpx⟩ := h
  rcases List.mem_append.mp hx with hx | hx
  · exact ⟨x, by simp [hx], hpx⟩
  · rcases List.mem_cons.mp hx with rfl | hx
    · obtain ⟨t', hn, hp⟩ := ht hpx
      exact ⟨t', by simp [Option.mem_def.mp hn], hp⟩
    · exact ⟨x, by simp [hx], hpx⟩

/-- How the number of starts changes with a task. -/
theorem countP_resumed {before after : List Task} {t : Task} {next : Option Task} {n m k : Nat}
    (h : (before ++ t :: after).countP Task.isStarting = n)
    (ht : [t].countP Task.isStarting = m) (hn : next.toList.countP Task.isStarting = k) :
    (before ++ next.toList ++ after).countP Task.isStarting + m = n + k := by
  simp only [List.countP_append, List.countP_cons, List.countP_nil, hn] at h ht ⊢
  omega

theorem countP_kept {before after : List Task} {t : Task} {next : Option Task} {n : Nat}
    (h : (before ++ t :: after).countP Task.isStarting = n)
    (hn : next.toList.countP Task.isStarting = [t].countP Task.isStarting) :
    (before ++ next.toList ++ after).countP Task.isStarting = n :=
  Nat.add_right_cancel (countP_resumed h rfl hn)

theorem Inv.task {st st' : State} {i : Nat} {ok : Bool} (h : Inv st)
    (hu : Undisturbed st (.task i ok)) (hs : step st (.task i ok) = some st') : Inv st' := by
  obtain ⟨before, t, after, st₁, next, htasks, hi, ha, rfl⟩ := step_task hs
  obtain ⟨hmodes, hsys, hup, hdown, hsilent, hclaimed, hidle⟩ := h
  simp only [Undisturbed, hi] at hu
  rw [htasks] at hup hdown hsilent hclaimed
  cases t with
  | silence n =>
      obtain ⟨rfl, rfl⟩ := Prod.mk.inj (Option.some.inj ha)
      exact ⟨hmodes, hsys, fun hr he => exists_resumed (hup hr he) (by simp [Task.raises]),
        fun hr he => exists_resumed (hdown hr he) (by simp [Task.lowers]),
        fun _ _ => ⟨.start n, by simp, rfl⟩, countP_kept hclaimed rfl, hidle⟩
  | start n =>
      simp only [State.advance] at ha
      split at ha
      · obtain ⟨rfl, rfl⟩ := Prod.mk.inj (Option.some.inj ha)
        exact ⟨hmodes, hsys, fun _ _ => ⟨.startDone true, by simp, rfl⟩,
          fun hr he => exists_resumed (hdown hr he) (by simp [Task.lowers]),
          fun _ _ => ⟨.startDone true, by simp, rfl⟩, countP_kept hclaimed rfl, hidle⟩
      · next hrun =>
          split at ha
          · obtain ⟨rfl, rfl⟩ := Prod.mk.inj (Option.some.inj ha)
            exact ⟨hmodes, hsys, fun hr he => exists_resumed (hup hr he) (by simp [Task.raises]),
              fun hr he => exists_resumed (hdown hr he) (by simp [Task.lowers]),
              fun _ _ => ⟨.waiting n, by simp, rfl⟩, countP_kept hclaimed rfl, hidle⟩
          · next hfree =>
              obtain ⟨rfl, rfl⟩ := Prod.mk.inj (Option.some.inj ha)
              have hone := @countP_resumed _ _ _ (some (.starting n)) _ 0 1 hclaimed rfl rfl
              refine ⟨hmodes, hsys, fun hr he => exists_resumed (hup hr he) (by simp [Task.raises]),
                fun hr he => exists_resumed (hdown hr he) (by simp [Task.lowers]),
                fun _ _ => ⟨.starting n, by simp, rfl⟩, ?_, fun _ => by simpa using hrun⟩
              rw [show st.starting = false by simpa using hfree] at hone
              exact hone
  | starting n =>
      have hclaim : st.starting = true := by
        by_contra hfree
        have hnone := @countP_resumed before after (.starting n) none _ 1 0 hclaimed rfl rfl
        rw [show st.starting = false by simpa using hfree] at hnone
        simp only [Bool.toNat_false] at hnone
        omega
      have hrun := hidle hclaim
      have hnone : ∀ next : Option Task, next.toList.countP Task.isStarting = 0 →
          (before ++ next.toList ++ after).countP Task.isStarting = 0 := by
        intro next hn
        have := @countP_resumed before after (.starting n) next _ 1 0 hclaimed rfl hn
        rw [hclaim] at this
        simp only [Bool.toNat_true] at this
        omega
      simp only [State.advance] at ha
      split at ha
      · obtain ⟨rfl, rfl⟩ := Prod.mk.inj (Option.some.inj ha)
        exact ⟨hmodes, hsys, fun _ _ => ⟨.startDone true, by simp, rfl⟩, by simp, by simp,
          hnone _ rfl, by simp⟩
      · obtain ⟨rfl, rfl⟩ := Prod.mk.inj (Option.some.inj ha)
        exact ⟨hmodes, hsys, by simp,
          fun _ he => exists_resumed (hdown hrun he) (by simp [Task.lowers]),
          fun _ _ => ⟨.startFailed n, by simp, rfl⟩, hnone _ rfl, by simp⟩
  | waiting n =>
      simp only [State.advance] at ha
      split at ha
      · cases ha
      · split at ha
        · obtain ⟨rfl, rfl⟩ := Prod.mk.inj (Option.some.inj ha)
          exact ⟨hmodes, hsys, fun _ _ => ⟨.startDone true, by simp, rfl⟩,
            fun hr he => exists_resumed (hdown hr he) (by simp [Task.lowers]),
            fun _ _ => ⟨.startDone true, by simp, rfl⟩, countP_kept hclaimed rfl, hidle⟩
        · obtain ⟨rfl, rfl⟩ := Prod.mk.inj (Option.some.inj ha)
          exact ⟨hmodes, hsys, fun hr he => exists_resumed (hup hr he) (by simp [Task.raises]),
            fun hr he => exists_resumed (hdown hr he) (by simp [Task.lowers]),
            fun _ _ => ⟨.startFailed n, by simp, rfl⟩, countP_kept hclaimed rfl, hidle⟩
  | startFailed n =>
      obtain ⟨rfl, rfl⟩ := Prod.mk.inj (Option.some.inj ha)
      refine ⟨hmodes, hsys, fun hr he => exists_resumed (hup hr he) (by simp [Task.raises]),
        fun hr he => exists_resumed (hdown hr he) (by simp [Task.lowers]), by simp,
        countP_kept hclaimed ?_, hidle⟩
      split <;> rfl
  | startDone ok' =>
      obtain ⟨rfl, rfl⟩ := Prod.mk.inj (Option.some.inj ha)
      cases ok' with
      | true =>
          -- the report of a start that succeeded agrees with the TUN
          exact ⟨by simp [hu.2], hsys, by simp, by simp [hu.1], by simp [hu.1],
            countP_kept hclaimed rfl, hidle⟩
      | false =>
          refine ⟨by simp, hsys, ?_, by simp,
            fun hl hr => exists_resumed (hsilent hl hr) (by simp [Task.relistens]),
            countP_kept hclaimed rfl, hidle⟩
          intro hr
          exact absurd hr (by simp [hu])
  | stop reports =>
      obtain ⟨rfl, rfl⟩ := Prod.mk.inj (Option.some.inj ha)
      refine ⟨hmodes, hsys, by simp, ?_, fun _ _ => ⟨.listen reports, by simp, rfl⟩,
        countP_kept hclaimed rfl, fun _ => rfl⟩
      intro _ he
      cases reports with
      | true => exact ⟨.listen true, by simp, rfl⟩
      | false => exact absurd he (by simp [hu])
  | listen reports =>
      obtain ⟨rfl, rfl⟩ := Prod.mk.inj (Option.some.inj ha)
      refine ⟨hmodes, hsys, fun hr he => exists_resumed (hup hr he) (by simp [Task.raises]),
        fun hr he => exists_resumed (hdown hr he) ?_, by simp, countP_kept hclaimed ?_, hidle⟩
      · cases reports <;> simp [Task.lowers]
      · cases reports <;> rfl
  | stopDone =>
      obtain ⟨rfl, rfl⟩ := Prod.mk.inj (Option.some.inj ha)
      refine ⟨by simp, hsys, ?_, by simp,
        fun hl hr => exists_resumed (hsilent hl hr) (by simp [Task.relistens]),
        countP_kept hclaimed rfl, hidle⟩
      intro hr
      exact absurd hr (by simp [hu])

/-! ## Runs -/

instance (st : State) (e : Event) : Decidable (Undisturbed st e) := by
  cases e <;> simp only [Undisturbed]
  · exact inferInstance
  · exact inferInstance
  · split <;> exact inferInstance

/-- An undisturbed step of the program. -/
def UndisturbedStep (st : State) (e : Event) (st' : State) : Prop :=
  step st e = some st' ∧ Undisturbed st e

theorem Inv.step {st st' : State} {e : Event} (h : Inv st) (hs : UndisturbedStep st e st') :
    Inv st' := by
  obtain ⟨hs, hu⟩ := hs
  cases e with
  | toggleProxy =>
      cases hs
      exact h.toggleProxy
  | toggleEnhance available =>
      cases hs
      simp only [State.toggleEnhance]
      split
      · exact h
      · next hav =>
          split
          · next he =>
              have he : st.enhanceOn = false := by simpa using he
              exact h.beginEnhance (hu (by simpa using hav) he) he
          · exact h.stopEnhance
  | task i ok => exact h.task hu hs

/-- In a run whose steps are all undisturbed, proxy mode and enhance mode exclude each
other whenever nothing is pending. -/
theorem exclusive_of_undisturbed {events : List Event} {st : State}
    (h : Run UndisturbedStep init events st) (hq : st.tasks = []) : Exclusive st :=
  (h.invariant (fun hi hs => hi.step hs) inv_init).exclusive hq

/-- Enhance mode is switched on and nothing disturbs it. -/
theorem exclusive_after_start : ∃ st, Run UndisturbedStep init
    [.toggleEnhance true, .task 0 true, .task 0 true, .task 0 true, .task 0 true] st ∧
      st.enhanceOn = true ∧ Exclusive st := by
  have hrun : [Event.toggleEnhance true, .task 0 true, .task 0 true, .task 0 true,
      .task 0 true].foldlM (fun st e => if Undisturbed st e then step st e else none) init =
      some { init with enhanceOn := true, listening := false, running := true } := by decide
  have hrun : Run UndisturbedStep init _ _ := run_of_guarded hrun
  exact ⟨_, hrun, rfl, exclusive_of_undisturbed hrun rfl⟩

/-- Proxy mode is switched on while the TUN is being started, and the start succeeds:
both modes stay on, with the system proxy set to a listener that is down. -/
theorem not_exclusive : ¬ ∀ st, Reachable st → st.tasks = [] → Exclusive st := by
  intro h
  have hrun : [Event.toggleEnhance true, .task 0 true, .task 0 true, .toggleProxy, .task 0 true,
      .task 0 true].foldlM step init = some { init with
        proxyOn := true, enhanceOn := true, systemProxy := true, listening := false,
        running := true } := by decide
  exact (h _ ⟨_, run_of_foldlM hrun⟩ rfl).modes ⟨rfl, rfl⟩

end Modes

end RustClash
