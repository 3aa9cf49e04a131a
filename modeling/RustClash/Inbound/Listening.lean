import RustClash.Lib.Latest
import RustClash.Lib.Lts

/-!
# The listener of the inbound

`set_listening` binds the port and spawns a task that accepts connections, or cancels and
aborts that task.  It keeps a flag, the token of the task, its handle and the socket apart
and changes them one after the other, so that calls can run into each other.  The socket is
released when the task has ended, some time after it was told to.
-/

namespace RustClash

namespace Listening

/-! ## State -/

/-- Where a call stands.  Between `store` and `spawn` it holds the socket it has bound. -/
inductive Phase where
  | load
  | bind
  | store
  | token
  | spawn (token : Nat)
  | keep (task : Nat)
  | clear
  | cancel
  | abortActive
  | take
  | returned
  | failed
deriving DecidableEq, Repr

/-- A call; `alone` remembers that no other was pending when it was made. -/
structure Call where
  phase : Phase
  alone : Bool
deriving DecidableEq, Repr

/-- A task that accepts connections, with the token it was given. -/
structure Task where
  token : Nat
  aborted : Bool := false
  released : Bool := false
deriving DecidableEq, Repr

/-- The service.  Tokens are named by their place in `tokens`, which says of each if it is
cancelled; `conn` counts the tokens that connections have run under. -/
structure State where
  listening : Bool
  tokens : List Bool
  listen : Nat
  conn : Nat
  tasks : List Task
  handle : Option Nat
  calls : List Call
deriving DecidableEq, Repr

def init : State where
  listening := false
  tokens := [false]
  listen := 0
  conn := 0
  tasks := []
  handle := none
  calls := []

def Call.Done (c : Call) : Prop := c.phase = .returned ∨ c.phase = .failed

instance (c : Call) : Decidable c.Done := inferInstanceAs (Decidable (_ ∨ _))

/-- The call holds a socket. -/
def Phase.holds : Phase → Bool
  | .store => true
  | .token => true
  | .spawn _ => true
  | _ => false

namespace State

/-- The task has been told to end. -/
def Dying (st : State) (t : Task) : Prop := t.aborted = true ∨ st.tokens[t.token]? = some true

instance (st : State) (t : Task) : Decidable (st.Dying t) := inferInstanceAs (Decidable (_ ∨ _))

def PortFree (st : State) : Prop :=
  (∀ c ∈ st.calls, c.phase.holds = false) ∧ ∀ t ∈ st.tasks, t.released = true

instance (st : State) : Decidable st.PortFree := inferInstanceAs (Decidable (_ ∧ _))

/-! ## Steps -/

def setListening (st : State) (on : Bool) : State := { st with calls := st.calls ++ [{
  phase := if on then .load else .clear
  alone := decide (∀ c ∈ st.calls, c.Done) }] }

/-- The next step of a call: what it changes, and where the call stands then. -/
def advance (st : State) : Phase → Option (State × Phase)
  | .load => some (st, if st.listening then .returned else .bind)
  | .bind => some (st, if st.PortFree then .store else .failed)
  | .store => some ({ st with listening := true }, .token)
  | .token =>
      some ({ st with tokens := st.tokens ++ [false], listen := st.tokens.length },
        .spawn st.tokens.length)
  | .spawn token =>
      some ({ st with tasks := st.tasks ++ [{ token }] }, .keep st.tasks.length)
  | .keep task => some ({ st with handle := some task }, .returned)
  | .clear => some ({ st with listening := false }, .cancel)
  | .cancel => some ({ st with tokens := st.tokens.set st.listen true }, .abortActive)
  | .abortActive => some ({ st with conn := st.conn + 1 }, .take)
  | .take =>
      let tasks := match st.handle with
        | none => st.tasks
        | some k => st.tasks.modify k fun t => { t with aborted := true }
      some ({ st with handle := none, tasks }, .returned)
  | .returned => none
  | .failed => none

end State

inductive Event where
  | setListening (on : Bool)
  /-- The call at `i` takes its next step. -/
  | call (i : Nat)
  /-- The task at `k` ends and drops its socket. -/
  | release (k : Nat)
deriving DecidableEq, Repr

def step (st : State) : Event → Option State
  | .setListening on => some (st.setListening on)
  | .call i => do
      let c ← st.calls[i]?
      let (st', phase) ← st.advance c.phase
      return { st' with calls := st.calls.set i { c with phase } }
  | .release k => do
      let t ← st.tasks[k]?
      if st.Dying t then some { st with tasks := st.tasks.set k { t with released := true } }
      else none

/-! ## What is promised -/

/-- A task accepts connections and has not been told to end. -/
def State.Serves (st : State) : Prop := ∃ t ∈ st.tasks, t.released = false ∧ ¬ st.Dying t

structure Sound (st : State) : Prop where
  listening : (∀ c ∈ st.calls, c.Done) → (st.listening = true ↔ st.Serves)
  succeeds : ∀ c ∈ st.calls, c.alone = true → c.phase ≠ .failed

/-- Calls are made one after the other, and the port is asked for when it is free. -/
def Settled (st : State) : Event → Prop
  | .setListening on => (∀ c ∈ st.calls, c.Done) ∧
      (on = true → st.listening = false → ∀ t ∈ st.tasks, t.released = true)
  | _ => True

def SettledSteps (st : State) (e : Event) (st' : State) : Prop :=
  step st e = some st' ∧ Settled st e

/-! ## The call under way -/

/-- What the state is like where a call stands. -/
def State.Fits (st : State) : Phase → Prop
  | .load => (st.listening = true ↔ st.Serves) ∧
      (st.listening = false → ∀ t ∈ st.tasks, t.released = true)
  | .bind => st.listening = false ∧ ∀ t ∈ st.tasks, t.released = true
  | .store => st.listening = false ∧ ∀ t ∈ st.tasks, t.released = true
  | .token => st.listening = true ∧ ∀ t ∈ st.tasks, t.released = true
  | .spawn token => st.listening = true ∧ (∀ t ∈ st.tasks, t.released = true) ∧
      token = st.listen ∧ st.tokens[token]? = some false
  | .keep _ => st.listening = true ↔ st.Serves
  | .clear => True
  | .cancel => st.listening = false
  | .abortActive => st.listening = false ∧ ¬ st.Serves
  | .take => st.listening = false ∧ ¬ st.Serves
  | .returned => st.listening = true ↔ st.Serves
  | .failed => False

structure Inv (st : State) : Prop where
  earlier : Latest (·.phase = .returned) st.calls
  last : ∀ c, st.calls.getLast? = some c → st.Fits c.phase
  idle : st.calls = [] → (st.listening = true ↔ st.Serves)
  valid : st.listen < st.tokens.length
  /-- Cancelling the current token reaches every task that serves. -/
  current : ∀ t ∈ st.tasks, t.released = false → ¬ st.Dying t → t.token = st.listen

variable {st st₁ : State}

theorem inv_init : Inv init := by
  refine ⟨.nil, by simp [init], fun _ => ?_, Nat.one_pos, by simp [init]⟩
  simp [init, State.Serves]

/-- Once the current token is cancelled, nothing serves. -/
theorem Inv.not_serves_cancelled (h : Inv st) :
    ¬ { st with tokens := st.tokens.set st.listen true }.Serves := by
  rintro ⟨t, ht, hrel, hlive⟩
  have hkept : ¬ st.Dying t := by
    rintro (haborted | htoken)
    · exact hlive (.inl haborted)
    · refine hlive (.inr ?_)
      show (st.tokens.set st.listen true)[t.token]? = some true
      rw [List.getElem?_set]
      split
      · rw [if_pos h.valid]
      · exact htoken
  refine hlive (.inr ?_)
  rw [h.current t ht hrel hkept]
  exact List.getElem?_set_self h.valid

/-- What `take` leaves serving has served before. -/
theorem serves_of_aborted {k : Nat}
    (h : { st with
      handle := none, tasks := st.tasks.modify k fun t => { t with aborted := true } }.Serves) :
    st.Serves := by
  obtain ⟨t, ht, hrel, hlive⟩ := h
  obtain ⟨j, hj⟩ := List.mem_iff_getElem?.mp ht
  have hj : (st.tasks.modify k fun t => { t with aborted := true })[j]? = some t := hj
  rw [List.getElem?_modify] at hj
  obtain ⟨t₀, ht₀, heq⟩ := Option.map_eq_some_iff.mp hj
  split at heq
  · subst heq
    exact absurd (.inl rfl) hlive
  · subst heq
    exact ⟨_, List.mem_of_getElem? ht₀, hrel, hlive⟩

/-! ## Steps keep the invariant -/

/-- The step of a call that found the port free. -/
theorem Inv.advance (h : Inv st) {p p' : Phase} (hp : st.Fits p) (hfree : p = .bind → st.PortFree)
    (ha : st.advance p = some (st₁, p')) : st₁.Fits p' ∧ st₁.listen < st₁.tokens.length ∧
      ∀ t ∈ st₁.tasks, t.released = false → ¬ st₁.Dying t → t.token = st₁.listen := by
  cases p with
  | load =>
      cases ha
      refine ⟨?_, h.valid, h.current⟩
      split
      · exact hp.1
      · next hl => exact ⟨by simpa using hl, hp.2 (by simpa using hl)⟩
  | bind =>
      cases ha
      rw [if_pos (hfree rfl)]
      exact ⟨hp, h.valid, h.current⟩
  | store =>
      cases ha
      exact ⟨⟨rfl, hp.2⟩, h.valid, h.current⟩
  | token =>
      cases ha
      refine ⟨⟨hp.1, hp.2, rfl, List.getElem?_concat_length⟩, by simp, fun t ht hrel _ => ?_⟩
      simp [hp.2 t ht] at hrel
  | spawn token =>
      cases ha
      obtain ⟨hl, hall, rfl, hlive⟩ := hp
      refine ⟨?_, h.valid, fun t ht hrel _ => ?_⟩
      · refine iff_of_true hl ⟨{ token := st.listen }, by simp, rfl, ?_⟩
        rintro (haborted | htoken)
        · cases haborted
        · exact absurd (hlive.symm.trans htoken) (by simp)
      · rcases List.mem_append.mp ht with ht | ht
        · simp [hall t ht] at hrel
        · rw [List.mem_singleton.mp ht]
  | keep task =>
      cases ha
      exact ⟨hp, h.valid, h.current⟩
  | clear =>
      cases ha
      exact ⟨rfl, h.valid, h.current⟩
  | cancel =>
      cases ha
      have hnone := h.not_serves_cancelled
      refine ⟨⟨hp, hnone⟩, by simpa using h.valid, fun t ht hrel hlive => ?_⟩
      exact absurd ⟨t, ht, hrel, hlive⟩ hnone
  | abortActive =>
      cases ha
      exact ⟨hp, h.valid, h.current⟩
  | take =>
      obtain ⟨hl, hnone⟩ := hp
      simp only [State.advance] at ha
      cases hk : st.handle with
      | none =>
          rw [hk] at ha
          cases ha
          exact ⟨iff_of_false (by simp [hl]) hnone, h.valid, h.current⟩
      | some k =>
          rw [hk] at ha
          cases ha
          have hnone' := fun hserves => hnone (serves_of_aborted (k := k) hserves)
          refine ⟨iff_of_false (by simp [hl]) hnone', h.valid, fun t ht hrel hlive => ?_⟩
          exact absurd ⟨t, ht, hrel, hlive⟩ hnone'
  | returned => cases ha
  | failed => cases ha

/-- A task that ends was not serving any more. -/
theorem serves_released {k : Nat} {t : Task} (hk : st.tasks[k]? = some t) (ht : st.Dying t) :
    { st with tasks := st.tasks.set k { t with released := true } }.Serves ↔ st.Serves := by
  constructor
  · rintro ⟨t', ht', hrel, hlive⟩
    rcases List.mem_or_eq_of_mem_set ht' with ht' | rfl
    · exact ⟨t', ht', hrel, hlive⟩
    · cases hrel
  · rintro ⟨t', ht', hrel, hlive⟩
    obtain ⟨j, hj⟩ := List.mem_iff_getElem?.mp ht'
    have hne : k ≠ j := by
      rintro rfl
      rw [hk] at hj
      cases hj
      exact hlive ht
    exact ⟨t', List.mem_of_getElem? ((List.getElem?_set_ne hne).trans hj), hrel, hlive⟩

theorem forall_released {k : Nat} {t : Task} (h : ∀ t ∈ st.tasks, t.released = true) :
    ∀ t' ∈ st.tasks.set k { t with released := true }, t'.released = true := by
  intro t' ht'
  rcases List.mem_or_eq_of_mem_set ht' with ht' | rfl
  · exact h t' ht'
  · rfl

theorem Inv.release (h : Inv st) {k : Nat} {t : Task} (hk : st.tasks[k]? = some t)
    (ht : st.Dying t) : Inv { st with tasks := st.tasks.set k { t with released := true } } := by
  have hserves := serves_released hk ht
  refine ⟨h.earlier, fun c hc => ?_, fun hnil => ?_, h.valid, fun t' ht' hrel hlive => ?_⟩
  · have hfits := h.last c hc
    cases hp : c.phase with
    | load =>
        rw [hp] at hfits
        exact ⟨hfits.1.trans hserves.symm, fun hl => forall_released (hfits.2 hl)⟩
    | bind =>
        rw [hp] at hfits
        exact ⟨hfits.1, forall_released hfits.2⟩
    | store =>
        rw [hp] at hfits
        exact ⟨hfits.1, forall_released hfits.2⟩
    | token =>
        rw [hp] at hfits
        exact ⟨hfits.1, forall_released hfits.2⟩
    | spawn token =>
        rw [hp] at hfits
        exact ⟨hfits.1, forall_released hfits.2.1, hfits.2.2⟩
    | keep task =>
        rw [hp] at hfits
        exact hfits.trans hserves.symm
    | clear => trivial
    | cancel =>
        rw [hp] at hfits
        exact hfits
    | abortActive =>
        rw [hp] at hfits
        exact ⟨hfits.1, mt hserves.mp hfits.2⟩
    | take =>
        rw [hp] at hfits
        exact ⟨hfits.1, mt hserves.mp hfits.2⟩
    | returned =>
        rw [hp] at hfits
        exact hfits.trans hserves.symm
    | failed =>
        rw [hp] at hfits
        exact hfits
  · exact (h.idle hnil).trans hserves.symm
  · rcases List.mem_or_eq_of_mem_set ht' with ht' | rfl
    · exact h.current t' ht' hrel hlive
    · cases hrel

/-- A call that is done has returned. -/
theorem Inv.returned (h : Inv st) (hdone : ∀ c ∈ st.calls, c.Done) :
    ∀ c ∈ st.calls, c.phase = .returned := by
  refine h.earlier.forall_done fun c hc => ?_
  rcases hdone c (List.mem_of_getLast? hc) with hp | hp
  · exact hp
  · have hfits := h.last c hc
    rw [hp] at hfits
    exact hfits.elim

theorem Inv.quiet (h : Inv st) (hdone : ∀ c ∈ st.calls, c.Done) :
    st.listening = true ↔ st.Serves := by
  cases hlast : st.calls.getLast? with
  | none => exact h.idle (List.getLast?_eq_none_iff.mp hlast)
  | some c =>
      have hfits := h.last c hlast
      rw [h.returned hdone c (List.mem_of_getLast? hlast)] at hfits
      exact hfits

theorem Inv.setListening (h : Inv st) {on : Bool} (hs : Settled st (.setListening on)) :
    Inv (st.setListening on) := by
  refine ⟨.concat (h.returned hs.1), fun c hc => ?_, by simp [State.setListening], h.valid,
    h.current⟩
  rw [State.setListening, List.getLast?_append, List.getLast?_singleton] at hc
  cases hc
  cases on with
  | true => exact ⟨h.quiet hs.1, hs.2 rfl⟩
  | false => trivial

theorem Inv.call (h : Inv st) {i : Nat} {c : Call} (hi : st.calls[i]? = some c) {p : Phase}
    (ha : st.advance c.phase = some (st₁, p)) :
    Inv { st₁ with calls := st.calls.set i { c with phase := p } } := by
  have hgoing : ¬ c.phase = .returned := by
    intro hp
    rw [hp] at ha
    cases ha
  have hfits := h.last c (h.earlier.getLast? hi hgoing)
  have hfree : c.phase = .bind → st.PortFree := by
    intro hp
    refine ⟨fun c' hc' => ?_, ?_⟩
    · -- this call holds no socket, and the others have returned
      obtain ⟨j, hj⟩ := List.mem_iff_getElem?.mp hc'
      by_cases hret : c'.phase = .returned
      · rw [hret]
        rfl
      · have hij := (h.earlier.length_eq hj hret).trans (h.earlier.length_eq hi hgoing).symm
        rw [Nat.succ_inj.mp hij, hi] at hj
        cases hj
        rw [hp]
        rfl
    · rw [hp] at hfits
      exact hfits.2
  obtain ⟨hfits', hvalid, hcurrent⟩ := h.advance hfits hfree ha
  refine ⟨h.earlier.set hi fun hp => absurd hp hgoing, fun last hlast => ?_, fun hnil => ?_,
    hvalid, hcurrent⟩
  · rw [h.earlier.getLast?_set hi hgoing] at hlast
    cases hlast
    exact hfits'
  · rw [List.set_eq_nil_iff] at hnil
    simp [hnil] at hi

theorem Inv.step {st' : State} (h : Inv st) {e : Event} (hs : SettledSteps st e st') :
    Inv st' := by
  obtain ⟨hs, hset⟩ := hs
  cases e with
  | setListening on =>
      cases hs
      exact h.setListening hset
  | call i =>
      obtain ⟨c, hi, hs⟩ := Option.bind_eq_some_iff.mp hs
      obtain ⟨⟨st₁, p⟩, ha, hs⟩ := Option.bind_eq_some_iff.mp hs
      cases hs
      exact h.call hi ha
  | release k =>
      obtain ⟨t, hk, hs⟩ := Option.bind_eq_some_iff.mp hs
      split at hs
      · next ht =>
          cases hs
          exact h.release hk ht
      · cases hs

theorem Inv.sound (h : Inv st) : Sound st := by
  refine ⟨h.quiet, fun c hc _ hfailed => ?_⟩
  obtain ⟨i, hi⟩ := List.mem_iff_getElem?.mp hc
  have hfits := h.last c (h.earlier.getLast? hi (by simp [hfailed]))
  rw [hfailed] at hfits
  exact hfits

/-- If each call is made after the one before it has returned, and the port is asked for when
the last task has released it, then the flag tells if the port is served, and every call
succeeds. -/
theorem listening_sound {es : List Event} (h : Run SettledSteps init es st) : Sound st :=
  (h.invariant (fun hi hs => hi.step hs) inv_init).sound

instance (st : State) (e : Event) : Decidable (Settled st e) := by
  cases e <;> simp only [Settled] <;> exact inferInstance

/-- The calls of a restart: on, off, and on again when the first task has ended. -/
def restart : List Event :=
  [.setListening true] ++ List.replicate 6 (.call 0) ++ [.setListening false] ++
    List.replicate 4 (.call 1) ++ [.release 0, .setListening true] ++ List.replicate 6 (.call 2)

theorem listening_sound_restarted : ∃ st, Run SettledSteps init restart st ∧ st.listening = true ∧
    st.Serves ∧ Sound st := by
  have hrun : restart.foldlM (fun st e => if Settled st e then step st e else none) init =
      some {
        listening := true, tokens := [false, true, false], listen := 2, conn := 1
        tasks := [⟨1, true, true⟩, ⟨2, false, false⟩], handle := some 1
        calls := List.replicate 3 ⟨.returned, true⟩ } := by decide
  have hrun : Run SettledSteps init restart _ := run_of_guarded hrun
  exact ⟨_, hrun, rfl, ⟨_, .tail _ (.head _), rfl, by decide⟩, listening_sound hrun⟩

/-- On runs into off, whose `cancel` and `take` meet the new token and the new task. -/
def race : List Event :=
  [.setListening true, .call 0, .call 0, .setListening false, .call 1] ++
    List.replicate 4 (.call 0) ++ List.replicate 3 (.call 1)

/-- The flag stays set and nothing serves. -/
theorem not_listening_sound : ¬ ∀ (es : List Event) (st : State),
    Run (fun s e t => step s e = some t) init es st → Sound st := by
  intro h
  have hrun : race.foldlM step init = some {
      listening := true, tokens := [false, true], listen := 1, conn := 1
      tasks := [⟨1, true, false⟩], handle := none
      calls := [⟨.returned, true⟩, ⟨.returned, false⟩] } := by decide
  obtain ⟨t, ht, -, hlive⟩ := ((h _ _ (run_of_foldlM hrun)).listening (by decide)).mp rfl
  rw [List.mem_singleton.mp ht] at hlive
  exact hlive (.inl rfl)

end Listening

end RustClash
