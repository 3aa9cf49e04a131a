import RustClash.App.NodeList
import RustClash.Lib.Latest
import RustClash.Lib.Lts

/-!
# Health checks

A click on the health button starts a check of all nodes, or stops the one that is running.
A check has a task for each node, and a loop on the thread of the view that takes the
results in and applies them to the list.  All checks share one flag that cancels them and
one that says whether a check is running.

The loop gives up the thread of the view only where it waits, so that one of its turns is one
step; the tasks of the nodes run beside it.
-/

namespace RustClash

namespace HealthRuns

/-! ## State -/

/-- Where the task of a node stands.  It sends its result as its last act. -/
inductive Phase where
  | waiting
  | admitted
  | probing
  | probed (r : HealthCheckResult)
  | done
deriving DecidableEq, Repr

structure Probe where
  node : ProxyNode
  phase : Phase := .waiting
deriving DecidableEq, Repr

/-- A check.  `queue` are the results on their way to its loop, and `cancelled` remembers
that the user has stopped it. -/
structure Check where
  pending : Nat
  got : Nat := 0
  launched : Bool := false
  ended : Bool := false
  probes : List Probe
  queue : List (SavedNode × HealthCheckResult) := []
  cancelled : Bool := false
deriving DecidableEq, Repr

structure State where
  list : NodeList
  running : Bool
  cancel : Bool
  checks : List Check
deriving DecidableEq, Repr

def init (list : NodeList) : State where
  list
  running := false
  cancel := false
  checks := []

/-! ## Steps -/

def maxConcurrency : Nat := 30

/-- The task holds one of the permits. -/
def Phase.holds : Phase → Bool
  | .admitted => true
  | .probing => true
  | .probed _ => true
  | _ => false

inductive ProbeEvent where
  | acquire
  | start
  | found (r : HealthCheckResult)
  | report
deriving DecidableEq, Repr

/-- The next phase of a task, and the result that it sends. -/
def Phase.next (cancel free : Bool) : Phase → ProbeEvent →
    Option (Phase × Option HealthCheckResult)
  | .waiting, .acquire => if free then some (.admitted, none) else none
  | .admitted, .start => some (if cancel then .done else .probing, none)
  | .probing, .found r => some (.probed r, none)
  | .probed r, .report => some (.done, if cancel then none else some r)
  | _, _ => none

/-- The task at `j` of a check takes its next step. -/
def Check.probe (c : Check) (cancel : Bool) (j : Nat) (e : ProbeEvent) : Option Check := do
  let p ← c.probes[j]?
  let free := c.launched && c.probes.countP (·.phase.holds) < maxConcurrency
  let (phase, sent) ← p.phase.next cancel free e
  let key := ⟨p.node.name, p.node.server, p.node.port⟩
  return { c with
    probes := c.probes.set j { p with phase }
    queue := c.queue ++ sent.toList.map fun r => (key, r) }

/-- The loop takes in the `n` results that have arrived. -/
def receive : NodeList × Check → Nat → NodeList × Check
  | (list, c), n =>
      let batch := c.queue.take n
      if c.pending ≤ c.got ∨ batch = [] then (list, c)
      else
        ((batch.foldl (fun l item => l.applyHealthResult item.1 item.2) list).sortHealthPartial,
          { c with got := c.got + batch.length, queue := c.queue.drop n })

namespace State

/-- The last check is cancelled by the user. -/
def stopLast (checks : List Check) : List Check :=
  checks.modify (checks.length - 1) fun c => { c with cancelled := true }

def toggleHealth (st : State) : State :=
  if st.running then { st with running := false, cancel := true, checks := stopLast st.checks }
  else
    let list := st.list.markChecking.sortHealthPartial
    let checked (n : NodeVm) : Bool := !n.node.isSubscriptionInfo
    { list
      running := true
      cancel := false
      checks := st.checks ++ [{
        pending := st.list.nodes.countP checked
        probes := (list.nodes.filter checked).map fun n => { node := n.node } }] }

/-- A turn of the loop of the check `c` at `i`: it leaves when the flag is set or all results
are there, and waits when no more have arrived. -/
def turn (st : State) (i : Nat) (c : Check) (batches : List Nat) : State :=
  let c := { c with launched := true }
  if st.cancel ∧ c.got < c.pending then
    { st with running := false, checks := st.checks.set i { c with ended := true } }
  else
    let (list, c) := batches.foldl receive (st.list, c)
    if c.got < c.pending then { st with list, checks := st.checks.set i c }
    else { st with list, running := false, checks := st.checks.set i { c with ended := true } }

end State

inductive Event where
  | toggleHealth
  /-- The task for the node at `j` of the check `i` takes a step. -/
  | probe (i j : Nat) (e : ProbeEvent)
  /-- The loop of the check `i` takes a turn, in which results arrive in batches. -/
  | turn (i : Nat) (batches : List Nat)
deriving DecidableEq, Repr

def step (st : State) : Event → Option State
  | .toggleHealth => some st.toggleHealth
  | .probe i j e => do
      let c ← st.checks[i]?
      let c' ← c.probe st.cancel j e
      return { st with checks := st.checks.set i c' }
  | .turn i batches => do
      let c ← st.checks[i]?
      if c.ended then none else some (st.turn i c batches)

/-! ## What is promised -/

/-- The loop of a check that the user has stopped leaves the list alone, and the view says
that a check is running while the last one waits for results and was not stopped. -/
structure Sound (st : State) : Prop where
  stopped : ∀ i c batches st', st.checks[i]? = some c → c.cancelled = true →
    step st (.turn i batches) = some st' → st'.list = st.list
  running : st.running = true ↔
    ∃ c, st.checks.getLast? = some c ∧ c.cancelled = false ∧ c.got < c.pending

/-- A check is started only when all others have ended and there is a node to check. -/
def Settled (st : State) : Event → Prop
  | .toggleHealth => st.running = false →
      (∀ c ∈ st.checks, c.ended = true) ∧ ∃ n ∈ st.list.nodes, n.node.isSubscriptionInfo = false
  | _ => True

def SettledSteps (st : State) (e : Event) (st' : State) : Prop :=
  step st e = some st' ∧ Settled st e

/-! ## The last check -/

/-- What the flags say of the last check. -/
inductive Standing (st : State) (c : Check) : Prop where
  | going : c.ended = false → c.cancelled = false → c.got < c.pending → st.running = true →
      st.cancel = false → Standing st c
  | stopping : c.ended = false → c.cancelled = true → c.got < c.pending → st.running = false →
      st.cancel = true → Standing st c
  | finished : c.ended = true → c.cancelled = true ∨ c.pending ≤ c.got → st.running = false →
      Standing st c

structure Inv (st : State) : Prop where
  earlier : Latest (·.ended = true) st.checks
  last : ∀ c, st.checks.getLast? = some c → Standing st c
  idle : st.checks = [] → st.running = false

variable {st st' : State} {list : NodeList} {i : Nat} {c : Check}

theorem inv_init : Inv (init list) := ⟨.nil, by simp [init], fun _ => rfl⟩

/-! ## Steps keep the invariant -/

theorem Inv.stopped (h : Inv st) (hr : st.running = true) :
    Inv { st with running := false, cancel := true, checks := State.stopLast st.checks } := by
  constructor
  · intro k c hk hlt
    rw [State.stopLast, List.length_modify] at hlt
    have hk : (State.stopLast st.checks)[k]? = some c := hk
    rw [State.stopLast, List.getElem?_modify_ne _ _ (by omega)] at hk
    exact h.earlier k c hk hlt
  · intro c hlast
    rw [State.stopLast, List.getLast?_eq_getElem?, List.length_modify, List.getElem?_modify_eq,
      ← List.getLast?_eq_getElem?] at hlast
    obtain ⟨c₀, hc₀, rfl⟩ := Option.map_eq_some_iff.mp hlast
    cases h.last c₀ hc₀ with
    | going hended _ hgot _ _ => exact .stopping hended rfl hgot rfl rfl
    | stopping _ _ _ hr' _ => simp [hr] at hr'
    | finished _ _ hr' => simp [hr] at hr'
  · exact fun _ => rfl

theorem Inv.toggleHealth (h : Inv st) (hs : Settled st .toggleHealth) : Inv st.toggleHealth := by
  rw [State.toggleHealth]
  split
  · next hr => exact h.stopped hr
  · next hr =>
      obtain ⟨hended, n, hn, hinfo⟩ := hs (by simpa using hr)
      constructor
      · exact .concat hended
      · intro c hlast
        rw [List.getLast?_append, List.getLast?_singleton] at hlast
        cases hlast
        refine .going rfl rfl ?_ rfl rfl
        exact List.countP_pos_iff.mpr ⟨n, hn, by simp [hinfo]⟩
      · simp

/-- A step of a task changes nothing that the view goes by. -/
theorem probe_keeps {cancel : Bool} {j : Nat} {e : ProbeEvent} {c' : Check}
    (hp : c.probe cancel j e = some c') : c'.ended = c.ended ∧ c'.cancelled = c.cancelled ∧
      c'.got = c.got ∧ c'.pending = c.pending := by
  obtain ⟨p, -, hp⟩ := Option.bind_eq_some_iff.mp hp
  obtain ⟨q, -, hp⟩ := Option.bind_eq_some_iff.mp hp
  cases hp
  exact ⟨rfl, rfl, rfl, rfl⟩

theorem Standing.probe {cancel : Bool} {j : Nat} {e : ProbeEvent} {c' : Check}
    (h : Standing st c) (hp : c.probe cancel j e = some c') :
    Standing { st with checks := st.checks.set i c' } c' := by
  obtain ⟨hended, hcancelled, hgot, hpending⟩ := probe_keeps hp
  cases h with
  | going h₁ h₂ h₃ h₄ h₅ =>
      exact .going (hended.trans h₁) (hcancelled.trans h₂) (by rwa [hgot, hpending]) h₄ h₅
  | stopping h₁ h₂ h₃ h₄ h₅ =>
      exact .stopping (hended.trans h₁) (hcancelled.trans h₂) (by rwa [hgot, hpending]) h₄ h₅
  | finished h₁ h₂ h₃ =>
      exact .finished (hended.trans h₁) (by rwa [hcancelled, hgot, hpending]) h₃

/-- The standing of a check does not depend on the others. -/
theorem Standing.others {checks : List Check} (h : Standing st c) :
    Standing { st with checks } c := by
  cases h with
  | going h₁ h₂ h₃ h₄ h₅ => exact .going h₁ h₂ h₃ h₄ h₅
  | stopping h₁ h₂ h₃ h₄ h₅ => exact .stopping h₁ h₂ h₃ h₄ h₅
  | finished h₁ h₂ h₃ => exact .finished h₁ h₂ h₃

theorem Inv.probe (h : Inv st) {j : Nat} {e : ProbeEvent} {c' : Check}
    (hi : st.checks[i]? = some c) (hp : c.probe st.cancel j e = some c') :
    Inv { st with checks := st.checks.set i c' } := by
  refine ⟨h.earlier.set hi fun hc => (probe_keeps hp).1.trans hc, fun last hlast => ?_, ?_⟩
  · rcases getLast?_of_set hlast with ⟨rfl, hlen⟩ | hlast
    · have hc : st.checks.getLast? = some c := by
        rw [List.getLast?_eq_getElem?, ← hlen]
        exact hi
      exact (h.last c hc).probe hp
    · exact (h.last last hlast).others
  · exact fun hnil => h.idle ((List.set_eq_nil_iff _ _).mp hnil)

/-- Results change the count of a check and its queue. -/
theorem receive_keeps (x : NodeList × Check) (n : Nat) :
    ∃ got queue, (receive x n).2 = { x.2 with got, queue } := by
  obtain ⟨list, c⟩ := x
  simp only [receive]
  split
  · exact ⟨c.got, c.queue, rfl⟩
  · exact ⟨_, _, rfl⟩

theorem foldl_receive_keeps (batches : List Nat) (x : NodeList × Check) :
    ∃ got queue, (batches.foldl receive x).2 = { x.2 with got, queue } := by
  induction batches generalizing x with
  | nil => exact ⟨x.2.got, x.2.queue, rfl⟩
  | cons n batches ih =>
      obtain ⟨got, queue, h⟩ := ih (receive x n)
      obtain ⟨got', queue', h'⟩ := receive_keeps x n
      rw [List.foldl_cons, h, h']
      exact ⟨got, queue, rfl⟩

/-- What a turn makes of the last check: one that is stopped ends at once. -/
theorem Standing.turn (h : Standing st c) (hc : c.ended = false) (batches : List Nat) :
    ∃ c', (st.turn i c batches).checks = st.checks.set i c' ∧
      Standing (st.turn i c batches) c' ∧
      (c.cancelled = true → (st.turn i c batches).list = st.list) := by
  cases h with
  | going h₁ h₂ h₃ h₄ h₅ =>
      have hgo : ¬ (st.cancel = true ∧ c.got < c.pending) := by simp [h₅]
      obtain ⟨got, queue, hfold⟩ :=
        foldl_receive_keeps batches (st.list, { c with launched := true })
      simp only [State.turn, if_neg hgo, hfold]
      split
      · next hgot => exact ⟨_, rfl, .going h₁ h₂ hgot h₄ h₅, by simp [h₂]⟩
      · next hgot => exact ⟨_, rfl, .finished rfl (.inr (Nat.not_lt.mp hgot)) rfl, by simp [h₂]⟩
  | stopping h₁ h₂ h₃ h₄ h₅ =>
      rw [State.turn, if_pos ⟨h₅, h₃⟩]
      exact ⟨_, rfl, .finished rfl (.inl h₂) rfl, fun _ => rfl⟩
  | finished h₁ _ _ => simp [hc] at h₁

theorem Inv.turn (h : Inv st) (hi : st.checks[i]? = some c) (hc : c.ended = false)
    (batches : List Nat) : Inv (st.turn i c batches) := by
  have hgoing : ¬ c.ended = true := by simp [hc]
  obtain ⟨c', hchecks, hstanding, -⟩ :=
    (h.last c (h.earlier.getLast? hi hgoing)).turn (i := i) hc batches
  refine ⟨?_, fun last hlast => ?_, fun hnil => ?_⟩
  · rw [hchecks]
    exact h.earlier.set hi fun hended => absurd hended hgoing
  · rw [hchecks, h.earlier.getLast?_set hi hgoing] at hlast
    cases hlast
    exact hstanding
  · rw [hchecks, List.set_eq_nil_iff] at hnil
    simp [hnil] at hi

theorem Inv.step (h : Inv st) {e : Event} (hs : SettledSteps st e st') : Inv st' := by
  obtain ⟨hs, hset⟩ := hs
  cases e with
  | toggleHealth =>
      cases hs
      exact h.toggleHealth hset
  | probe i j e =>
      obtain ⟨c, hi, hs⟩ := Option.bind_eq_some_iff.mp hs
      obtain ⟨c', hp, hs⟩ := Option.bind_eq_some_iff.mp hs
      cases hs
      exact h.probe hi hp
  | turn i batches =>
      obtain ⟨c, hi, hs⟩ := Option.bind_eq_some_iff.mp hs
      split at hs
      · cases hs
      · next hc =>
          cases hs
          exact h.turn hi (by simpa using hc) batches

theorem Inv.sound (h : Inv st) : Sound st := by
  constructor
  · intro i c batches st' hi hcancelled hs
    simp only [HealthRuns.step, hi, Option.bind_eq_bind, Option.bind_some] at hs
    split at hs
    · cases hs
    · next hc =>
        cases hs
        obtain ⟨c', -, -, hlist⟩ :=
          (h.last c (h.earlier.getLast? hi hc)).turn (i := i) (by simpa using hc) batches
        exact hlist hcancelled
  · constructor
    · intro hr
      cases hlast : st.checks.getLast? with
      | none => simp [h.idle (List.getLast?_eq_none_iff.mp hlast)] at hr
      | some c =>
          cases h.last c hlast with
          | going _ hc hgot _ _ => exact ⟨c, rfl, hc, hgot⟩
          | stopping _ _ _ hr' _ => simp [hr] at hr'
          | finished _ _ hr' => simp [hr] at hr'
    · rintro ⟨c, hlast, hc, hgot⟩
      cases h.last c hlast with
      | going _ _ _ hr _ => exact hr
      | stopping _ hc' _ _ _ => simp [hc] at hc'
      | finished _ hover _ =>
          rcases hover with hc' | hle
          · simp [hc] at hc'
          · omega

/-- In a run in which every check is started after all others have ended, with a node to
check, what was stopped stays stopped and the view says truly if a check is running. -/
theorem checks_sound {es : List Event} (h : Run SettledSteps (init list) es st) : Sound st :=
  (h.invariant (fun hi hs => hi.step hs) inv_init).sound

/-! ## One node -/

def sampleList : NodeList where
  nodes := [{ node := { name := ['a'], server := ['h'], port := 443 } }]
  selected := none

def sampleResult : HealthCheckResult := ⟨true, some 50, .ok⟩

/-- A check finds its only node and ends. -/
theorem checks_sound_restarted : ∃ st, Run SettledSteps (init sampleList)
    [.toggleHealth, .turn 0 [], .probe 0 0 .acquire, .probe 0 0 .start,
      .probe 0 0 (.found sampleResult), .probe 0 0 .report, .turn 0 [1]] st ∧
      st.list.nodes.map (·.latency) = [['5', '0', 'm', 's']] ∧ st.running = false ∧ Sound st := by
  have hset : Settled (init sampleList) .toggleHealth :=
    fun _ => ⟨by simp [init], _, List.mem_cons_self, by decide⟩
  have hrun : Run SettledSteps (init sampleList)
      [.toggleHealth, .turn 0 [], .probe 0 0 .acquire, .probe 0 0 .start,
        .probe 0 0 (.found sampleResult), .probe 0 0 .report, .turn 0 [1]] _ :=
    .cons ⟨rfl, hset⟩ (.cons ⟨rfl, trivial⟩ (.cons ⟨rfl, trivial⟩ (.cons ⟨rfl, trivial⟩
      (.cons ⟨rfl, trivial⟩ (.cons ⟨rfl, trivial⟩ (.single ⟨rfl, trivial⟩))))))
  exact ⟨_, hrun, rfl, rfl, checks_sound hrun⟩

/-- A check is stopped with a result under way and another is started before its loop has
looked: the loop applies the result. -/
theorem not_checks_sound : ¬ ∀ (list : NodeList) (es : List Event) (st : State),
    Run (fun s e t => step s e = some t) (init list) es st → Sound st := by
  intro h
  have hrun : Run (fun s e t => step s e = some t) (init sampleList)
      [.toggleHealth, .turn 0 [], .probe 0 0 .acquire, .probe 0 0 .start,
        .probe 0 0 (.found sampleResult), .probe 0 0 .report, .toggleHealth, .toggleHealth] _ :=
    .cons rfl (.cons rfl (.cons rfl (.cons rfl (.cons rfl (.cons rfl (.cons rfl (.single rfl)))))))
  have hlist := (h _ _ _ hrun).stopped 0 _ [1] _ rfl rfl rfl
  have hlatency := congrArg (fun l : NodeList => l.nodes.map (·.latency)) hlist
  revert hlatency
  decide

end HealthRuns

end RustClash
