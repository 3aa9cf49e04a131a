import RustClash.App.NodeList
import RustClash.Lib.Latest
import RustClash.Lib.Lts

/-!
# The selected node

A click on a node selects it at once and starts a task that tells the TUN; when the task has
succeeded, the node becomes the one that the dialer uses.  Meanwhile health checks change what
the list says of its nodes and sort it.
-/

namespace RustClash

namespace NodeList

variable {l : NodeList}

theorem shown_eq : l.shown = l.selected.bind fun i => l.nodes[i]?.map (·.node) := by
  rw [shown]
  cases l.selected with
  | none => rfl
  | some i => cases h : l.nodes[i]? <;> simp [h]

theorem shown_of_selected {i : Nat} {n : NodeVm} (hi : l.nodes[i]? = some n) :
    { l with selected := some i }.shown = some n.node := by
  simp [shown_eq, hi]

/-- What the list says of its nodes does not matter to the selection. -/
theorem shown_of_nodes {nodes : List NodeVm} (h : nodes.map (·.node) = l.nodes.map (·.node)) :
    { l with nodes }.shown = l.shown := by
  rw [shown_eq, shown_eq]
  congr 1
  funext i
  rw [← List.getElem?_map, h, List.getElem?_map]

theorem shown_markChecking : l.markChecking.shown = l.shown := by
  refine shown_of_nodes ?_
  rw [List.map_map]
  refine List.map_congr_left fun n _ => ?_
  show (if n.node.isSubscriptionInfo then n else _ : NodeVm).node = n.node
  split <;> rfl

theorem shown_applyHealthResult (key : SavedNode) (r : HealthCheckResult) :
    (l.applyHealthResult key r).shown = l.shown := by
  rw [applyHealthResult]
  split
  · rfl
  · refine shown_of_nodes (List.ext_getElem? fun j => ?_)
    rw [List.getElem?_map, List.getElem?_map, List.getElem?_modify]
    cases l.nodes[j]? with
    | none => rfl
    | some n =>
        show some (if _ then _ else n : NodeVm).node = some n.node
        split <;> rfl

theorem findIdx?_of_mem {p : NodeVm → Bool} {nodes : List NodeVm} {n : NodeVm} (hn : n ∈ nodes)
    (hp : p n = true) : ∃ i m, nodes.findIdx? p = some i ∧ nodes[i]? = some m ∧ p m = true := by
  have hsome := List.findIdx?_eq_some_of_exists ⟨n, hn, hp⟩
  obtain ⟨hlt, hm, -⟩ := List.findIdx?_eq_some_iff_getElem.mp hsome
  exact ⟨_, _, hsome, List.getElem?_eq_getElem hlt, hm⟩

/-- The saved form of the node shown. -/
theorem savedNode_of_shown {n : ProxyNode} (hn : l.shown = some n)
    (hinfo : n.isSubscriptionInfo = false) : l.savedNode = some ⟨n.name, n.server, n.port⟩ := by
  simp [savedNode, hn, hinfo]

/-- No node but the one shown has its name, its server and its port. -/
def Distinct (l : NodeList) : Prop := ∀ n ∈ l.shown, ∀ m ∈ l.nodes,
  (⟨n.name, n.server, n.port⟩ : SavedNode).Matches m → m.node = n

instance (l : NodeList) : Decidable l.Distinct := by
  unfold Distinct
  cases l.shown with
  | none => exact isTrue (by simp)
  | some n =>
      exact decidable_of_iff (∀ m ∈ l.nodes,
        (⟨n.name, n.server, n.port⟩ : SavedNode).Matches m → m.node = n) (by simp)

theorem shown_sortHealthPartial (h : l.Distinct)
    (hinfo : ∀ n ∈ l.shown, n.isSubscriptionInfo = false) :
    l.sortHealthPartial.shown = l.shown := by
  cases hshown : l.shown with
  | none =>
      have hsaved : l.savedNode = none := by simp [savedNode, hshown]
      simp [shown_eq, sortHealthPartial, hsaved]
  | some n =>
      have hsaved := savedNode_of_shown hshown (hinfo n hshown)
      rw [shown_eq] at hshown
      obtain ⟨i, -, hi⟩ := Option.bind_eq_some_iff.mp hshown
      obtain ⟨vm, hvm, rfl⟩ := Option.map_eq_some_iff.mp hi
      have hperm := List.perm_insertionSort
        (fun a b => rankLe (healthRank a) (healthRank b)) l.nodes
      -- the sorted list has the node, and what is found has its key
      obtain ⟨j, m, hj, hm, hkey⟩ := findIdx?_of_mem
        (p := fun n => (⟨vm.node.name, vm.node.server, vm.node.port⟩ : SavedNode).Matches n)
        (hperm.mem_iff.mpr (List.mem_of_getElem? hvm)) (decide_eq_true ⟨rfl, rfl, rfl⟩)
      have hnode := h vm.node (by rw [shown_eq]; exact hshown) m
        (hperm.mem_iff.mp (List.mem_of_getElem? hm)) (of_decide_eq_true hkey)
      have hfind : l.sortHealthPartial.selected = some j := by
        simp only [sortHealthPartial, hsaved, Option.bind_some, findSavedNode, hj]
        rfl
      have hnodes : l.sortHealthPartial.nodes[j]? = some m := hm
      rw [shown_eq, hfind, Option.bind_some, hnodes, Option.map_some, hnode]

end NodeList

namespace Selection

/-! ## State -/

/-- A switch to a node; its task is done when it has told the view how it went. -/
structure Switch where
  node : ProxyNode
  done : Bool := false
deriving DecidableEq, Repr

structure State where
  list : NodeList
  current : Option ProxyNode
  switches : List Switch
deriving DecidableEq, Repr

/-- The nodes of a profile have been loaded into a view that showed `prev` before. -/
def init (prev : NodeList) (parsed : List ProxyNode) : State :=
  let list := prev.reload parsed
  { list, current := list.shown, switches := [] }

/-! ## Steps -/

inductive Event where
  /-- `select_node` -/
  | select (i : Nat)
  /-- The task of the switch at `k` reports to the view. -/
  | complete (k : Nat) (ok : Bool)
  | sort
  | check
  | result (key : SavedNode) (r : HealthCheckResult)
deriving DecidableEq, Repr

def step (st : State) : Event → Option State
  | .select i => do
      let n ← st.list.nodes[i]?
      if n.node.isSubscriptionInfo then some st
      else some { st with
        list := { st.list with selected := some i }
        switches := st.switches ++ [{ node := n.node }] }
  | .complete k ok => do
      let s ← st.switches[k]?
      if s.done then none
      else some { st with
        current := if ok then some s.node else st.current
        switches := st.switches.set k { s with done := true } }
  | .sort => some { st with list := st.list.sortHealthPartial }
  | .check => some { st with list := st.list.markChecking }
  | .result key r => some { st with list := st.list.applyHealthResult key r }

/-! ## What is promised -/

/-- With no switch pending the node shown is the one in use, and sorting shows the same. -/
structure Sound (R : State → Event → State → Prop) (st : State) : Prop where
  agrees : (∀ s ∈ st.switches, s.done = true) → st.list.shown = st.current
  sorted : ∀ st', R st .sort st' → st'.list.shown = st.list.shown

/-- Switches follow one another and succeed, unless they are to the node in use; and the list
is sorted while no other node has the name, server and port of the one shown. -/
def Settled (st : State) : Event → Prop
  | .select _ => ∀ s ∈ st.switches, s.done = true
  | .complete k ok => ok = true ∨ ∀ s, st.switches[k]? = some s → some s.node = st.current
  | .sort => st.list.Distinct
  | _ => True

def Steps (st : State) (e : Event) (st' : State) : Prop := step st e = some st'

def SettledSteps (st : State) (e : Event) (st' : State) : Prop :=
  step st e = some st' ∧ Settled st e

/-! ## The switch under way -/

structure Inv (st : State) : Prop where
  earlier : Latest (·.done = true) st.switches
  agrees : (∀ s ∈ st.switches, s.done = true) → st.list.shown = st.current
  pending : ∀ s ∈ st.switches, s.done = false → st.list.shown = some s.node
  info : ∀ n ∈ st.list.shown, n.isSubscriptionInfo = false

variable {st st' : State} {prev : NodeList} {parsed : List ProxyNode}

/-- A saved node is no line about the subscription, and nothing of its name is. -/
theorem info_of_savedNode {l : NodeList} {want : SavedNode} (h : l.savedNode = some want)
    {n : ProxyNode} (hn : n.name = want.name) : n.isSubscriptionInfo = false := by
  simp only [NodeList.savedNode, Option.bind_eq_bind] at h
  obtain ⟨m, -, hm⟩ := Option.bind_eq_some_iff.mp h
  split at hm
  · cases hm
  · next hinfo =>
      cases hm
      rw [ProxyNode.isSubscriptionInfo, hn]
      simpa [ProxyNode.isSubscriptionInfo] using hinfo

theorem holds_of_findIdx? {p : NodeVm → Bool} {nodes : List NodeVm} {i : Nat} {n : NodeVm}
    (hi : nodes.findIdx? p = some i) (hn : nodes[i]? = some n) : p n = true := by
  obtain ⟨hlt, hp, -⟩ := List.findIdx?_eq_some_iff_getElem.mp hi
  rw [List.getElem?_eq_getElem hlt] at hn
  cases hn
  exact hp

theorem info_of_findSavedNode {nodes : List NodeVm} {want : SavedNode} {i : Nat} {n : NodeVm}
    (hwant : ∀ m : ProxyNode, m.name = want.name → m.isSubscriptionInfo = false)
    (hi : findSavedNode nodes want = some i) (hn : nodes[i]? = some n) :
    n.node.isSubscriptionInfo = false := by
  rw [findSavedNode] at hi
  rcases (Option.orElse_eq_some _ _ _).mp hi with hi | ⟨-, hi⟩
  · exact hwant n.node (of_decide_eq_true (holds_of_findIdx? hi hn)).1
  · have hp := holds_of_findIdx? hi hn
    simp only [Bool.and_eq_true, Bool.not_eq_true'] at hp
    exact hp.2

theorem info_of_reload : ∀ n ∈ (prev.reload parsed).shown, n.isSubscriptionInfo = false := by
  intro n hn
  rw [Option.mem_def, NodeList.shown_eq] at hn
  obtain ⟨i, hi, hn⟩ := Option.bind_eq_some_iff.mp hn
  obtain ⟨vm, hvm, rfl⟩ := Option.map_eq_some_iff.mp hn
  rcases (Option.orElse_eq_some _ _ _).mp hi with hi | ⟨-, hi⟩
  · obtain ⟨want, hwant, hi⟩ := Option.bind_eq_some_iff.mp hi
    exact info_of_findSavedNode (fun m hm => info_of_savedNode hwant hm) hi hvm
  · have hp := holds_of_findIdx? hi hvm
    simpa using hp

theorem inv_init : Inv (init prev parsed) :=
  ⟨.nil, fun _ => rfl, by simp [init], info_of_reload⟩

/-! ## Steps keep the invariant -/

/-- A step that only says something else of the nodes. -/
theorem Inv.list (h : Inv st) {list : NodeList} (hshown : list.shown = st.list.shown) :
    Inv { st with list } :=
  ⟨h.earlier, fun hd => hshown.trans (h.agrees hd),
    fun s hs hd => hshown.trans (h.pending s hs hd), by rw [hshown]; exact h.info⟩

theorem inv_select {i : Nat} {n : NodeVm} (hi : st.list.nodes[i]? = some n)
    (hinfo : n.node.isSubscriptionInfo = false) (hdone : ∀ s ∈ st.switches, s.done = true) :
    Inv { st with
      list := { st.list with selected := some i }
      switches := st.switches ++ [{ node := n.node }] } := by
  have hshown := NodeList.shown_of_selected hi
  refine ⟨.concat hdone, fun hd => ?_, fun s hs hd => ?_, fun m hm => ?_⟩
  · have hlast := hd { node := n.node } (List.mem_append_right _ (List.mem_singleton_self _))
    cases hlast
  · rcases List.mem_append.mp hs with hs | hs
    · simp [hdone s hs] at hd
    · rw [List.mem_singleton.mp hs]
      exact hshown
  · rw [Option.mem_def, hshown] at hm
    cases hm
    exact hinfo

theorem Inv.complete (h : Inv st) {k : Nat} {s : Switch} (hk : st.switches[k]? = some s)
    (hs : s.done = false) {ok : Bool} (hok : ok = true ∨ some s.node = st.current) :
    Inv { st with
      current := if ok then some s.node else st.current
      switches := st.switches.set k { s with done := true } } := by
  have hshown := h.pending s (List.mem_of_getElem? hk) hs
  have hall : ∀ t ∈ st.switches.set k { s with done := true }, t.done = true := by
    refine (h.earlier.set hk fun _ => rfl).forall_done fun t ht => ?_
    rw [h.earlier.getLast?_set hk (by simp [hs])] at ht
    cases ht
    rfl
  refine ⟨h.earlier.set hk fun _ => rfl, fun _ => ?_, fun t ht hd => ?_, h.info⟩
  · show st.list.shown = if ok then some s.node else st.current
    split
    · exact hshown
    · next hfail => exact hshown.trans (hok.resolve_left hfail)
  · simp [hall t ht] at hd

theorem Inv.step (h : Inv st) {e : Event} (hs : SettledSteps st e st') : Inv st' := by
  obtain ⟨hs, hset⟩ := hs
  cases e with
  | select i =>
      obtain ⟨n, hi, hs⟩ := Option.bind_eq_some_iff.mp hs
      split at hs
      · cases hs
        exact h
      · next hinfo =>
          cases hs
          exact inv_select hi (by simpa using hinfo) hset
  | complete k ok =>
      obtain ⟨s, hk, hs⟩ := Option.bind_eq_some_iff.mp hs
      split at hs
      · cases hs
      · next hd =>
          cases hs
          exact h.complete hk (by simpa using hd) (hset.imp_right fun hnode => hnode s hk)
  | sort =>
      cases hs
      exact h.list (NodeList.shown_sortHealthPartial hset h.info)
  | check =>
      cases hs
      exact h.list NodeList.shown_markChecking
  | result key r =>
      cases hs
      exact h.list (NodeList.shown_applyHealthResult key r)

/-- If switches follow one another and succeed, and the list is sorted only while the node
shown is the only one of its name, server and port, then the node shown is the node in use
whenever no switch is pending, and sorting shows the same node. -/
theorem selection_sound {es : List Event} (h : Run SettledSteps (init prev parsed) es st) :
    Sound SettledSteps st := by
  have hinv := h.invariant (fun hi hs => hi.step hs) inv_init
  refine ⟨hinv.agrees, fun st' hs => ?_⟩
  obtain ⟨hs, hset⟩ := hs
  cases hs
  exact NodeList.shown_sortHealthPartial hset hinv.info

/-! ## Two nodes -/

def sampleNodes : List ProxyNode :=
  [{ name := ['a'], server := ['g'], port := 443 }, { name := ['b'], server := ['h'], port := 443 }]

/-- The second node is selected, its switch succeeds, and the list is sorted. -/
theorem selection_sound_switched : ∃ st, Run SettledSteps (init ⟨[], none⟩ sampleNodes)
    [.select 1, .complete 0 true, .sort] st ∧ st.list.shown = sampleNodes[1]? ∧
      st.current = sampleNodes[1]? ∧ Sound SettledSteps st := by
  have hfirst : Settled (init ⟨[], none⟩ sampleNodes) (.select 1) := by simp [Settled, init]
  have hdistinct : NodeList.Distinct ⟨sampleNodes.map fun node => { node }, some 1⟩ := by decide
  have hrun : Run SettledSteps (init ⟨[], none⟩ sampleNodes)
      [.select 1, .complete 0 true, .sort] _ :=
    .cons ⟨rfl, hfirst⟩ (.cons ⟨rfl, .inl rfl⟩ (.single ⟨rfl, hdistinct⟩))
  exact ⟨_, hrun, by decide, rfl, selection_sound hrun⟩

/-- A switch that fails leaves the new node selected and the old one in use. -/
theorem not_selection_sound : ¬ ∀ (prev : NodeList) (parsed : List ProxyNode) (es : List Event)
    (st : State), Run Steps (init prev parsed) es st → Sound Steps st := by
  intro h
  have hrun : Run Steps (init ⟨[], none⟩ sampleNodes) [.select 1, .complete 0 false] _ :=
    .cons rfl (.single rfl)
  have hagrees := (h _ _ _ _ hrun).agrees (by decide)
  revert hagrees
  decide

end Selection

end RustClash
