import RustClash.App.NodeList
import RustClash.Lib.Latest
import RustClash.Net.Addr
import RustClash.Tun.Generation

/-!
# Switching nodes under traffic

The node in use changes when the user selects one, and when a profile is updated, switched
to or deleted.  Connections of the inbound are cut off by a new token, those of the TUN by a
bump of its generation, and the TUN needs a host route to the server of the node.

The view does one thing at a time; `Ui` is what is left of its current action.  Calls of
`on_node_changed`, the handlers of connections and the steps of the view interleave freely.
A handler has its token from the time it was accepted, and reads the node in use when it
dials; one that dials no node has `none` for it.
-/

namespace RustClash

namespace Switching

/-! ## State -/

/-- A connection of the inbound. -/
inductive Http where
  | accepted (token : Nat)
  | dialing (token : Nat) (via : Option ProxyNode)
  | relaying (token : Nat) (via : Option ProxyNode)
  | ended
deriving DecidableEq, Repr

/-- Where a call of `on_node_changed` stands; `bumping` has the lock of the TUN service. -/
inductive Phase where
  | asked
  | resolved
  | bumping
  | replied (ok : Bool)
  | done
deriving DecidableEq, Repr

/-- A call of `on_node_changed`, by `select_node` or behind an update. -/
structure Change where
  node : ProxyNode
  select : Bool
  phase : Phase := .asked
deriving DecidableEq, Repr

/-- What is left of the action of the view. -/
inductive Ui where
  | idle
  /-- `reload_nodes` puts the node shown in use. -/
  | load (update : Bool)
  /-- A switch puts its node in use. -/
  | switch (node : ProxyNode)
  | abortActive (update : Bool)
  /-- An update tells the TUN. -/
  | notify
deriving DecidableEq, Repr

/-- The TUN and the address its host route leads to. -/
structure Tun where
  stack : Generation.State (Option ProxyNode)
  route : Option Ipv4Addr
deriving DecidableEq, Repr

structure State where
  list : NodeList
  current : Option ProxyNode
  conn : Nat
  http : List Http
  tun : Option Tun
  fetches : Nat
  changes : List Change
  ui : Ui
deriving DecidableEq, Repr

variable (address : Str → Ipv4Addr)

/-- The nodes of a profile have been loaded; the TUN has been started on the node in use, if
it is `running`. -/
def init (prev : NodeList) (parsed : List ProxyNode) (running : Bool) : State :=
  let list := prev.reload parsed
  { list
    current := list.shown
    conn := 0
    http := []
    tun := if running then list.shown.map fun n => ⟨Generation.init, some (address n.server)⟩
      else none
    fetches := 0
    changes := []
    ui := .idle }

/-! ## Steps -/

/-- How `set_node_host_route` ends: it cannot add the route, it adds the route but cannot
write the undo file, or all goes well. -/
inductive RouteResult where
  | addFailed
  | undoFailed
  | ok
deriving DecidableEq, Repr

inductive ChangeEvent where
  | resolve (ok : Bool)
  | route (r : RouteResult)
  | bump
  | report
deriving DecidableEq, Repr

inductive HttpEvent where
  | dial (via : Option ProxyNode)
  | dialed
  | cancelled
  | finish
deriving DecidableEq, Repr

inductive Event where
  | select (i : Nat)
  | switchProfile (parsed : List ProxyNode)
  | deleteProfile (parsed : List ProxyNode)
  | updateProfile
  /-- An update has fetched its profile, or failed to. -/
  | fetched (parsed : Option (List ProxyNode))
  /-- The view goes on with its action. -/
  | ui
  | change (k : Nat) (e : ChangeEvent)
  | accept
  | http (j : Nat) (e : HttpEvent)
  | tun (e : Generation.Event (Option ProxyNode))
deriving DecidableEq, Repr

/-- `set_node_host_route`: where a route is there already and cannot be added again, it has
been deleted first. -/
def setRoute (route : Option Ipv4Addr) (ip : Ipv4Addr) : RouteResult → Option Ipv4Addr
  | .addFailed => if route = some ip then none else route
  | .undoFailed => some ip
  | .ok => some ip

namespace State

/-- `reload_nodes` behind a change of the active profile. -/
def loadProfile (st : State) (parsed : List ProxyNode) (update : Bool) : State :=
  { st with list := st.list.reload parsed, ui := .load update }

def selectNode (st : State) (i : Nat) : Option State := do
  let n ← st.list.nodes[i]?
  if n.node.isSubscriptionInfo then some st
  else some { st with
    list := { st.list with selected := some i }
    changes := st.changes ++ [{ node := n.node, select := true }] }

/-- The next step of the view. -/
def advance (st : State) : Ui → Option State
  | .idle => none
  | .load update => some { st with current := st.list.shown, ui := .abortActive update }
  | .switch node => some { st with current := some node, ui := .abortActive false }
  | .abortActive update =>
      some { st with conn := st.conn + 1, ui := if update then .notify else .idle }
  | .notify =>
      match st.tun, st.list.shown.filter (!·.isSubscriptionInfo) with
      | some _, some node => some { st with
          current := some node
          changes := st.changes ++ [{ node, select := false }]
          ui := .idle }
      | _, _ => some { st with ui := .idle }

/-- The next step of a call of `on_node_changed`, and where the call stands then. -/
def change (st : State) (c : Change) : ChangeEvent → Option (State × Phase)
  | .resolve ok =>
      if c.phase ≠ .asked then none
      else if st.tun = none then some (st, .replied true)
      else some (st, if ok then .resolved else .replied false)
  | .route r => do
      let tun ← st.tun
      if c.phase ≠ .resolved ∨ tun.stack.bump ≠ none then none
      else
        let route := setRoute tun.route (address c.node.server) r
        if r = .ok then
          some ({ st with tun := some { tun with
            route, stack := { tun.stack with bump := some .called } } }, .bumping)
        else some ({ st with tun := some { tun with route } }, .replied false)
  | .bump => do
      let tun ← st.tun
      let stack ← Generation.step tun.stack .bumping
      if c.phase ≠ .bumping then none
      else some ({ st with tun := some { tun with stack } },
        if stack.bump = none then .replied true else .bumping)
  | .report =>
      match c.phase with
      | .replied ok =>
          if st.ui ≠ .idle then none
          else if c.select ∧ ok then some ({ st with ui := .switch c.node }, .done)
          else some (st, .done)
      | _ => none

/-- The step dials through no node, or through the one in use. -/
def Dials (st : State) (via : Option ProxyNode) : Prop := via = none ∨ via = st.current

instance (st : State) (via : Option ProxyNode) : Decidable (st.Dials via) :=
  inferInstanceAs (Decidable (_ ∨ _))

def stepHttp (st : State) : Http → HttpEvent → Option Http
  | .accepted token, .dial via => if st.Dials via then some (.dialing token via) else none
  | .dialing token via, .dialed => some (.relaying token via)
  | .dialing token _, .cancelled => if token = st.conn then none else some .ended
  | .relaying token _, .cancelled => if token = st.conn then none else some .ended
  | .accepted _, .finish => some .ended
  | .dialing _ _, .finish => some .ended
  | .relaying _ _, .finish => some .ended
  | _, _ => none

/-- The steps of the TUN's own tasks; bumps and stops are steps of others. -/
def stepTun (st : State) (tun : Tun) : Generation.Event (Option ProxyNode) → Option State
  | .bump => none
  | .bumping => none
  | .stop => none
  | .stopRelay => none
  | .handler i (.dial via) =>
      if st.Dials via then
        (Generation.step tun.stack (.handler i (.dial via))).map fun stack =>
          { st with tun := some { tun with stack } }
      else none
  | e => (Generation.step tun.stack e).map fun stack => { st with tun := some { tun with stack } }

end State

def step (st : State) : Event → Option State
  | .select i => if st.ui = .idle then st.selectNode i else none
  | .switchProfile parsed => if st.ui = .idle then some (st.loadProfile parsed false) else none
  | .deleteProfile parsed => if st.ui = .idle then some (st.loadProfile parsed false) else none
  | .updateProfile =>
      if st.ui = .idle then some { st with fetches := st.fetches + 1 } else none
  | .fetched parsed =>
      if st.ui = .idle ∧ 0 < st.fetches then
        let st := { st with fetches := st.fetches - 1 }
        some (match parsed with
          | none => st
          | some parsed => st.loadProfile parsed true)
      else none
  | .ui => st.advance st.ui
  | .change k e => do
      let c ← st.changes[k]?
      let (st', phase) ← st.change address c e
      return { st' with changes := st.changes.set k { c with phase } }
  | .accept => some { st with http := st.http ++ [.accepted st.conn] }
  | .http j e => do
      let h ← st.http[j]?
      let h' ← st.stepHttp h e
      return { st with http := st.http.set j h' }
  | .tun e => do st.stepTun (← st.tun) e

/-! ## What is promised -/

/-- No action and no call is pending. -/
def State.Quiet (st : State) : Prop :=
  st.ui = .idle ∧ st.fetches = 0 ∧ ∀ c ∈ st.changes, c.phase = .done

structure Sound (st : State) : Prop where
  http : st.Quiet → ∀ (j : Nat) node, st.http[j]? = some (.relaying st.conn (some node)) →
    st.current = some node
  tun : st.Quiet → ∀ tun, st.tun = some tun → ∀ (i token : Nat) node,
    tun.stack.handlers[i]? = some (.relaying token (some node)) → tun.stack.Live token →
    st.current = some node
  route : st.Quiet → ∀ tun node, st.tun = some tun → st.current = some node →
    tun.route = some (address node.server)

/-- A switch has cut off the relays of the TUN and its node is not in use yet. -/
def State.Cutting (st : State) (tun : Tun) : Prop :=
  (∃ node, st.ui = .switch node) ∨ ∃ c ∈ st.changes, c.select = true ∧
    (c.phase = .replied true ∨ c.phase = .bumping ∧ ∃ old, tun.stack.bump = some (.swapped old))

/-- While the TUN runs, nothing changes the node but switches and updates, one after the
other.  A switch does not fail with its route changed, an update does not fail to change
it and leaves a node to use, and no connection with the new token is dialed between the bump
of a switch and its end. -/
def Settled (st : State) : Event → Prop
  | .select _ => st.tun ≠ none → ∀ c ∈ st.changes, c.phase = .done
  | .switchProfile parsed => st.tun ≠ none → (∀ c ∈ st.changes, c.phase = .done) ∧
      (st.list.reload parsed).shown = st.current
  | .deleteProfile parsed => st.tun ≠ none → (∀ c ∈ st.changes, c.phase = .done) ∧
      (st.list.reload parsed).shown = st.current
  | .fetched (some parsed) => st.tun ≠ none → (∀ c ∈ st.changes, c.phase = .done) ∧
      (st.list.reload parsed).shown ≠ none
  | .change k (.resolve ok) => ∀ c, st.changes[k]? = some c → st.tun ≠ none →
      c.select = true ∨ ok = true
  | .change k (.route r) => ∀ c tun, st.changes[k]? = some c → st.tun = some tun → r = .ok ∨
      c.select = true ∧ r = .addFailed ∧ tun.route ≠ some (address c.node.server)
  | .tun (.handler i (.dial (some _))) => ∀ tun token, st.tun = some tun →
      tun.stack.handlers[i]? = some (.admitted token) → st.Cutting tun →
      token ≠ tun.stack.relay
  | _ => True

def SettledSteps (st : State) (e : Event) (st' : State) : Prop :=
  step address st e = some st' ∧ Settled address st e

end Switching

end RustClash
