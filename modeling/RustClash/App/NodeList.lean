import Mathlib.Data.List.Sort
import RustClash.Config.Node

/-!
# The list of nodes

`MainView` shows the nodes of the active profile with what the last health check found of
each, and the place of the selected one.  The list is sorted again whenever results come in;
the selection is found again by name, server and port.
-/

namespace RustClash

open Str

/-- A line about the subscription that stands among the nodes. -/
def ProxyNode.isSubscriptionInfo (node : ProxyNode) : Bool :=
  contains ['剩', '余', '流', '量'] node.name ||
    contains ['距', '离', '下', '次', '重', '置'] node.name ||
    contains ['套', '餐', '到', '期'] node.name || contains ['官', '网'] node.name

inductive HealthStatus where
  | idle
  | checking
  | ok
  | slow
  | latencyFailed
deriving DecidableEq, Repr

structure HealthCheckResult where
  latencyOk : Bool
  latencyMs : Option Int
  status : HealthStatus
deriving DecidableEq, Repr

structure NodeVm where
  node : ProxyNode
  latency : Str := ['-']
  health : HealthStatus := .idle
  latencyMs : Option Int := none
deriving DecidableEq, Repr

structure SavedNode where
  name : Str
  server : Str
  port : UInt16
deriving DecidableEq, Repr

/-- The largest `i32`. -/
def maxLatency : Int := 2147483647

def healthRank (n : NodeVm) : Nat × Int :=
  if n.node.isSubscriptionInfo then (0, 0)
  else match n.health with
    | .ok => (1, n.latencyMs.getD maxLatency)
    | .slow => (1, n.latencyMs.getD maxLatency)
    | .latencyFailed => (2, maxLatency)
    | .checking => (3, maxLatency)
    | .idle => (3, maxLatency)

/-- Ranks are compared by their first part, then by their second. -/
def rankLe (a b : Nat × Int) : Prop := a.1 < b.1 ∨ a.1 = b.1 ∧ a.2 ≤ b.2

instance (a b : Nat × Int) : Decidable (rankLe a b) := inferInstanceAs (Decidable (_ ∨ _))

/-- The node has the name, the server and the port. -/
def SavedNode.Matches (want : SavedNode) (n : NodeVm) : Prop :=
  n.node.name = want.name ∧ n.node.server = want.server ∧ n.node.port = want.port

instance (want : SavedNode) (n : NodeVm) : Decidable (want.Matches n) :=
  inferInstanceAs (Decidable (_ ∧ _))

def findSavedNode (nodes : List NodeVm) (want : SavedNode) : Option Nat :=
  (nodes.findIdx? fun n => want.Matches n) <|>
    nodes.findIdx? fun n => n.node.name = want.name && !n.node.isSubscriptionInfo

/-- The nodes of the view and the place of the selected one. -/
structure NodeList where
  nodes : List NodeVm
  selected : Option Nat
deriving DecidableEq, Repr

namespace NodeList

/-- The node shown as selected. -/
def shown (l : NodeList) : Option ProxyNode := do
  let i ← l.selected
  return (← l.nodes[i]?).node

def savedNode (l : NodeList) : Option SavedNode := do
  let n ← l.shown
  if n.isSubscriptionInfo then none
  else some ⟨n.name, n.server, n.port⟩

/-- `reload_nodes` with the nodes of the profile that is active now. -/
def reload (l : NodeList) (parsed : List ProxyNode) : NodeList :=
  let nodes := parsed.map fun node => ({ node } : NodeVm)
  { nodes
    selected := (l.savedNode.bind fun want => findSavedNode nodes want) <|>
      nodes.findIdx? fun n => !n.node.isSubscriptionInfo }

def sortHealthPartial (l : NodeList) : NodeList :=
  let nodes := l.nodes.insertionSort fun a b => rankLe (healthRank a) (healthRank b)
  { nodes, selected := l.savedNode.bind fun want => findSavedNode nodes want }

/-- `toggle_health` marks the nodes it is about to check. -/
def markChecking (l : NodeList) : NodeList :=
  { l with nodes := l.nodes.map fun n =>
      if n.node.isSubscriptionInfo then n
      else { n with latency := ['…'], health := .checking, latencyMs := none } }

def latencyText (r : HealthCheckResult) : Str :=
  if r.latencyOk then (toString (r.latencyMs.getD 0)).toList ++ ['m', 's']
  else ['t', 'i', 'm', 'e', 'o', 'u', 't']

def applyHealthResult (l : NodeList) (key : SavedNode) (r : HealthCheckResult) : NodeList :=
  match l.nodes.findIdx? fun n => key.Matches n with
  | none => l
  | some i => { l with nodes := l.nodes.modify i fun n =>
      { n with health := r.status, latencyMs := r.latencyMs, latency := latencyText r } }

end NodeList

end RustClash
