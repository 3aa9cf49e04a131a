import Mathlib.Logic.Function.Basic
import RustClash.Core.Str
import RustClash.Lib.Prog
import RustClash.Net.AddrText

/-!
# What enhance mode changes in Windows

While the TUN runs, a host route leads to the server of the node, two routes lead everything
else into the TUN, IPv6 of the physical adapter is off, and its DNS server is a fake one.
`stop` undoes what the `TunRoutes` in memory knows of; `recover` undoes what it finds in the undo
file, after a start that failed or at the next run of the program.
-/

namespace RustClash

namespace Enhance

open Prog Str

/-! ## The network configuration -/

inductive Dns where
  | dhcp
  | static (servers : List Ipv4Addr)
deriving DecidableEq, Repr

structure Route where
  dest : Ipv4Addr
  mask : Ipv4Addr
  gateway : Ipv4Addr
  interface : Option Int
deriving DecidableEq, Repr

/-- The adapters by their names, and the table of routes.  The adapter of the TUN is not among
them: it goes with its device. -/
structure Net where
  adapters : List Str
  dns : Str → Dns
  ipv6 : Str → Bool
  routes : Route → Bool

/-- `PhysicalEndpoint`. -/
structure PhysicalEndpoint where
  interfaceIndex : Int
  gateway : Ipv4Addr
  name : Str
deriving DecidableEq, Repr

structure TunRoutes where
  physical : PhysicalEndpoint
  node : Option Ipv4Addr
  ipv6Disabled : Option Str
deriving DecidableEq, Repr

structure Undo where
  ifname : Str
  node : Option Ipv4Addr
  ipv6 : Bool
deriving DecidableEq, Repr

/-- A file that has been truncated and not yet written is no JSON. -/
inductive UndoFile where
  | absent
  | torn
  | saved (u : Undo)
deriving DecidableEq, Repr

/-- `runtime` is there while the TUN runs. -/
structure World where
  net : Net
  undo : UndoFile
  runtime : Option TunRoutes

/-! ## Acts -/

inductive Op where
  | probe
  | createDevice
  | configureInterface
  | startStack
  | routeAdd (r : Route)
  | routeDelete (dest mask : Ipv4Addr) (gateway : Option Ipv4Addr)
  | disableIpv6 (name : Str)
  | enableIpv6 (name : Str)
  | setDns (name : Str) (d : Dns)
  /-- The same for the adapter of the TUN. -/
  | setTunDns (d : Dns)
  | listDns
  | flushDns
  | removeFirewall
  | truncateUndo
  | writeUndo (u : Undo)
  | removeUndo
  | setRuntime (rt : Option TunRoutes)
deriving DecidableEq, Repr

def Op.fallible : Op → Bool
  | .setRuntime _ => false
  | _ => true

/-- The routes that a command deletes. -/
def Route.matches (dest mask : Ipv4Addr) (gateway : Option Ipv4Addr) (r : Route) : Bool :=
  r.dest = dest && r.mask = mask && gateway.all (· = r.gateway)

def Net.effect : Op → Net → Net
  | .routeAdd r, n => { n with routes := fun r' => n.routes r' || r' = r }
  | .routeDelete dest mask gateway, n =>
      { n with routes := fun r => n.routes r && !r.matches dest mask gateway }
  | .disableIpv6 name, n => { n with ipv6 := Function.update n.ipv6 name false }
  | .enableIpv6 name, n => { n with ipv6 := Function.update n.ipv6 name true }
  | .setDns name d, n => { n with dns := Function.update n.dns name d }
  | _, n => n

def effect (o : Op) (w : World) : World where
  net := Net.effect o w.net
  undo :=
    match o with
    | .truncateUndo => .torn
    | .writeUndo u => .saved u
    | .removeUndo => .absent
    | _ => w.undo
  runtime :=
    match o with
    | .setRuntime rt => rt
    | _ => w.runtime

/-- Why there is no address to lead a route to. -/
inductive Refusal where
  /-- "TunService not configured". -/
  | notConfigured
  /-- "Select a proxy node before enabling enhance mode". -/
  | noNode
  /-- "Could not resolve node IPv4 for anti-loop route". -/
  | notResolved
  /-- "IPv4 required for anti-loop route". -/
  | notIpv4
deriving DecidableEq, Repr

inductive Fault where
  | refused (r : Refusal)
  /-- "No usable physical IPv4 default interface found". -/
  | noInterface
  | command (o : Op)
deriving DecidableEq, Repr

abbrev Action (α : Type) := Prog World Op Fault α

def run (o : Op) : Action Unit := must (.command o) o

/-! ## `TunRoutes` -/

def TUN_SERVER : Ipv4Addr := ⟨172, 19, 0, 1⟩

def FAKE_DNS : Ipv4Addr := ⟨198, 18, 0, 2⟩

def hostMask : Ipv4Addr := ⟨255, 255, 255, 255⟩

def halfMask : Ipv4Addr := ⟨128, 0, 0, 0⟩

/-- The lower and the upper half of all addresses. -/
def lowerHalf : Ipv4Addr := ⟨0, 0, 0, 0⟩

def upperHalf : Ipv4Addr := ⟨128, 0, 0, 0⟩

def hostRoute (physical : PhysicalEndpoint) (node : Ipv4Addr) : Route :=
  ⟨node, hostMask, physical.gateway, some physical.interfaceIndex⟩

def splitRoute (half : Ipv4Addr) : Route := ⟨half, halfMask, TUN_SERVER, none⟩

/-- What `write_undo` saves. -/
def TunRoutes.undo (t : TunRoutes) : Undo := ⟨t.physical.name, t.node, t.ipv6Disabled.isSome⟩

def writeUndo (t : TunRoutes) : Action Unit := do
  run .truncateUndo
  run (.writeUndo t.undo)

def addHostRoute (physical : PhysicalEndpoint) (node : Ipv4Addr) : Action Unit := do
  let ok ← attempt (.routeAdd (hostRoute physical node))
  if ok then pure ()
  else do
    perform (.routeDelete node hostMask none)
    run (.routeAdd (hostRoute physical node))

def deleteOld (t : TunRoutes) (node : Ipv4Addr) : Action Unit :=
  match t.node with
  | some old =>
      if old ≠ node then perform (.routeDelete old hostMask (some t.physical.gateway)) else pure ()
  | none => pure ()

/-- The `TunRoutes` also changes where an error is returned. -/
def setNodeHostRoute (node : Ipv4Addr) (t : TunRoutes) : Action (TunRoutes × Except Fault Unit) := do
  let r ← result (addHostRoute t.physical node)
  match r with
  | .error e => pure (t, .error e)
  | .ok () => do
      deleteOld t node
      let r ← result (writeUndo { t with node := some node })
      pure ({ t with node := some node }, r)

def disableIpv6 (t : TunRoutes) : Action TunRoutes := do
  let ok ← attempt (.disableIpv6 t.physical.name)
  let t := if ok then { t with ipv6Disabled := some t.physical.name } else t
  ignored (writeUndo t)
  pure t

def installSplitDefault : Action Unit := do
  run (.routeAdd (splitRoute lowerHalf))
  run (.routeAdd (splitRoute upperHalf))

def configureDnsHijack (t : TunRoutes) : Action Unit := do
  run (.setTunDns (.static [FAKE_DNS]))
  run (.setDns t.physical.name (.static [FAKE_DNS]))
  perform .flushDns

def deleteSplit : Action Unit := do
  perform (.routeDelete lowerHalf halfMask none)
  perform (.routeDelete upperHalf halfMask none)

def uninstallNode (t : TunRoutes) : Action Unit :=
  match t.node with
  | some node => perform (.routeDelete node hostMask (some t.physical.gateway))
  | none => pure ()

def uninstallIpv6 (t : TunRoutes) : Action Unit :=
  match t.ipv6Disabled with
  | some name => perform (.enableIpv6 name)
  | none => pure ()

def uninstall (t : TunRoutes) : Action Unit := do
  deleteSplit
  uninstallNode t
  perform (.setTunDns .dhcp)
  perform (.setDns t.physical.name .dhcp)
  uninstallIpv6 t
  perform .removeUndo

/-! ## `recover` -/

/-- By its octets, or by a line of the listing. -/
def isFake (ip : Ipv4Addr) : Bool :=
  (ip.a = 198 && ip.b = 18) || contains ['1', '9', '8', '.', '1', '8', '.'] ip.toText

def Dns.isFake : Dns → Bool
  | .dhcp => false
  | .static servers => servers.any Enhance.isFake

def Net.fakeDnsNames (n : Net) : List Str := n.adapters.filter fun name => (n.dns name).isFake

def setDhcp : List Str → Action Unit
  | [] => pure ()
  | name :: names => do
      perform (.setDns name .dhcp)
      setDhcp names

def restoreFakeDnsNics : Action Unit := do
  let ok ← attempt .listDns
  if ok then do
    let names ← get fun w => w.net.fakeDnsNames
    setDhcp names
  else pure ()

def recoverIpv6 (u : Undo) : Action Unit :=
  if u.ipv6 then perform (.enableIpv6 u.ifname) else pure ()

def recoverNode (u : Undo) : Action Unit :=
  match u.node with
  | some node => perform (.routeDelete node hostMask none)
  | none => pure ()

def recoverUndo (u : Undo) : Action Unit := do
  perform (.setDns u.ifname .dhcp)
  recoverIpv6 u
  recoverNode u

def recoverFile : UndoFile → Action Unit
  | .absent => pure ()
  | .torn => perform .removeUndo
  | .saved u => do
      recoverUndo u
      perform .removeUndo

def recover : Action Unit := do
  let undo ← get (·.undo)
  recoverFile undo
  deleteSplit
  perform (.setTunDns .dhcp)
  restoreFakeDnsNics
  perform .flushDns
  perform .removeFirewall

/-! ## `TunService` -/

/-- What is left of `start_inner` when the address of the node and the adapter are known. -/
def install (physical : PhysicalEndpoint) (node : Ipv4Addr) : Action Unit := do
  run .createDevice
  run .configureInterface
  let (t, r) ← setNodeHostRoute node ⟨physical, none, none⟩
  match r with
  | .error e => fail e
  | .ok () => do
      let t ← disableIpv6 t
      run .startStack
      installSplitDefault
      configureDnsHijack t
      perform (.setRuntime (some t))

def startInner (node : Except Refusal Ipv4Addr) (physical : PhysicalEndpoint) : Action Unit :=
  match node with
  | .error r => fail (.refused r)
  | .ok node => do
      run .probe
      let listed ← get fun w => decide (physical.name ∈ w.net.adapters)
      if listed then install physical node else fail .noInterface

def stop : Action Unit := do
  let rt ← get (·.runtime)
  match rt with
  | some t => do
      perform (.setRuntime none)
      uninstall t
      perform .removeFirewall
  | none => perform .removeFirewall

def start (node : Except Refusal Ipv4Addr) (physical : PhysicalEndpoint) : Action Unit := do
  let rt ← get (·.runtime)
  if rt.isSome then pure ()
  else do
    let r ← result (startInner node physical)
    match r with
    | .ok () => pure ()
    | .error e => do
        stop
        recover
        fail e

/-- A node without an IPv4 address changes nothing. -/
def onNodeChanged (node : Option Ipv4Addr) : Action Bool := do
  let rt ← get (·.runtime)
  match node, rt with
  | some node, some t => do
      let (t, r) ← setNodeHostRoute node t
      perform (.setRuntime (some t))
      pure r.isOk
  | none, some _ => pure false
  | _, none => pure true

inductive Call where
  | start (node : Except Refusal Ipv4Addr) (physical : PhysicalEndpoint)
  | nodeChanged (node : Option Ipv4Addr)
  | stop
  | recover
deriving DecidableEq, Repr

def machine : Machine World Op Fault Unit Call where
  effect := effect
  fallible := Op.fallible
  body
    | .start node physical => start node physical
    | .nodeChanged node => do
        let _ ← onNodeChanged node
        pure ()
    | .stop => stop
    | .recover => recover
  reset w := { w with runtime := none }

def init (net : Net) : Machine.State World Op Fault Unit Call := Machine.start ⟨net, .absent, none⟩

end Enhance

end RustClash
