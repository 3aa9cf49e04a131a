import RustClash.Lib.FinMap
import RustClash.Lib.Lts
import RustClash.Net.Addr

/-!
# The NAT table of the TUN stack

`TcpNat` gives every source of the tunnel one port of its own, so that the
packets of a connection can be sent to the local listener and back.
`addr_map` finds the port of a source, `port_map` the session of a port.
Sessions are rewritten when their source turns to another destination and swept
after an idle time.

The two maps are one table seen from both ends: that is `FinMap.Inverse`, and
every operation is an instance of one of its update lemmas.  Clock readings are
arguments; `Instant::duration_since` saturates at zero, as subtraction on `Nat`
does.
-/

namespace RustClash

/-- `TcpSession`. -/
structure TcpSession where
  source : SocketAddrV4
  destination : SocketAddrV4
  last : Nat
deriving DecidableEq, Repr

/-- `TcpNat` together with the table behind its gate. -/
structure TcpNat where
  timeout : Nat
  addrMap : FinMap SocketAddrV4 UInt16
  portMap : FinMap UInt16 TcpSession
  portIndex : UInt16

namespace TcpNat

/-! ## The operations -/

def new (timeout : Nat) : TcpNat where
  timeout := timeout
  addrMap := ∅
  portMap := ∅
  portIndex := 10000

/-- The port under the cursor and the cursor after it: the cursor wraps through
`0`, which stands for `10000`. -/
def nextPort (portIndex : UInt16) : UInt16 × UInt16 :=
  if portIndex = 0 then (10000, 10001) else (portIndex, portIndex + 1)

/-- The search loop of `lookup`: at most `n` more ports are tried, and the last
one tried is returned with the cursor. -/
def searchPort (portMap : FinMap UInt16 TcpSession) :
    Nat → UInt16 → UInt16 → UInt16 × UInt16
  | 0, next, portIndex => (next, portIndex)
  | n + 1, _, portIndex =>
      let (next, portIndex) := nextPort portIndex
      if next ∈ portMap then searchPort portMap n next portIndex else (next, portIndex)

def lookup (g : TcpNat) (now : Nat) (source destination : SocketAddrV4) :
    Option UInt16 × TcpNat :=
  match g.addrMap.lookup source with
  | some existing =>
      let destChanged := (g.portMap.lookup existing).any fun s => s.destination ≠ destination
      if destChanged then
        let src := ((g.portMap.lookup existing).map TcpSession.source).getD source
        (some existing, { g with portMap := g.portMap.insert existing ⟨src, destination, now⟩ })
      else
        match g.portMap.lookup existing with
        | some s => (some existing,
            { g with portMap := g.portMap.insert existing { s with last := now } })
        | none => (some existing, g)
  | none =>
      let (next, portIndex) := searchPort g.portMap 55535 0 g.portIndex
      if next = 0 ∨ next ∈ g.portMap then (none, { g with portIndex })
      else (some next, { g with
        addrMap := g.addrMap.insert source next
        portMap := g.portMap.insert next ⟨source, destination, now⟩
        portIndex })

def lookupBack (g : TcpNat) (now : Nat) (port : UInt16) :
    Option (SocketAddrV4 × SocketAddrV4) × TcpNat :=
  match g.portMap.lookup port with
  | none => (none, g)
  | some s => (some (s.source, s.destination),
      { g with portMap := g.portMap.insert port { s with last := now } })

def hasDestination (g : TcpNat) (ip : Ipv4Addr) : Bool :=
  g.portMap.entries.any fun e => e.2.destination.ip = ip

/-- A session has been idle for longer than the timeout. -/
def Expired (g : TcpNat) (now : Nat) (s : TcpSession) : Prop := g.timeout < now - s.last

instance (g : TcpNat) (now : Nat) (s : TcpSession) : Decidable (g.Expired now s) :=
  inferInstanceAs (Decidable (_ < _))

/-- The ports `sweep` collects before it removes them. -/
def deadPorts (g : TcpNat) (now : Nat) : List UInt16 :=
  (g.portMap.entries.filter fun e => g.Expired now e.2).map Sigma.fst

/-- One removal of `sweep`: the port and the source of its session. -/
def removePort (g : TcpNat) (p : UInt16) : TcpNat :=
  match g.portMap.lookup p with
  | none => g
  | some s => { g with portMap := g.portMap.erase p, addrMap := g.addrMap.erase s.source }

def sweep (g : TcpNat) (now : Nat) : TcpNat := (g.deadPorts now).foldl removePort g

end TcpNat

end RustClash
