import RustClash.Tun.Packet
import RustClash.Tun.TcpNat

/-!
# The packet loop of the TUN stack

`process_packet` sends the packets of a connection to the local listener under a
port of the NAT table and the packets of the listener back to the connection.  An
`Outcome` is what it does with a packet: what it sends, or the arguments
`handle_dns` is called with.

The table is shared with the task that accepts connections and with the one that
sweeps it, under one lock; `Event` is any use of it.
-/

namespace RustClash

namespace Stack

open Checked Packet

def tunServer : Ipv4Addr := ⟨172, 19, 0, 1⟩
def tunClient : Ipv4Addr := ⟨172, 19, 0, 2⟩

def isTunPrefix (ip : Ipv4Addr) : Bool := ip.a = 172 ∧ ip.b = 19 ∧ ip.c = 0 ∧ ip.d ≤ 3

def isGlobalUnicast (ip : Ipv4Addr) : Bool :=
  if ip.a = 0 ∨ ip.a = 127 then false
  else if ip.a = 169 ∧ ip.b = 254 then false
  else if 224 ≤ ip.a then false
  else true

inductive Outcome where
  | drop
  | dns (src dst : Ipv4Addr) (srcPort : UInt16) (payload : Bytes)
  /-- Sent to the listener, from the port of its session. -/
  | forward (natPort : UInt16) (packet : Bytes)
  /-- Sent back to the source of its session. -/
  | back (packet : Bytes)
deriving DecidableEq, Repr

/-- The packet between new endpoints, as both directions write it. -/
def readdress (packet : Bytes) (ip : Ipv4) (src dst : SocketAddrV4) : Checked Bytes := do
  let packet ← setAddresses packet ip.headerLen src.ip dst.ip
  let packet ← within packet ip.headerLen ip.totalLen fun segment =>
    setTcpPorts segment src.port dst.port
  let packet ← updateTcpChecksum packet ip.headerLen src.ip dst.ip
  slice packet 0 ip.totalLen

/-- The UDP branch of `process_packet`: only DNS queries are answered. -/
def processUdp (packet : Bytes) (ip : Ipv4) : Checked Outcome := do
  let udp ← slice packet ip.headerLen ip.totalLen
  let some (srcPort, dstPort, payloadLen) ← parseUdp udp | return .drop
  if dstPort ≠ 53 then return .drop
  let payload ← slice udp udpHdr (udpHdr + payloadLen)
  return .dns ip.src ip.dst srcPort payload

/-- The TCP branch of `process_packet`. -/
def processTcp (listenPort : UInt16) (nat : TcpNat) (now : Nat) (packet : Bytes) (ip : Ipv4) :
    Checked (Outcome × TcpNat) := do
  let tcp ← slice packet ip.headerLen ip.totalLen
  let some (tcpSrc, tcpDst, _, _) ← parseTcp tcp | return (.drop, nat)
  if ip.src = tunServer ∧ tcpSrc = listenPort then
    match nat.lookupBack now tcpDst with
    | (none, nat) => return (.drop, nat)
    | (some (sessSrc, sessDst), nat) =>
        let out ← readdress packet ip sessDst sessSrc
        return (.back out, nat)
  if ip.dst = tunServer ∧ tcpDst = listenPort then return (.drop, nat)
  if !isGlobalUnicast ip.dst ∨ isTunPrefix ip.dst then return (.drop, nat)
  match nat.lookup now ⟨ip.src, tcpSrc⟩ ⟨ip.dst, tcpDst⟩ with
  | (none, nat) => return (.drop, nat)
  | (some natPort, nat) =>
      let out ← readdress packet ip ⟨tunClient, natPort⟩ ⟨tunServer, listenPort⟩
      return (.forward natPort out, nat)

def processPacket (listenPort : UInt16) (nat : TcpNat) (now : Nat) (packet : Bytes) :
    Checked (Outcome × TcpNat) := do
  let some ip ← parseIpv4 packet | return (.drop, nat)
  if ip.proto = protoUdp then return (← processUdp packet ip, nat)
  if ip.proto ≠ protoTcp then return (.drop, nat)
  processTcp listenPort nat now packet ip

/-! ## Runs of the stack -/

inductive Event where
  | packet (now : Nat) (packet : Bytes)
  /-- A connection from `port` is accepted, and its session looked up. -/
  | accept (now : Nat) (port : UInt16)
  | sweep (now : Nat)

/-- The table after an event.  A packet on which `process_packet` stops leaves it. -/
def step (listenPort : UInt16) (nat : TcpNat) : Event → TcpNat
  | .packet now packet =>
      match processPacket listenPort nat now packet with
      | .ok (_, nat) => nat
      | .error _ => nat
  | .accept now port => (nat.lookupBack now port).2
  | .sweep now => nat.sweep now

/-- The table after a sequence of events. -/
def run (listenPort : UInt16) (nat : TcpNat) (events : List Event) : TcpNat :=
  events.foldl (step listenPort) nat

end Stack

end RustClash
