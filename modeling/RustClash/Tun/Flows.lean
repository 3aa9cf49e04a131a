import RustClash.Core.TtlLru
import RustClash.Tun.RoundTrip

/-!
# Connections of the listener

The listener of the TUN knows a connection by its NAT port.  A connection is opened by a
segment that is sent to a free port, and from then on the segments to and from that port are
those of the connection, whoever sent them.  `handle_accepted` looks its session up when it
is accepted and relays it until it is closed.  A segment that opens no connection is answered
as well, so what the listener sends to a port is part of one of the flows that reached it there.

The table knows a source and not a flow.  As long as no segment of the source of a flow goes to
another destination before the listener is done with its port, and no sweep removes the session
of such a port, each port has the session of every flow that reached it (`Own`).
-/

namespace RustClash

namespace Stack

open Checked Packet

/-! ## State -/

/-- An open connection of the listener: the source and the destination of the segment that
opened it, what `handle_accepted` looked up once it was accepted, and the time of its last
segment in either direction. -/
structure Conn where
  source : SocketAddrV4
  destination : SocketAddrV4
  relayed : Option (SocketAddrV4 × SocketAddrV4)
  last : Nat
deriving DecidableEq

/-- The table, the open connections by their ports, and the flows, each a source and a
destination, whose segments reached the listener on a port that it is not done with. -/
structure Flows where
  nat : TcpNat
  conns : UInt16 → Option Conn
  clock : Nat
  reached : UInt16 → List (SocketAddrV4 × SocketAddrV4)

def Flows.init : Flows := ⟨.new (secs 300), fun _ => none, 0, fun _ => []⟩

namespace Flows

/-- The source and the destination of a TCP packet. -/
def segment (packet : Bytes) : Option (SocketAddrV4 × SocketAddrV4) :=
  match parseIpv4 packet with
  | .ok (some ip) =>
      if ip.proto = protoTcp then
        match slice packet ip.headerLen ip.totalLen >>= parseTcp with
        | .ok (some (src, dst, _, _)) => some (⟨ip.src, src⟩, ⟨ip.dst, dst⟩)
        | _ => none
      else none
  | _ => none

/-- A segment of the connection on a port. -/
def touch (conns : UInt16 → Option Conn) (port : UInt16) (now : Nat) : UInt16 → Option Conn :=
  Function.update conns port ((conns port).map ({ · with last := now }))

/-- A segment that is sent to the listener, which may take it for the first of a connection. -/
def deliver (conns : UInt16 → Option Conn) (port : UInt16) (now : Nat) (opens : Bool)
    (source destination : SocketAddrV4) : UInt16 → Option Conn :=
  if (conns port).isNone ∧ opens then
    Function.update conns port (some ⟨source, destination, none, now⟩)
  else touch conns port now

/-- The connections after a packet and what became of it. -/
def carry (listenPort : UInt16) (conns : UInt16 → Option Conn) (now : Nat) (packet : Bytes)
    (opens : Bool) (outcome : Outcome) : UInt16 → Option Conn :=
  match segment packet with
  | none => conns
  | some (source, destination) =>
      if source = ⟨tunServer, listenPort⟩ then touch conns destination.port now
      else
        match outcome with
        | .forward port _ => deliver conns port now opens source destination
        | _ => conns

/-- The flows that reached the listener after a packet and what became of it. -/
def reach (listenPort : UInt16) (reached : UInt16 → List (SocketAddrV4 × SocketAddrV4))
    (packet : Bytes) (outcome : Outcome) : UInt16 → List (SocketAddrV4 × SocketAddrV4) :=
  match segment packet with
  | none => reached
  | some (source, destination) =>
      if source = ⟨tunServer, listenPort⟩ then reached
      else
        match outcome with
        | .forward port _ => Function.update reached port ((source, destination) :: reached port)
        | _ => reached

/-! ## Steps -/

inductive Event where
  /-- A packet of the device; `opens` if the listener is ready to open a connection. -/
  | packet (now : Nat) (packet : Bytes) (opens : Bool)
  /-- The connection on the port is accepted, and its session looked up. -/
  | accept (now : Nat) (port : UInt16)
  /-- The listener is done with the port: its connection ends, or a segment that opened none is
  answered.  What it sends there next is part of a flow that reaches it later. -/
  | close (port : UInt16)
  | sweep (now : Nat)

/-- The connections after one was accepted. -/
def accepted (conns : UInt16 → Option Conn) (port : UInt16)
    (found : Option (SocketAddrV4 × SocketAddrV4)) : UInt16 → Option Conn :=
  Function.update conns port ((conns port).map ({ · with relayed := found }))

def step (listenPort : UInt16) (st : Flows) : Event → Option Flows
  | .packet now packet opens =>
      if now < st.clock then none
      else
        match processPacket listenPort st.nat now packet with
        | .error _ => none
        | .ok (outcome, nat) =>
            some ⟨nat, carry listenPort st.conns now packet opens outcome, now,
              reach listenPort st.reached packet outcome⟩
  | .accept now port =>
      if now < st.clock ∨ (st.conns port).all (·.relayed.isSome) then none
      else
        let (found, nat) := st.nat.lookupBack now port
        some ⟨nat, accepted st.conns port found, now, st.reached⟩
  | .close port =>
      some { st with
        conns := Function.update st.conns port none
        reached := Function.update st.reached port [] }
  | .sweep now => if now < st.clock then none else some { st with nat := st.nat.sweep now, clock := now }

/-! ## What a packet does -/

section

variable {packet : Bytes} {ip : Ipv4} {source destination : SocketAddrV4}

theorem segment_eq (h : IsTcpPacket packet ip source destination) :
    segment packet = some (source, destination) := by
  have hslice : slice packet ip.headerLen ip.totalLen = _ :=
    slice_ok h.ipv4.header_le h.ipv4.total_le
  rw [segment, parseIpv4_eq h.ipv4]
  show (if ip.proto = protoTcp then _ else _) = _
  rw [if_pos h.proto, hslice]
  rcases parseTcp_spec ((packet.take ip.totalLen).drop ip.headerLen) with
    ⟨_, hno⟩ | ⟨src, dst, flags, off, hp, hs⟩
  · exact absurd h.tcp (hno _ _)
  · show (match parseTcp _ with
      | .ok (some (src, dst, _, _)) => some (_, _)
      | _ => none) = _
    have hsrc : src = source.port := hs.src.trans h.tcp.src.symm
    have hdst : dst = destination.port := hs.dst.trans h.tcp.dst.symm
    rw [hp, hsrc, hdst, h.src, h.dst]

theorem segment_some (h : segment packet = some (source, destination)) :
    ∃ ip, IsTcpPacket packet ip source destination := by
  rw [segment] at h
  rcases parseIpv4_spec packet with ⟨hp, _⟩ | ⟨ip, hp, hip⟩
  · rw [hp] at h
    cases h
  · rw [hp] at h
    obtain ⟨hproto, h⟩ := Option.ite_none_right_eq_some.mp h
    rw [slice_ok hip.header_le hip.total_le] at h
    rcases parseTcp_spec ((packet.take ip.totalLen).drop ip.headerLen) with
      ⟨hno, _⟩ | ⟨src, dst, _, _, hp, hs⟩
    · have h : (match parseTcp ((packet.take ip.totalLen).drop ip.headerLen) with
        | .ok (some (src, dst, _, _)) => some (⟨ip.src, src⟩, ⟨ip.dst, dst⟩)
        | _ => none) = some (source, destination) := h
      rw [hno] at h
      cases h
    · have h : (match parseTcp ((packet.take ip.totalLen).drop ip.headerLen) with
        | .ok (some (src, dst, _, _)) => some (⟨ip.src, src⟩, ⟨ip.dst, dst⟩)
        | _ => none) = some (source, destination) := h
      rw [hp] at h
      cases h
      exact ⟨ip, hip, hproto, rfl, rfl, hs⟩

/-- `process_packet` by the segment of a packet. -/
theorem processPacket_segment (listenPort : UInt16) (nat : TcpNat) (now : Nat) (packet : Bytes) :
    (segment packet = none ∧ ∃ o, processPacket listenPort nat now packet = .ok (o, nat)) ∨
    ∃ ip source destination, IsTcpPacket packet ip source destination ∧
      segment packet = some (source, destination) ∧
      ((source = ⟨tunServer, listenPort⟩ ∧ processPacket listenPort nat now packet =
        .ok (backOutcome packet ip (nat.lookupBack now destination.port).1,
          (nat.lookupBack now destination.port).2)) ∨
      (source ≠ ⟨tunServer, listenPort⟩ ∧
        processPacket listenPort nat now packet = .ok (.drop, nat)) ∨
      (source ≠ ⟨tunServer, listenPort⟩ ∧ Forwards listenPort source destination ∧
        processPacket listenPort nat now packet =
          .ok (forwardOutcome listenPort packet ip (nat.lookup now source destination).1,
            (nat.lookup now source destination).2))) := by
  cases hseg : segment packet with
  | none =>
      refine .inl ⟨rfl, ?_⟩
      have hno : ∀ ip source destination, ¬ IsTcpPacket packet ip source destination :=
        fun ip source destination h => by
          rw [segment_eq h] at hseg
          cases hseg
      rcases processPacket_cases listenPort nat now packet with
        ⟨o, he, _⟩ | ⟨ip, _, h, _⟩ | ⟨ip, _, _, h, _, _⟩
      · exact ⟨o, he⟩
      · exact absurd h (hno _ _ _)
      · exact absurd h (hno _ _ _)
  | some ends =>
      obtain ⟨source, destination⟩ := ends
      obtain ⟨ip, h⟩ := segment_some hseg
      refine .inr ⟨ip, source, destination, h, rfl, ?_⟩
      rw [processPacket_tcp h, processTcp_eq h]
      by_cases hl : source = ⟨tunServer, listenPort⟩
      · exact .inl ⟨hl, if_pos hl⟩
      · rw [if_neg hl]
        by_cases hd : destination = ⟨tunServer, listenPort⟩
        · exact .inr (.inl ⟨hl, if_pos hd⟩)
        · rw [if_neg hd]
          by_cases hg : !isGlobalUnicast destination.ip ∨ isTunPrefix destination.ip
          · exact .inr (.inl ⟨hl, if_pos hg⟩)
          · rw [if_neg hg]
            obtain ⟨hglobal, hprefix⟩ := not_or.mp hg
            exact .inr (.inr ⟨hl, ⟨hl, hd, by simpa using hglobal, by simpa using hprefix⟩, rfl⟩)

end

/-! ## What a step does -/

section

variable {listenPort : UInt16} {st st' : Flows}

/-- The packet is sent to the listener under its port of the table, if there is one. -/
def Sent (listenPort : UInt16) (packet : Bytes) (source destination : SocketAddrV4) : Prop :=
  segment packet = some (source, destination) ∧ Forwards listenPort source destination

/-- The listener sends the packet to the port of a connection. -/
def Reply (listenPort : UInt16) (packet : Bytes) (port : UInt16) : Prop :=
  ∃ client : SocketAddrV4, segment packet = some (⟨tunServer, listenPort⟩, client) ∧ client.port = port

theorem carry_some {conns : UInt16 → Option Conn} {now : Nat} {packet : Bytes} {opens : Bool}
    {outcome : Outcome} {source destination : SocketAddrV4}
    (h : segment packet = some (source, destination)) :
    carry listenPort conns now packet opens outcome =
      if source = ⟨tunServer, listenPort⟩ then touch conns destination.port now
      else
        match outcome with
        | .forward port _ => deliver conns port now opens source destination
        | _ => conns := by
  rw [carry, h]

theorem reach_some {reached : UInt16 → List (SocketAddrV4 × SocketAddrV4)} {packet : Bytes}
    {outcome : Outcome} {source destination : SocketAddrV4}
    (h : segment packet = some (source, destination)) :
    reach listenPort reached packet outcome =
      if source = ⟨tunServer, listenPort⟩ then reached
      else
        match outcome with
        | .forward port _ => Function.update reached port ((source, destination) :: reached port)
        | _ => reached := by
  rw [reach, h]

/-- All that a packet does. -/
theorem step_packet {now : Nat} {packet : Bytes} {opens : Bool}
    (h : step listenPort st (.packet now packet opens) = some st') :
    st.clock ≤ now ∧
    (st' = { st with clock := now } ∨
    (∃ port, Reply listenPort packet port ∧
      st' = ⟨(st.nat.lookupBack now port).2, touch st.conns port now, now, st.reached⟩) ∨
    ∃ source destination, Sent listenPort packet source destination ∧
      st' = ⟨(st.nat.lookup now source destination).2,
        match (st.nat.lookup now source destination).1 with
        | none => st.conns
        | some port => deliver st.conns port now opens source destination, now,
        match (st.nat.lookup now source destination).1 with
        | none => st.reached
        | some port =>
            Function.update st.reached port ((source, destination) :: st.reached port)⟩) := by
  rw [step] at h
  obtain ⟨hclock, h⟩ := Option.ite_none_left_eq_some.mp h
  refine ⟨Nat.not_lt.mp hclock, ?_⟩
  have hstep : ∀ {o nat}, processPacket listenPort st.nat now packet = .ok (o, nat) →
      st' = ⟨nat, carry listenPort st.conns now packet opens o, now,
        reach listenPort st.reached packet o⟩ := fun he => by
    rw [he] at h
    exact (Option.some.inj h).symm
  rcases processPacket_segment listenPort st.nat now packet with
    ⟨hseg, o, he⟩ | ⟨ip, source, destination, -, hseg, ⟨rfl, he⟩ | ⟨hne, he⟩ | ⟨hne, hf, he⟩⟩
  · rw [hstep he, carry, reach, hseg]
    exact .inl rfl
  · rw [hstep he, carry_some hseg, reach_some hseg, if_pos rfl, if_pos rfl]
    exact .inr (.inl ⟨_, ⟨destination, hseg, rfl⟩, rfl⟩)
  · rw [hstep he, carry_some hseg, reach_some hseg, if_neg hne, if_neg hne]
    exact .inl rfl
  · rw [hstep he, carry_some hseg, reach_some hseg, if_neg hne, if_neg hne]
    refine .inr (.inr ⟨source, destination, ⟨hseg, hf⟩, ?_⟩)
    cases (st.nat.lookup now source destination).1 <;> rfl

theorem step_accept {now : Nat} {port : UInt16}
    (h : step listenPort st (.accept now port) = some st') :
    st.clock ≤ now ∧ st' = ⟨(st.nat.lookupBack now port).2,
      accepted st.conns port (st.nat.lookupBack now port).1, now, st.reached⟩ := by
  rw [step] at h
  obtain ⟨hguard, h⟩ := Option.ite_none_left_eq_some.mp h
  cases h
  exact ⟨Nat.not_lt.mp (not_or.mp hguard).1, rfl⟩

theorem step_sweep {now : Nat} (h : step listenPort st (.sweep now) = some st') :
    st.clock ≤ now ∧ st' = { st with nat := st.nat.sweep now, clock := now } := by
  rw [step] at h
  obtain ⟨hclock, h⟩ := Option.ite_none_left_eq_some.mp h
  cases h
  exact ⟨Nat.not_lt.mp hclock, rfl⟩

theorem wf_step {e : Event} (hwf : st.nat.WF) (h : step listenPort st e = some st') : st'.nat.WF := by
  cases e with
  | packet now packet opens =>
      obtain ⟨-, rfl | ⟨port, -, rfl⟩ | ⟨source, destination, -, rfl⟩⟩ := step_packet h
      · exact hwf
      · exact hwf.lookupBack now port
      · exact hwf.lookup now source destination
  | accept now port =>
      obtain ⟨-, rfl⟩ := step_accept h
      exact hwf.lookupBack now port
  | close port =>
      cases h
      exact hwf
  | sweep now =>
      obtain ⟨-, rfl⟩ := step_sweep h
      exact hwf.sweep now

/-! ## The connections after a step -/

theorem touch_eq (conns : UInt16 → Option Conn) (port q : UInt16) (now : Nat) :
    touch conns port now q =
      if q = port then (conns port).map ({ · with last := now }) else conns q :=
  Function.update_apply ..

theorem accepted_eq (conns : UInt16 → Option Conn) (port q : UInt16)
    (found : Option (SocketAddrV4 × SocketAddrV4)) : accepted conns port found q =
      if q = port then (conns port).map ({ · with relayed := found }) else conns q :=
  Function.update_apply ..

/-- A connection that a segment is delivered to is the one of its port, or a new one. -/
theorem deliver_eq_some {conns : UInt16 → Option Conn} {port q : UInt16} {now : Nat} {opens : Bool}
    {source destination : SocketAddrV4} {c : Conn}
    (h : deliver conns port now opens source destination q = some c) :
    (q ≠ port ∧ conns q = some c) ∨
    (q = port ∧ conns port = none ∧ c = ⟨source, destination, none, now⟩) ∨
    (q = port ∧ ∃ c', conns port = some c' ∧ c = { c' with last := now }) := by
  rw [deliver] at h
  split at h
  · next hopen =>
      rw [Function.update_apply] at h
      split at h
      · next hq =>
          cases h
          exact .inr (.inl ⟨hq, Option.isNone_iff_eq_none.mp hopen.1, rfl⟩)
      · next hq => exact .inl ⟨hq, h⟩
  · rw [touch_eq] at h
    split at h
    · next hq =>
        obtain ⟨c', hc', rfl⟩ := Option.map_eq_some_iff.mp h
        exact .inr (.inr ⟨hq, c', hc', rfl⟩)
    · next hq => exact .inl ⟨hq, h⟩

end

/-! ## Flows that do not share their source -/

/-- Before the listener is done with the port of a flow, no segment of its source goes to another
destination, and no sweep removes the session of the port. -/
def Apart (listenPort : UInt16) (st : Flows) : Event → Prop
  | .packet _ packet _ => ∀ source destination, Sent listenPort packet source destination →
      ∀ port f, f ∈ st.reached port → f.1 = source → f.2 = destination
  | .sweep now => ∀ port s, st.reached port ≠ [] → st.nat.portMap.lookup port = some s →
      ¬ st.nat.Expired now s
  | _ => True

/-- One step under this condition. -/
def Steps (listenPort : UInt16) (st : Flows) (e : Event) (st' : Flows) : Prop :=
  step listenPort st e = some st' ∧ Apart listenPort st e

/-- The session on the port is that of the flow. -/
def Own (nat : TcpNat) (port : UInt16) (f : SocketAddrV4 × SocketAddrV4) : Prop :=
  ∃ last, nat.portMap.lookup port = some ⟨f.1, f.2, last⟩

/-- A connection is one of the flows that reached its port, and is relayed as such. -/
structure Opened (reached : List (SocketAddrV4 × SocketAddrV4)) (c : Conn) : Prop where
  reached : (c.source, c.destination) ∈ reached
  relayed : ∀ f, c.relayed = some f → f = (c.source, c.destination)

structure Inv (st : Flows) : Prop where
  wf : st.nat.WF
  own : ∀ port f, f ∈ st.reached port → Own st.nat port f
  opened : ∀ port c, st.conns port = some c → Opened (st.reached port) c

variable {listenPort : UInt16} {st st' : Flows} {nat : TcpNat} {port : UInt16}
  {f : SocketAddrV4 × SocketAddrV4}

theorem Inv.init : Inv .init :=
  ⟨TcpNat.WF.new _, fun _ _ h => (by cases h), fun _ _ h => by cases h⟩

/-- A look from the listener's side changes no more than the time of a session. -/
theorem Own.lookupBack (h : Own nat port f) (now : Nat) (q : UInt16) :
    Own (nat.lookupBack now q).2 port f := by
  obtain ⟨last, hs⟩ := h
  rw [Own, TcpNat.lookupBack_portMap]
  split
  · next hq => exact ⟨now, by rw [← hq, hs]; rfl⟩
  · exact ⟨last, hs⟩

theorem Own.lookupBack_eq (h : Own nat port f) (now : Nat) :
    (nat.lookupBack now port).1 = some f := by
  obtain ⟨last, hs⟩ := h
  rw [TcpNat.lookupBack_eq, hs]

/-- The port that a segment is sent under is its flow's, and those of other flows stay theirs. -/
theorem Inv.lookup {now : Nat} {source destination : SocketAddrV4} (hi : Inv st)
    (hapart : ∀ port f, f ∈ st.reached port → f.1 = source → f.2 = destination)
    (hl : (st.nat.lookup now source destination).1 = some port) {q : UInt16}
    (hf : f ∈ Function.update st.reached port ((source, destination) :: st.reached port) q) :
    Own (st.nat.lookup now source destination).2 q f := by
  obtain ⟨hsessions, hsource⟩ := hi.wf.lookup_some hl
  rw [Function.update_apply] at hf
  rw [Own, hsessions]
  split at hf
  · next hq =>
      rw [if_pos hq]
      rcases List.mem_cons.mp hf with rfl | hf
      · exact ⟨now, rfl⟩
      · -- the segment has the source of the flow, so it has its destination as well
        obtain ⟨last, hs⟩ := hi.own port f hf
        have hsrc : f.1 = source := hsource _ hs
        exact ⟨now, by rw [hsrc, hapart port f hf hsrc]⟩
  · next hq =>
      rw [if_neg hq]
      exact hi.own q f hf

/-- A segment opens a connection as its flow, and leaves the others as they are. -/
theorem Inv.deliver {now : Nat} {source destination : SocketAddrV4} {opens : Bool} (hi : Inv st)
    {q : UInt16} {c : Conn}
    (hc : Flows.deliver st.conns port now opens source destination q = some c) :
    Opened (Function.update st.reached port ((source, destination) :: st.reached port) q) c := by
  rcases deliver_eq_some hc with ⟨hq, hc⟩ | ⟨rfl, -, rfl⟩ | ⟨rfl, c', hc', rfl⟩
  · rw [Function.update_of_ne hq]
    exact hi.opened q c hc
  · rw [Function.update_self]
    exact ⟨List.mem_cons_self, fun f hf => by cases hf⟩
  · rw [Function.update_self]
    exact ⟨List.mem_cons_of_mem _ (hi.opened q c' hc').reached, (hi.opened q c' hc').relayed⟩

theorem Inv.touch (hi : Inv st) {now : Nat} {q : UInt16} {c : Conn}
    (hc : Flows.touch st.conns port now q = some c) : Opened (st.reached q) c := by
  rw [touch_eq] at hc
  split at hc
  · next hq =>
      subst hq
      obtain ⟨c', hc', rfl⟩ := Option.map_eq_some_iff.mp hc
      exact ⟨(hi.opened q c' hc').reached, (hi.opened q c' hc').relayed⟩
  · exact hi.opened q c hc

theorem Inv.packet {now : Nat} {packet : Bytes} {opens : Bool} (hi : Inv st)
    (h : Steps listenPort st (.packet now packet opens) st') : Inv st' := by
  obtain ⟨h, hapart⟩ := h
  have hwf := wf_step hi.wf h
  obtain ⟨-, rfl | ⟨port, -, rfl⟩ | ⟨source, destination, hsent, rfl⟩⟩ := step_packet h
  · exact ⟨hwf, hi.own, hi.opened⟩
  · exact ⟨hwf, fun q f hf => (hi.own q f hf).lookupBack now port, fun q c hc => hi.touch hc⟩
  · cases hl : (st.nat.lookup now source destination).1 with
    | none =>
        refine ⟨hwf, fun q f hf => ?_, fun q c hc => ?_⟩
        · rw [Own, hi.wf.lookup_none hl]
          exact hi.own q f hf
        · exact hi.opened q c hc
    | some port =>
        refine ⟨hwf, fun q f hf => ?_, fun q c hc => ?_⟩
        · exact hi.lookup (hapart source destination hsent) hl hf
        · exact hi.deliver hc

theorem Inv.accept {now : Nat} (hi : Inv st) (h : step listenPort st (.accept now port) = some st') :
    Inv st' := by
  have hwf := wf_step hi.wf h
  obtain ⟨-, rfl⟩ := step_accept h
  refine ⟨hwf, fun q f hf => (hi.own q f hf).lookupBack now port, fun q c hc => ?_⟩
  dsimp only at hc ⊢
  rw [accepted_eq] at hc
  split at hc
  · next hq =>
      subst hq
      obtain ⟨c', hc', rfl⟩ := Option.map_eq_some_iff.mp hc
      have hreached := (hi.opened q c' hc').reached
      refine ⟨hreached, fun f hf => ?_⟩
      have hf : (st.nat.lookupBack now q).1 = some f := hf
      rw [(hi.own q _ hreached).lookupBack_eq] at hf
      exact (Option.some.inj hf).symm
  · exact hi.opened q c hc

theorem Inv.step {e : Event} (hi : Inv st) (h : Steps listenPort st e st') : Inv st' := by
  cases e with
  | packet now packet opens => exact hi.packet h
  | accept now port => exact hi.accept h.1
  | close port =>
      cases h.1
      refine ⟨hi.wf, fun q f hf => ?_, fun q c hc => ?_⟩
      · dsimp only at hf
        rw [Function.update_apply] at hf
        split at hf
        · cases hf
        · exact hi.own q f hf
      · dsimp only at hc ⊢
        rw [Function.update_apply] at hc ⊢
        split at hc
        · cases hc
        · next hq =>
            rw [if_neg hq]
            exact hi.opened q c hc
  | sweep now =>
      obtain ⟨hstep, hapart⟩ := h
      have hwf := wf_step hi.wf hstep
      obtain ⟨-, rfl⟩ := step_sweep hstep
      refine ⟨hwf, fun q f hf => ?_, hi.opened⟩
      obtain ⟨last, hs⟩ := hi.own q f hf
      exact ⟨last, (TcpNat.sweep_lookup ..).mpr ⟨hs, hapart q _ (List.ne_nil_of_mem hf) hs⟩⟩

/-- In every run in which no segment of the source of a flow goes to another destination and no
sweep removes the session of its port before the listener is done with it, every packet that the
listener sends to a port leaves from the destination of whichever flow reached it there, to its
source.  An open connection is one of these flows, it is relayed to its own destination, and that
is what the table has for it whenever it is accepted. -/
theorem flows_isolated {es : List Event} (h : Run (Steps listenPort) .init es st) :
    (∀ now packet ip client f, IsTcpPacket packet ip ⟨tunServer, listenPort⟩ client →
      f ∈ st.reached client.port →
      ∃ out nat, processPacket listenPort st.nat now packet = .ok (.back out, nat) ∧
        Readdressed packet out ip f.2 f.1) ∧
    (∀ port c, st.conns port = some c → (c.source, c.destination) ∈ st.reached port ∧
      ∀ f, c.relayed = some f → f = (c.source, c.destination)) ∧
    ∀ now port f, f ∈ st.reached port → (st.nat.lookupBack now port).1 = some f := by
  have hi : Inv st := h.invariant (I := Inv) Inv.step Inv.init
  refine ⟨fun now packet ip client f hp hf => ?_,
    fun port c hc => ⟨(hi.opened port c hc).reached, (hi.opened port c hc).relayed⟩,
    fun now port f hf => (hi.own port f hf).lookupBack_eq now⟩
  have hr := @processTcp_eq listenPort st.nat now _ _ _ _ hp
  rw [if_pos rfl, (hi.own _ f hf).lookupBack_eq, ← processPacket_tcp hp] at hr
  exact ⟨_, _, hr, readdressed_spec hp _ _⟩

/-- A connection from 10.0.0.5:1234 to 1.2.3.4:443 that is accepted. -/
def oneFlow : List Event := [.packet 0 exampleSyn true, .accept 1 10000]

theorem flows_isolated_one : ∃ st, Run (Steps 7000) .init oneFlow st ∧
    ∃ out nat ip, processPacket 7000 st.nat 2 exampleAck = .ok (.back out, nat) ∧
      Readdressed exampleAck out ip ⟨⟨1, 2, 3, 4⟩, 443⟩ ⟨⟨10, 0, 0, 5⟩, 1234⟩ := by
  have heval : ((oneFlow.foldlM (step 7000) .init).map fun st => st.reached 10000) =
      some [(⟨⟨10, 0, 0, 5⟩, 1234⟩, ⟨⟨1, 2, 3, 4⟩, 443⟩)] := by decide +kernel
  obtain ⟨st, hst, hreached⟩ := Option.map_eq_some_iff.mp heval
  rw [oneFlow, List.foldlM_cons] at hst
  obtain ⟨st₁, h₁, hst⟩ := Option.bind_eq_some_iff.mp hst
  rw [List.foldlM_cons] at hst
  obtain ⟨st₂, h₂, hst⟩ := Option.bind_eq_some_iff.mp hst
  cases hst
  have hrun : Run (Steps 7000) .init oneFlow st :=
    .snoc (.single ⟨h₁, fun _ _ _ _ _ hno => by cases hno⟩) ⟨h₂, trivial⟩
  have hack : IsTcpPacket exampleAck ⟨20, 6, tunServer, tunClient, 40⟩ ⟨tunServer, 7000⟩
      ⟨tunClient, 10000⟩ := by
    refine ⟨⟨?_, ?_, ?_, ?_, ?_, ?_, ?_, ?_⟩, ?_, ?_, ?_, ⟨?_, ?_, ?_, ?_, ?_⟩⟩ <;> decide
  obtain ⟨out, nat, hback, hread⟩ :=
    (flows_isolated hrun).1 2 _ _ _ _ hack (hreached ▸ List.mem_singleton_self _)
  exact ⟨st, hrun, out, nat, _, hback, hread⟩

/-- The first segment of another connection from 10.0.0.5:1234, to 5.6.7.8:443. -/
def otherSyn : Bytes :=
  [0x45, 0, 0, 40, 0, 3, 0, 0, 64, 6, 0, 0, 10, 0, 0, 5, 5, 6, 7, 8,
   4, 210, 1, 187, 0, 0, 0, 5, 0, 0, 0, 0, 0x50, 2, 0, 0, 0, 0, 0, 0]

/-- The other connection takes the session: the answer to the first one leaves from
5.6.7.8:443, and the first one is relayed there when it is accepted. -/
theorem not_flows_isolated :
    ∃ st, [Event.packet 0 exampleSyn true, .packet 1 otherSyn true].foldlM (step 7000) .init =
        some st ∧
      st.conns 10000 =
        some ⟨⟨⟨10, 0, 0, 5⟩, 1234⟩, ⟨⟨1, 2, 3, 4⟩, 443⟩, none, 1⟩ ∧
      (⟨⟨10, 0, 0, 5⟩, 1234⟩, ⟨⟨1, 2, 3, 4⟩, 443⟩) ∈ st.reached 10000 ∧
      (∃ out nat, processPacket 7000 st.nat 2 exampleAck = .ok (.back out, nat) ∧
        segment out = some (⟨⟨5, 6, 7, 8⟩, 443⟩, ⟨⟨10, 0, 0, 5⟩, 1234⟩)) ∧
      (st.nat.lookupBack 2 10000).1 =
        some (⟨⟨10, 0, 0, 5⟩, 1234⟩, ⟨⟨5, 6, 7, 8⟩, 443⟩) := by
  have heval : ([Event.packet 0 exampleSyn true, .packet 1 otherSyn true].foldlM
      (step 7000) .init).map (fun st => (st.conns 10000, st.reached 10000,
        (match processPacket 7000 st.nat 2 exampleAck with
          | .ok (.back out, _) => segment out
          | .ok (.drop, _) | .ok (.dns .., _) | .ok (.forward .., _) | .error _ => none),
        (st.nat.lookupBack 2 10000).1)) =
      some (some ⟨⟨⟨10, 0, 0, 5⟩, 1234⟩, ⟨⟨1, 2, 3, 4⟩, 443⟩, none, 1⟩,
        [(⟨⟨10, 0, 0, 5⟩, 1234⟩, ⟨⟨5, 6, 7, 8⟩, 443⟩), (⟨⟨10, 0, 0, 5⟩, 1234⟩, ⟨⟨1, 2, 3, 4⟩, 443⟩)],
        some (⟨⟨5, 6, 7, 8⟩, 443⟩, ⟨⟨10, 0, 0, 5⟩, 1234⟩),
        some (⟨⟨10, 0, 0, 5⟩, 1234⟩, ⟨⟨5, 6, 7, 8⟩, 443⟩)) := by decide +kernel
  obtain ⟨st, hst, hfound⟩ := Option.map_eq_some_iff.mp heval
  obtain ⟨hconn, hfound⟩ := Prod.mk.inj hfound
  obtain ⟨hreached, hfound⟩ := Prod.mk.inj hfound
  obtain ⟨hreply, hback⟩ := Prod.mk.inj hfound
  refine ⟨st, hst, hconn, ?_, ?_, hback⟩
  · rw [hreached]
    exact List.mem_cons_of_mem _ (List.mem_singleton_self _)
  · split at hreply
    · next out nat he => exact ⟨out, nat, he, hreply⟩
    all_goals cases hreply

end Flows

end Stack

end RustClash
