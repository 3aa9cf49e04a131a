import RustClash.Tun.Readdress
import RustClash.Tun.TcpNatInvariant

/-!
# Connections through the TUN stack

`processPacket_cases` says all that `process_packet` does with a packet.  A
connection keeps its session as long as no packet of its source goes elsewhere:
that is `Bound`, which every event keeps.  So the packets the listener sends to
the port of a session come back from the destination of the connection.
-/

namespace RustClash

namespace Stack

open Checked Packet

/-! ## What becomes of a packet -/

/-- The packets whose session is looked up. -/
structure Forwards (listenPort : UInt16) (source destination : SocketAddrV4) : Prop where
  fromOther : source ≠ ⟨tunServer, listenPort⟩
  toOther : destination ≠ ⟨tunServer, listenPort⟩
  global : isGlobalUnicast destination.ip = true
  outside : isTunPrefix destination.ip = false

def forwardOutcome (listenPort : UInt16) (packet : Bytes) (ip : Ipv4) : Option UInt16 → Outcome
  | none => .drop
  | some natPort =>
      .forward natPort (readdressed packet ip ⟨tunClient, natPort⟩ ⟨tunServer, listenPort⟩)

def backOutcome (packet : Bytes) (ip : Ipv4) : Option (SocketAddrV4 × SocketAddrV4) → Outcome
  | none => .drop
  | some (source, destination) => .back (readdressed packet ip destination source)

theorem processUdp_cases {packet : Bytes} {ip : Ipv4} (h : IsIpv4 packet ip) :
    processUdp packet ip = .ok .drop ∨
      ∃ srcPort payload, processUdp packet ip = .ok (.dns ip.src ip.dst srcPort payload) := by
  rw [processUdp, slice_ok h.header_le h.total_le]
  simp only [bind, Except.bind, pure, Except.pure]
  rcases parseUdp_spec ((packet.take ip.totalLen).drop ip.headerLen) with
    hp | ⟨src, dst, len, hp, hlen⟩
  · exact .inl (by rw [hp])
  · rw [hp]
    by_cases hd : dst = 53
    · subst hd
      simp only [slice_ok (Nat.le_add_right _ _) hlen]
      exact .inr ⟨_, _, rfl⟩
    · exact .inl (if_pos hd)

/-- What the TCP branch does with a segment that has a header. -/
theorem processTcp_eq {listenPort : UInt16} {nat : TcpNat} {now : Nat} {packet : Bytes} {ip : Ipv4}
    {source destination : SocketAddrV4} (h : IsTcpPacket packet ip source destination) :
    processTcp listenPort nat now packet ip =
      if source = ⟨tunServer, listenPort⟩ then
        .ok (backOutcome packet ip (nat.lookupBack now destination.port).1,
          (nat.lookupBack now destination.port).2)
      else if destination = ⟨tunServer, listenPort⟩ then .ok (.drop, nat)
      else if !isGlobalUnicast destination.ip ∨ isTunPrefix destination.ip then .ok (.drop, nat)
      else .ok (forwardOutcome listenPort packet ip (nat.lookup now source destination).1,
        (nat.lookup now source destination).2) := by
  obtain ⟨flags, off, htcp⟩ : ∃ flags off, parseTcp ((packet.take ip.totalLen).drop ip.headerLen) =
      .ok (some (source.port, destination.port, flags, off)) := by
    rcases parseTcp_spec ((packet.take ip.totalLen).drop ip.headerLen) with
      ⟨_, hno⟩ | ⟨src, dst, flags, off, hp, hs⟩
    · exact absurd h.tcp (hno _ _)
    · rw [hp, hs.src, hs.dst, h.tcp.src, h.tcp.dst]
      exact ⟨flags, off, rfl⟩
  have heq : ∀ a : SocketAddrV4, (a.ip = tunServer ∧ a.port = listenPort) ↔
      a = ⟨tunServer, listenPort⟩ := fun a => by
    cases a
    simp
  rw [processTcp, slice_ok h.ipv4.header_le h.ipv4.total_le]
  simp only [bind, Except.bind, pure, Except.pure, htcp, h.src, h.dst, heq,
    readdress_eq h]
  split
  · cases hb : nat.lookupBack now destination.port with
    | mk r nat' => cases r <;> rfl
  · split
    · rfl
    · split
      · rfl
      · cases hl : nat.lookup now source destination with
        | mk r nat' => cases r <;> rfl

theorem processPacket_tcp {listenPort : UInt16} {nat : TcpNat} {now : Nat} {packet : Bytes}
    {ip : Ipv4} {source destination : SocketAddrV4} (h : IsTcpPacket packet ip source destination) :
    processPacket listenPort nat now packet = processTcp listenPort nat now packet ip := by
  have hudp : ¬ protoTcp = protoUdp := by decide
  simp only [processPacket, parseIpv4_eq h.ipv4, bind, Except.bind, h.proto, if_neg hudp, ne_eq,
    not_true_eq_false, if_false]

/-- `process_packet` stops on no packet.  It leaves the table alone, or sends a TCP
packet back, or looks its session up and sends it to the listener. -/
theorem processPacket_cases (listenPort : UInt16) (nat : TcpNat) (now : Nat) (packet : Bytes) :
    (∃ o, processPacket listenPort nat now packet = .ok (o, nat) ∧
      (o = .drop ∨ ∃ src dst srcPort payload, o = .dns src dst srcPort payload)) ∨
    (∃ ip destination, IsTcpPacket packet ip ⟨tunServer, listenPort⟩ destination ∧
      processPacket listenPort nat now packet =
        .ok (backOutcome packet ip (nat.lookupBack now destination.port).1,
          (nat.lookupBack now destination.port).2)) ∨
    (∃ ip source destination, IsTcpPacket packet ip source destination ∧
      Forwards listenPort source destination ∧
      processPacket listenPort nat now packet =
        .ok (forwardOutcome listenPort packet ip (nat.lookup now source destination).1,
          (nat.lookup now source destination).2)) := by
  rcases parseIpv4_spec packet with ⟨hp, _⟩ | ⟨ip, hp, hip⟩
  · exact .inl ⟨.drop, by rw [processPacket, hp]; rfl, .inl rfl⟩
  simp only [processPacket, hp, bind, Except.bind, pure, Except.pure]
  by_cases hudp : ip.proto = protoUdp
  · simp only [if_pos hudp]
    rcases processUdp_cases hip with hu | ⟨srcPort, payload, hu⟩
    · exact .inl ⟨.drop, by rw [hu], .inl rfl⟩
    · exact .inl ⟨_, by rw [hu], .inr ⟨_, _, _, _, rfl⟩⟩
  by_cases htcp : ip.proto = protoTcp
  · simp only [if_neg hudp, if_neg (not_not_intro htcp)]
    rcases parseTcp_spec ((packet.take ip.totalLen).drop ip.headerLen) with
      ⟨hno, _⟩ | ⟨src, dst, _, _, _, hs⟩
    · refine .inl ⟨.drop, ?_, .inl rfl⟩
      rw [processTcp, slice_ok hip.header_le hip.total_le]
      simp only [bind, Except.bind, pure, Except.pure, hno]
    · have h : IsTcpPacket packet ip ⟨ip.src, src⟩ ⟨ip.dst, dst⟩ := ⟨hip, htcp, rfl, rfl, hs⟩
      rw [processTcp_eq h]
      split
      · next hl => exact .inr (.inl ⟨ip, _, hl ▸ h, rfl⟩)
      · next hl =>
          split
          · exact .inl ⟨.drop, rfl, .inl rfl⟩
          · next hd =>
              split
              · exact .inl ⟨.drop, rfl, .inl rfl⟩
              · next hg =>
                  obtain ⟨hglobal, hprefix⟩ := not_or.mp hg
                  exact .inr (.inr ⟨ip, _, _, h, ⟨hl, hd, by simpa using hglobal,
                    by simpa using hprefix⟩, rfl⟩)
  · exact .inl ⟨.drop, by simp only [if_neg hudp, if_pos htcp], .inl rfl⟩

theorem IsTcpPacket.unique {packet : Bytes} {ip ip' : Ipv4}
    {source destination source' destination' : SocketAddrV4}
    (h : IsTcpPacket packet ip source destination)
    (h' : IsTcpPacket packet ip' source' destination') :
    ip = ip' ∧ source = source' ∧ destination = destination' := by
  obtain rfl := h.ipv4.unique h'.ipv4
  have hs : source.ip = source'.ip := h.src.symm.trans h'.src
  have hd : destination.ip = destination'.ip := h.dst.symm.trans h'.dst
  have hsp : source.port = source'.port := h.tcp.src.trans h'.tcp.src.symm
  have hdp : destination.port = destination'.port := h.tcp.dst.trans h'.tcp.dst.symm
  cases source
  cases source'
  cases destination
  cases destination'
  simp_all

/-! ## Sessions -/

/-- The sessions of `source` go to `destination`. -/
def Bound (nat : TcpNat) (source destination : SocketAddrV4) : Prop :=
  ∀ p s, nat.portMap.lookup p = some s → s.source = source → s.destination = destination

section

variable {nat : TcpNat} {source destination : SocketAddrV4}

theorem Bound.lookupBack (h : Bound nat source destination) (now : Nat) (port : UInt16) :
    Bound (nat.lookupBack now port).2 source destination := by
  rw [TcpNat.lookupBack_eq]
  cases hs : nat.portMap.lookup port with
  | none => exact h
  | some t =>
      intro p s hp hsrc
      simp only [TcpNat.rewrite, FinMap.lookup_insert_eq] at hp
      split at hp
      · cases hp
        exact h port t hs hsrc
      · exact h p s hp hsrc

/-- A session that `lookup` makes goes where its source asked for; the others are kept. -/
theorem Bound.lookup (hwf : nat.WF) (h : Bound nat source destination) (now : Nat)
    {source' destination' : SocketAddrV4} (hd : source' = source → destination' = destination) :
    Bound (nat.lookup now source' destination').2 source destination := by
  rcases TcpNat.lookup_cases hwf now source' destination' with
    ⟨q, _, _, _, _, he⟩ | ⟨_, _, _, he⟩ | ⟨_, q, _, _, _, _, he⟩
  · intro p s hp hsrc
    simp only [he, TcpNat.rewrite, FinMap.lookup_insert_eq] at hp
    split at hp
    · cases hp
      exact hd hsrc
    · exact h p s hp hsrc
  · rw [he]
    exact h
  · intro p s hp hsrc
    simp only [he, TcpNat.allocate, FinMap.lookup_insert_eq] at hp
    split at hp
    · cases hp
      exact hd hsrc
    · exact h p s hp hsrc

/-- Once a source was looked up, its session goes where it asked for. -/
theorem bound_of_lookup (hwf : nat.WF) {now : Nat} {n : UInt16}
    (h : (nat.lookup now source destination).1 = some n) :
    Bound (nat.lookup now source destination).2 source destination := by
  rcases TcpNat.lookup_cases hwf now source destination with
    ⟨q, t, _, hq, ht, he⟩ | ⟨_, _, _, he⟩ | ⟨ha, q, _, _, _, _, he⟩
  · intro p s hp hsrc
    simp only [he, TcpNat.rewrite, FinMap.lookup_insert_eq] at hp
    split at hp
    · cases hp
      rfl
    · next hne => exact absurd (hwf.inverse.slot_unique hp hq (hsrc.trans ht.symm)) hne
  · rw [he] at h
    cases h
  · intro p s hp hsrc
    simp only [he, TcpNat.allocate, FinMap.lookup_insert_eq] at hp
    split at hp
    · cases hp
      rfl
    · have := hwf.inverse.of_bwd hp
      rw [hsrc, ha] at this
      cases this

end

/-- An event on which the session of `source` to `destination` is looked up. -/
def LooksUp (listenPort : UInt16) (ev : Event) (source destination : SocketAddrV4) : Prop :=
  ∃ now packet ip, ev = .packet now packet ∧ IsTcpPacket packet ip source destination ∧
    Forwards listenPort source destination

theorem step_wf {listenPort : UInt16} {nat : TcpNat} (h : nat.WF) (ev : Event) :
    (step listenPort nat ev).WF := by
  cases ev with
  | packet now packet =>
      simp only [step]
      rcases processPacket_cases listenPort nat now packet with
        ⟨_, he, _⟩ | ⟨_, _, _, he⟩ | ⟨_, _, _, _, _, he⟩
      · rw [he]; exact h
      · rw [he]; exact h.lookupBack now _
      · rw [he]; exact h.lookup now _ _
  | accept now port => exact h.lookupBack now port
  | sweep now => exact h.sweep now

theorem run_wf {nat : TcpNat} (h : nat.WF) (listenPort : UInt16) (events : List Event) :
    (run listenPort nat events).WF :=
  @foldl_invariant _ _ (step listenPort) (·.WF) (fun _ ev hn => step_wf hn ev) nat h events

theorem step_bound {listenPort : UInt16} {nat : TcpNat} {source destination : SocketAddrV4}
    (hwf : nat.WF) (h : Bound nat source destination) {ev : Event}
    (hev : ∀ d, LooksUp listenPort ev source d → d = destination) :
    Bound (step listenPort nat ev) source destination := by
  cases ev with
  | packet now packet =>
      simp only [step]
      rcases processPacket_cases listenPort nat now packet with
        ⟨_, he, _⟩ | ⟨_, _, _, he⟩ | ⟨ip, source', destination', hp, hf, he⟩
      · rw [he]; exact h
      · rw [he]; exact h.lookupBack now _
      · rw [he]
        refine h.lookup hwf now fun heq => ?_
        subst heq
        exact hev destination' ⟨now, packet, ip, rfl, hp, hf⟩
  | accept now port => exact h.lookupBack now port
  | sweep now => exact fun p s hp => h p s ((TcpNat.sweep_lookup nat now p s).mp hp).1

theorem run_bound {listenPort : UInt16} {source destination : SocketAddrV4} :
    ∀ {events : List Event} {nat : TcpNat}, nat.WF → Bound nat source destination →
      (∀ ev ∈ events, ∀ d, LooksUp listenPort ev source d → d = destination) →
      Bound (run listenPort nat events) source destination
  | [], _, _, h, _ => h
  | ev :: events, _, hwf, h, hev =>
      @run_bound _ _ _ events _ (step_wf hwf ev) (step_bound hwf h (hev ev List.mem_cons_self))
        fun ev' hmem => hev ev' (List.mem_cons_of_mem _ hmem)

/-- A packet that is sent to the listener was rewritten between the tunnel's own
endpoints.  What the listener sends back to its port while the session is there, and
its source was not looked up with another destination, leaves from the destination of
the packet to its source.  Nothing but addresses, ports and checksums changes, and the
checksums verify. -/
theorem processPacket_round_trip (listenPort : UInt16) (timeout : Nat) (before between : List Event)
    (now : Nat) (packet : Bytes) (n : UInt16) (out : Bytes) (nat : TcpNat)
    (hsent : processPacket listenPort (run listenPort (.new timeout) before) now packet =
      .ok (.forward n out, nat)) :
    ∃ ip source destination, IsTcpPacket packet ip source destination ∧
      Readdressed packet out ip ⟨tunClient, n⟩ ⟨tunServer, listenPort⟩ ∧
      ∀ now' reply ip' client, IsTcpPacket reply ip' ⟨tunServer, listenPort⟩ client →
        client.port = n →
        (∀ ev ∈ between, ∀ d, LooksUp listenPort ev source d → d = destination) →
        (∃ s, (run listenPort nat between).portMap.lookup n = some s ∧ s.source = source) →
        ∃ out' nat', processPacket listenPort (run listenPort nat between) now' reply =
            .ok (.back out', nat') ∧
          Readdressed reply out' ip' destination source := by
  have hwf := run_wf (TcpNat.WF.new timeout) listenPort before
  rcases processPacket_cases listenPort (run listenPort (.new timeout) before) now packet with
    ⟨o, he, ho⟩ | ⟨ip, d, _, he⟩ | ⟨ip, source, destination, hp, hf, he⟩
  · rw [hsent] at he
    cases he
    rcases ho with ho | ⟨_, _, _, _, ho⟩ <;> cases ho
  · rw [hsent] at he
    cases hb : (TcpNat.lookupBack (run listenPort (.new timeout) before) now d.port).1 with
    | none => rw [hb] at he; cases he
    | some r => rw [hb] at he; cases he
  · rw [hsent] at he
    cases hl : (TcpNat.lookup (run listenPort (.new timeout) before) now source destination).1 with
    | none => rw [hl] at he; cases he
    | some natPort =>
        rw [hl] at he
        cases he
        refine ⟨ip, source, destination, hp, readdressed_spec hp _ _, ?_⟩
        intro now' reply ip' client hreply hport hev hpresent
        have hbound := run_bound (hwf.lookup now source destination) (bound_of_lookup hwf hl) hev
        obtain ⟨s, hs, hsrc⟩ := hpresent
        have hdst := hbound n s hs hsrc
        generalize run listenPort _ between = after at hbound hs ⊢
        have hback : (after.lookupBack now' client.port).1 = some (source, destination) := by
          rw [hport, TcpNat.lookupBack_eq, hs, ← hsrc, ← hdst]
        have hr := @processTcp_eq listenPort after now' _ _ _ _ hreply
        rw [if_pos rfl, hback, ← processPacket_tcp hreply] at hr
        exact ⟨_, _, hr, readdressed_spec hreply destination source⟩

/-- The first segment of a connection from 10.0.0.5:1234 to 1.2.3.4:443, with two
trailing bytes. -/
def exampleSyn : Bytes :=
  [0x45, 0, 0, 40, 0, 1, 0, 0, 64, 6, 0, 0, 10, 0, 0, 5, 1, 2, 3, 4,
   4, 210, 1, 187, 0, 0, 0, 1, 0, 0, 0, 0, 0x50, 2, 0, 0, 0, 0, 0, 0, 9, 9]

/-- The answer of the listener at port 7000 to the session at port 10000. -/
def exampleAck : Bytes :=
  [0x45, 0, 0, 40, 0, 2, 0, 0, 64, 6, 0, 0, 172, 19, 0, 1, 172, 19, 0, 2,
   27, 88, 39, 16, 0, 0, 0, 7, 0, 0, 0, 2, 0x50, 18, 0, 0, 0, 0, 0, 0]

theorem processPacket_round_trip_syn : ∃ out nat,
    processPacket 7000 (run 7000 (.new 300) []) 0 exampleSyn = .ok (.forward 10000 out, nat) ∧
      ∃ out' nat', processPacket 7000 (run 7000 nat []) 1 exampleAck = .ok (.back out', nat') ∧
        ∃ ip, Readdressed exampleAck out' ip ⟨⟨1, 2, 3, 4⟩, 443⟩ ⟨⟨10, 0, 0, 5⟩, 1234⟩ := by
  have hsyn : IsTcpPacket exampleSyn ⟨20, 6, ⟨10, 0, 0, 5⟩, ⟨1, 2, 3, 4⟩, 40⟩
      ⟨⟨10, 0, 0, 5⟩, 1234⟩ ⟨⟨1, 2, 3, 4⟩, 443⟩ := by
    refine ⟨⟨?_, ?_, ?_, ?_, ?_, ?_, ?_, ?_⟩, ?_, ?_, ?_, ⟨?_, ?_, ?_, ?_, ?_⟩⟩ <;> decide
  have hack : IsTcpPacket exampleAck ⟨20, 6, tunServer, tunClient, 40⟩ ⟨tunServer, 7000⟩
      ⟨tunClient, 10000⟩ := by
    refine ⟨⟨?_, ?_, ?_, ?_, ?_, ?_, ?_, ?_⟩, ?_, ?_, ?_, ⟨?_, ?_, ?_, ?_, ?_⟩⟩ <;> decide
  have hsent : processPacket 7000 (run 7000 (.new 300) []) 0 exampleSyn =
      .ok (.forward 10000 _, _) := (processPacket_tcp hsyn).trans (processTcp_eq hsyn)
  obtain ⟨ip, source, destination, hp, _, hback⟩ :=
    processPacket_round_trip 7000 300 [] [] 0 exampleSyn 10000 _ _ hsent
  obtain ⟨_, rfl, rfl⟩ := hp.unique hsyn
  obtain ⟨out', nat', hr, hread⟩ := hback 1 exampleAck _ _ hack rfl (by simp) ⟨_, rfl, rfl⟩
  exact ⟨_, _, hsent, out', nat', hr, _, hread⟩

end Stack

end RustClash
