import RustClash.Core.Relay
import RustClash.Tun.Flows

/-!
# Idle connections

A sweep removes a session that was idle for 300 seconds, and a relay gives up after 600
seconds without a byte.  In between a connection is still relayed and its session may be
gone.  `Timely` leaves these sweeps out, and the packets that revive a connection which was
idle for longer, or go elsewhere; then every relayed connection keeps its session until the
relay may give up.
-/

namespace RustClash

namespace Stack

namespace Flows

/-- `IDLE_MS`, in nanoseconds. -/
def idleLimit : Nat := Relay.idleMs * 1000000

/-- The session on the port is that of the source and the destination. -/
def Kept (nat : TcpNat) (port : UInt16) (f : SocketAddrV4 × SocketAddrV4) : Prop :=
  ∃ last, nat.portMap.lookup port = some ⟨f.1, f.2, last⟩

/-- A relayed connection on a port, and what it was accepted with. -/
def Relayed (st : Flows) (port : UInt16) (c : Conn) (f : SocketAddrV4 × SocketAddrV4) : Prop :=
  st.conns port = some c ∧ c.relayed = some f

/-- A packet on the port of a relayed connection finds its session, and comes from its source
to its destination if it is sent to the listener.  A sweep finds the session of a relayed
connection alive, unless the relay may give up. -/
def Timely (listenPort : UInt16) (st : Flows) : Event → Prop
  | .packet now packet _ =>
      (∀ port c f, Reply listenPort packet port → st.Relayed port c f → Kept st.nat port f) ∧
      ∀ source destination port c f, Sent listenPort packet source destination →
        (st.nat.lookup now source destination).1 = some port → st.Relayed port c f →
        Kept st.nat port f ∧ f = (source, destination)
  | .sweep now => ∀ port c f s, st.Relayed port c f → st.nat.portMap.lookup port = some s →
      st.nat.Expired now s → idleLimit ≤ now - c.last
  | _ => True

/-- One step under this condition. -/
def TimelySteps (listenPort : UInt16) (st : Flows) (e : Event) (st' : Flows) : Prop :=
  step listenPort st e = some st' ∧ Timely listenPort st e

/-- Every relayed connection has its session, or was idle for long enough. -/
structure KeptInv (st : Flows) : Prop where
  wf : st.nat.WF
  kept : ∀ port c f, st.Relayed port c f → Kept st.nat port f ∨ c.last + idleLimit ≤ st.clock

variable {listenPort : UInt16} {st st' : Flows} {nat : TcpNat} {port : UInt16}
  {f : SocketAddrV4 × SocketAddrV4}

theorem Kept.lookupBack (h : Kept nat port f) (now : Nat) (q : UInt16) :
    Kept (nat.lookupBack now q).2 port f := by
  obtain ⟨last, hs⟩ := h
  rw [Kept, TcpNat.lookupBack_portMap]
  split
  · next hq => exact ⟨now, by rw [← hq, hs]; rfl⟩
  · exact ⟨last, hs⟩

theorem Kept.lookupBack_eq (h : Kept nat port f) (now : Nat) :
    (nat.lookupBack now port).1 = some f := by
  obtain ⟨last, hs⟩ := h
  rw [TcpNat.lookupBack_eq, hs]

/-- What is found on a port is the session there. -/
theorem kept_of_lookupBack {now : Nat} (h : (nat.lookupBack now port).1 = some f) : Kept nat port f := by
  rw [TcpNat.lookupBack_eq] at h
  cases hs : nat.portMap.lookup port with
  | none =>
      rw [hs] at h
      cases h
  | some s =>
      rw [hs] at h
      cases h
      exact ⟨s.last, hs⟩

theorem KeptInv.init : KeptInv .init := ⟨TcpNat.WF.new _, fun _ _ _ h => by cases h.1⟩

/-- The clock goes on, and what was kept or idle stays so. -/
theorem KeptInv.later (hi : KeptInv st) {c : Conn} (hc : st.Relayed port c f) {now : Nat}
    (hclock : st.clock ≤ now) {nat' : TcpNat} (hnat : Kept st.nat port f → Kept nat' port f) :
    Kept nat' port f ∨ c.last + idleLimit ≤ now :=
  (hi.kept port c f hc).imp hnat fun hidle => hidle.trans hclock

theorem KeptInv.step {e : Event} (hi : KeptInv st) (h : TimelySteps listenPort st e st') :
    KeptInv st' := by
  obtain ⟨h, htimely⟩ := h
  refine ⟨wf_step hi.wf h, fun q c f ⟨hc, hf⟩ => ?_⟩
  cases e with
  | packet now packet opens =>
      obtain ⟨hreplies, hsends⟩ := htimely
      obtain ⟨hclock, rfl | ⟨port, hreply, rfl⟩ | ⟨source, destination, hsent, rfl⟩⟩ := step_packet h
      · exact hi.later ⟨hc, hf⟩ hclock id
      · dsimp only at hc ⊢
        rw [touch_eq] at hc
        split at hc
        · next hq =>
            subst hq
            obtain ⟨c', hc', rfl⟩ := Option.map_eq_some_iff.mp hc
            exact .inl ((hreplies q c' f hreply ⟨hc', hf⟩).lookupBack now q)
        · exact hi.later ⟨hc, hf⟩ hclock fun hk => hk.lookupBack now port
      · dsimp only at hc ⊢
        cases hl : (st.nat.lookup now source destination).1 with
        | none =>
            rw [hl] at hc
            refine hi.later ⟨hc, hf⟩ hclock fun hk => ?_
            rwa [Kept, hi.wf.lookup_none hl]
        | some port =>
            rw [hl] at hc
            obtain ⟨hsessions, -⟩ := hi.wf.lookup_some hl
            rcases deliver_eq_some hc with ⟨hq, hc⟩ | ⟨rfl, -, rfl⟩ | ⟨rfl, c', hc', rfl⟩
            · refine hi.later ⟨hc, hf⟩ hclock fun hk => ?_
              rwa [Kept, hsessions, if_neg hq]
            · cases hf
            · -- the segment is one of the session, and renews it
              obtain ⟨-, rfl⟩ := hsends source destination q c' f hsent hl ⟨hc', hf⟩
              exact .inl ⟨now, by rw [hsessions, if_pos rfl]⟩
  | accept now port =>
      obtain ⟨hclock, rfl⟩ := step_accept h
      dsimp only at hc ⊢
      rw [accepted_eq] at hc
      split at hc
      · next hq =>
          subst hq
          obtain ⟨c', hc', rfl⟩ := Option.map_eq_some_iff.mp hc
          exact .inl ((kept_of_lookupBack hf).lookupBack now q)
      · exact hi.later ⟨hc, hf⟩ hclock fun hk => hk.lookupBack now port
  | close port =>
      cases h
      dsimp only at hc
      rw [Function.update_apply] at hc
      split at hc
      · cases hc
      · exact hi.kept q c f ⟨hc, hf⟩
  | sweep now =>
      obtain ⟨hclock, rfl⟩ := step_sweep h
      rcases hi.kept q c f ⟨hc, hf⟩ with ⟨last, hs⟩ | hidle
      · by_cases hexpired : st.nat.Expired now ⟨f.1, f.2, last⟩
        · have hlimit := htimely q c f _ ⟨hc, hf⟩ hs hexpired
          have hpos : 0 < idleLimit := by decide
          exact .inr (by dsimp only; omega)
        · exact .inl ⟨last, (TcpNat.sweep_lookup ..).mpr ⟨hs, hexpired⟩⟩
      · exact .inr (hidle.trans hclock)

/-- In every run under this condition, the port of a relayed connection that was idle for
less than the limit of the relay is still that of the source and the destination it was
accepted with. -/
theorem relays_mapped {es : List Event} (h : Run (TimelySteps listenPort) .init es st) {now : Nat}
    (hnow : st.clock ≤ now) {c : Conn} (hc : st.conns port = some c) (hf : c.relayed = some f)
    (hidle : now - c.last < idleLimit) : (st.nat.lookupBack now port).1 = some f := by
  have hi : KeptInv st := h.invariant (I := KeptInv) KeptInv.step KeptInv.init
  rcases hi.kept port c f ⟨hc, hf⟩ with hkept | hlong
  · exact hkept.lookupBack_eq now
  · omega

/-- The flow of the connection. -/
def exampleFlow : SocketAddrV4 × SocketAddrV4 := (⟨⟨10, 0, 0, 5⟩, 1234⟩, ⟨⟨1, 2, 3, 4⟩, 443⟩)

/-- What is evaluated of the run: the connection of `oneFlow` is relayed, a packet of it comes
after 200 seconds, a sweep after 330, and the sweep finds no session expired. -/
def Spoken (st₁ st₂ st₃ : Flows) : Prop :=
  (st₁.clock = 1 ∧ (st₁.nat.lookup (secs 200) exampleFlow.1 exampleFlow.2).1 = some 10000 ∧
    st₁.conns 10000 = some ⟨exampleFlow.1, exampleFlow.2, some exampleFlow, 0⟩) ∧
  (∀ e ∈ st₂.nat.portMap.entries, ¬ st₂.nat.Expired (secs 330) e.2) ∧
  st₃.clock = secs 330 ∧
  st₃.conns 10000 = some ⟨exampleFlow.1, exampleFlow.2, some exampleFlow, secs 200⟩

instance (st₁ st₂ st₃ : Flows) : Decidable (Spoken st₁ st₂ st₃) :=
  inferInstanceAs (Decidable ((_ ∧ _ ∧ _) ∧ (∀ e ∈ st₂.nat.portMap.entries, _) ∧ _ ∧ _))

/-- A session that was renewed by a packet is there through a sweep, and for as long as the relay
waits. -/
theorem relays_mapped_spoken : ∃ st,
    Run (TimelySteps 7000) .init
      (oneFlow ++ [.packet (secs 200) exampleSyn false, .sweep (secs 330)]) st ∧
    (st.nat.lookupBack (secs 799) 10000).1 = some exampleFlow := by
  have heval : (oneFlow.foldlM (step 7000) .init).any (fun st₁ =>
      (step 7000 st₁ (.packet (secs 200) exampleSyn false)).any fun st₂ =>
        (step 7000 st₂ (.sweep (secs 330))).any fun st₃ => Spoken st₁ st₂ st₃) = true := by
    decide +kernel
  obtain ⟨st₁, hst, heval⟩ := (Option.any_eq_true _ _).mp heval
  obtain ⟨st₂, h₂, heval⟩ := (Option.any_eq_true _ _).mp heval
  obtain ⟨st₃, h₃, heval⟩ := (Option.any_eq_true _ _).mp heval
  obtain ⟨⟨hclock₁, hlookup, hconn₁⟩, hlive, hclock, hconn⟩ := of_decide_eq_true heval
  rw [oneFlow, List.foldlM_cons] at hst
  obtain ⟨st, hopen, hst⟩ := Option.bind_eq_some_iff.mp hst
  rw [List.foldlM_cons] at hst
  obtain ⟨st', haccept, hst⟩ := Option.bind_eq_some_iff.mp hst
  cases hst
  have hrun₁ : Run (TimelySteps 7000) .init oneFlow st₁ :=
    .snoc (.single ⟨hopen, fun _ _ _ _ hno => (by cases hno.1),
      fun _ _ _ _ _ _ _ hno => (by cases hno.1)⟩) ⟨haccept, trivial⟩
  have hsegment : segment exampleSyn = some exampleFlow := by decide +kernel
  have hpacket : Timely 7000 st₁ (.packet (secs 200) exampleSyn false) := by
    refine ⟨?_, ?_⟩
    · rintro port c f ⟨client, hreply, -⟩
      rw [hsegment] at hreply
      cases hreply
    · rintro source destination port c f ⟨hsent, -⟩ hfound ⟨hc, hf⟩
      cases hsegment.symm.trans hsent
      cases hlookup.symm.trans hfound
      cases hconn₁.symm.trans hc
      cases hf
      have hi : KeptInv st₁ := hrun₁.invariant (I := KeptInv) KeptInv.step KeptInv.init
      rcases hi.kept 10000 _ _ ⟨hconn₁, rfl⟩ with hkept | hlong
      · exact ⟨hkept, rfl⟩
      · rw [hclock₁] at hlong
        exact absurd hlong (by decide)
  have hsweep : Timely 7000 st₂ (.sweep (secs 330)) := fun port c f s _ hs hexpired =>
    absurd hexpired (hlive _ (FinMap.mem_entries_of_lookup hs))
  have hrun : Run (TimelySteps 7000) .init _ st₃ :=
    hrun₁.append (.cons ⟨h₂, hpacket⟩ (.single ⟨h₃, hsweep⟩))
  exact ⟨st₃, hrun, relays_mapped hrun (by rw [hclock]; decide) hconn rfl (by decide)⟩

/-- A sweep after five and a half minutes without a packet. -/
theorem not_relays_mapped :
    ∃ st, (oneFlow ++ [Event.sweep (secs 330)]).foldlM (step 7000) .init = some st ∧
      st.clock = secs 330 ∧
      (∃ c, st.conns 10000 = some c ∧
        c.relayed = some (⟨⟨10, 0, 0, 5⟩, 1234⟩, ⟨⟨1, 2, 3, 4⟩, 443⟩) ∧
        secs 330 - c.last < idleLimit) ∧
      (st.nat.lookupBack (secs 330) 10000).1 = none := by
  have heval : ((oneFlow ++ [Event.sweep (secs 330)]).foldlM (step 7000) .init).map
      (fun st => (st.clock, st.conns 10000, (st.nat.lookupBack (secs 330) 10000).1)) =
      some (secs 330, some ⟨⟨⟨10, 0, 0, 5⟩, 1234⟩, ⟨⟨1, 2, 3, 4⟩, 443⟩,
        some (⟨⟨10, 0, 0, 5⟩, 1234⟩, ⟨⟨1, 2, 3, 4⟩, 443⟩), 0⟩, none) := by decide +kernel
  obtain ⟨st, hst, hfound⟩ := Option.map_eq_some_iff.mp heval
  obtain ⟨hclock, hfound⟩ := Prod.mk.inj hfound
  obtain ⟨hconn, hback⟩ := Prod.mk.inj hfound
  exact ⟨st, hst, hclock, ⟨_, hconn, rfl, by decide⟩, hback⟩

end Flows

end Stack

end RustClash
