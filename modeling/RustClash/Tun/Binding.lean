import RustClash.Core.FakeIpInvariant
import RustClash.Tun.TcpNatInvariant

/-!
# Fake addresses under live sessions

The packet thread, the DNS handlers, the accept tasks and the sweep task of the
TUN stack share one fake-address pool and one NAT table, each behind its own
lock.  A DNS answer allocates with `has_destination` as its `in_use` test, and
that is the only step that binds an address.  `step_bound` says what one step
does to the binding of an address that is the destination of a session: it stays
or it is removed.  `bound_stable` carries this along any run in which the session
stays in the table.
-/

namespace RustClash

namespace Tun

structure State where
  pool : FakeIpPool
  nat : TcpNat

def State.init (timeout : Nat) : State := ⟨FakeIpPool.new, TcpNat.new timeout⟩

/-- The atomic steps, with the clock reading each takes. -/
inductive Action where
  | answerDns (qname : String)
  | natLookup (now : Nat) (source destination : SocketAddrV4)
  | natLookupBack (now : Nat) (port : UInt16)
  | lookback (ip : Ipv4Addr)
  | sweep (now : Nat)

variable (idna : String → Option String)

def step (st : State) : Action → State
  | .answerDns qname =>
      { st with pool := (st.pool.lookupAvoiding idna qname st.nat.hasDestination).2 }
  | .natLookup now source destination =>
      { st with nat := (st.nat.lookup now source destination).2 }
  | .natLookupBack now port => { st with nat := (st.nat.lookupBack now port).2 }
  | .lookback ip => { st with pool := (st.pool.lookback ip).2 }
  | .sweep now => { st with nat := st.nat.sweep now }

variable {idna}

/-- The host an address is bound to. -/
def State.bound (st : State) (ip : Ipv4Addr) : Option String := st.pool.ipToHost.lookup ip

/-- The table holds a session of `source` with `destination`. -/
def State.HasSession (st : State) (source destination : SocketAddrV4) : Prop :=
  ∃ p s, st.nat.portMap.lookup p = some s ∧ s.source = source ∧ s.destination = destination

theorem hasDestination_of_session {st : State} {source destination : SocketAddrV4}
    (h : st.HasSession source destination) : st.nat.hasDestination destination.ip = true := by
  obtain ⟨p, s, hs, _, hd⟩ := h
  exact List.any_eq_true.mpr
    ⟨⟨p, s⟩, FinMap.mem_entries_of_lookup hs, decide_eq_true (by rw [hd])⟩

theorem step_pool_wf {st : State} (h : st.pool.WF) (a : Action) : (step idna st a).pool.WF := by
  cases a with
  | answerDns qname => exact h.lookupAvoiding idna qname _
  | natLookup now source destination => exact h
  | natLookupBack now port => exact h
  | lookback ip => exact h.lookback ip
  | sweep now => exact h

/-! ## Bindings through a DNS answer -/

theorem room_bound {pool : FakeIpPool} (h : pool.WF) (ip : Ipv4Addr) :
    pool.room.ipToHost.lookup ip = pool.ipToHost.lookup ip ∨ pool.room.ipToHost.lookup ip = none := by
  cases hr : pool.room.ipToHost.lookup ip with
  | none => exact Or.inr rfl
  | some host => exact Or.inl (h.room_lookup hr).symm

/-- A lookup removes the binding of an address in use or leaves it as it is. -/
theorem lookupAvoiding_bound {pool : FakeIpPool} (h : pool.WF) (host : String)
    {inUse : Ipv4Addr → Bool} {ip : Ipv4Addr} (hip : inUse ip = true) :
    (pool.lookupAvoiding idna host inUse).2.ipToHost.lookup ip = pool.ipToHost.lookup ip ∨
      (pool.lookupAvoiding idna host inUse).2.ipToHost.lookup ip = none := by
  rcases FakeIpPool.lookupAvoiding_cases h idna host inUse with
    ⟨ip', _, he⟩ | ⟨_, next, _, he⟩ | ⟨_, ip', next, _, hfree, _, _, he⟩
  · rw [he]; exact Or.inl rfl
  · rw [he]; exact room_bound h ip
  · have hne : ip ≠ ip' := by
      intro heq
      rw [heq, hfree] at hip
      cases hip
    rw [he, FakeIpPool.bind, FinMap.lookup_insert_eq, if_neg hne]
    exact room_bound h ip

/-- While a session to an address is in the table, a step removes the binding of
the address or leaves it as it is. -/
theorem step_bound {st : State} (h : st.pool.WF) {source destination : SocketAddrV4}
    (hs : st.HasSession source destination) (a : Action) :
    (step idna st a).bound destination.ip = st.bound destination.ip ∨
      (step idna st a).bound destination.ip = none := by
  cases a with
  | answerDns qname => exact lookupAvoiding_bound h qname (hasDestination_of_session hs)
  | natLookup now source destination => exact Or.inl rfl
  | natLookupBack now port => exact Or.inl rfl
  | lookback ip =>
      left
      simp only [step, State.bound, FakeIpPool.lookback_eq]
      cases st.pool.ipToHost.lookup ip <;> rfl
  | sweep now => exact Or.inl rfl

/-! ## Runs -/

variable (idna) in
/-- A step taken while the session is in the table. -/
def StepDuring (source destination : SocketAddrV4) (st : State) (a : Action) (st' : State) : Prop :=
  st.HasSession source destination ∧ step idna st a = st'

/-- Take a state `s` of any run of the stack, such as the one right after a
session was created, and any further run to `t` throughout which the session
stays in the table.  Then its destination is bound in `t` to the host it is bound
to in `s`, or to no host. -/
theorem bound_stable {timeout : Nat} {as bs : List Action} {s t : State}
    {source destination : SocketAddrV4}
    (hs : Run (Steps (step idna)) (State.init timeout) as s)
    (ht : Run (StepDuring idna source destination) s bs t) :
    t.bound destination.ip = s.bound destination.ip ∨ t.bound destination.ip = none := by
  have hwf : s.pool.WF :=
    hs.invariant (I := fun st : State => st.pool.WF)
      (fun h hst => hst ▸ step_pool_wf h _) FakeIpPool.WF.new
  have hinv : t.pool.WF ∧
      (t.bound destination.ip = s.bound destination.ip ∨ t.bound destination.ip = none) := by
    refine ht.invariant (I := fun st : State => st.pool.WF ∧
      (st.bound destination.ip = s.bound destination.ip ∨ st.bound destination.ip = none))
      ?_ ⟨hwf, Or.inl rfl⟩
    rintro u a v ⟨hu, hb⟩ ⟨hses, rfl⟩
    refine ⟨step_pool_wf hu a, ?_⟩
    rcases step_bound hu hses a with hkeep | hdrop
    · rw [hkeep]; exact hb
    · exact Or.inr hdrop
  exact hinv.2

/-- A session to the first fake address, opened after `a.test` was given it; the
query for `b.test` cannot rebind it. -/
theorem bound_stable_first :
    let source : SocketAddrV4 := ⟨⟨10, 0, 0, 1⟩, 5000⟩
    let destination : SocketAddrV4 := ⟨⟨198, 18, 0, 4⟩, 443⟩
    let s := step some (step some (State.init 300) (.answerDns "a.test"))
      (.natLookup 0 source destination)
    let t := step some s (.answerDns "b.test")
    t.bound destination.ip = s.bound destination.ip ∨ t.bound destination.ip = none := by
  intro source destination s t
  have hses : s.HasSession source destination :=
    ⟨10000, ⟨source, destination, 0⟩, by decide, rfl, rfl⟩
  have hs : Run (Steps (step some)) (State.init 300)
      [.answerDns "a.test", .natLookup 0 source destination] s := .snoc (.snoc .nil rfl) rfl
  exact bound_stable hs (.single ⟨hses, rfl⟩)

end Tun

end RustClash
