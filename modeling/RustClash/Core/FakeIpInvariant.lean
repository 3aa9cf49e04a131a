import RustClash.Core.FakeIp
import RustClash.Lib.Lts

/-!
# The fake-address pool keeps its three tables in step

`FakeIpPool.WF` says that the two maps are inverse to each other, that the
recency list is a permutation of the mapped hosts, that at most `8192` hosts are
mapped, and that every mapped address lies in the fake range and ends in neither
`0` nor `255`.  `lookupAvoiding_cases` says all that a lookup can do; a lookup
of a new host works on `room`, the pool after the eviction the lookup makes.

`uses` is the sequence of hosts whose names were looked up or whose addresses
were looked back, most recent first.  The recency list stays in the order of
last use (`Recency.Recent`), so the host an eviction removes is the one whose
last use is the oldest.
-/

namespace RustClash

namespace FakeIpPool

open Recency (Recent)

/-! ## The walk over the address range -/

def CursorOk (next : Nat) : Prop := first ≤ next ∧ next ≤ last

/-- An address the pool may hand out. -/
def Usable (ip : Ipv4Addr) : Prop := isFakeIpV4 ip = true ∧ ip.d ≠ 0 ∧ ip.d ≠ 255

theorem isFakeIpV4_hostToIp {next : Nat} (h : CursorOk next) :
    isFakeIpV4 (RustClash.hostToIp next) = true := by
  obtain ⟨hf, hl⟩ := h
  simp only [first, last] at hf hl
  simp [isFakeIpV4, isFakeIp, RustClash.hostToIp, first]
  omega

theorem advance_ok {next : Nat} (h : CursorOk next) : CursorOk (advance next) := by
  simp only [advance]
  obtain ⟨hf, hl⟩ := h
  split
  · exact ⟨Nat.le_refl _, by decide⟩
  · exact ⟨by omega, by omega⟩

theorem walk_spec {ipToHost : FinMap Ipv4Addr String} {inUse : Ipv4Addr → Bool} :
    ∀ {n next : Nat}, CursorOk next →
      CursorOk (walk ipToHost inUse n next).2 ∧
        ∀ ip, (walk ipToHost inUse n next).1 = some ip →
          ip ∉ ipToHost ∧ inUse ip = false ∧ Usable ip
  | 0, _, h => ⟨h, by intro ip hip; cases hip⟩
  | n + 1, next, h => by
      have hn : CursorOk (advance next) := advance_ok h
      simp only [walk]
      split
      · exact walk_spec hn
      · next hd =>
          rw [not_or] at hd
          split
          · exact walk_spec hn
          · next hu =>
              rw [not_or] at hu
              refine ⟨hn, ?_⟩
              intro ip hip
              cases hip
              exact ⟨hu.1, by simpa using hu.2, isFakeIpV4_hostToIp h, hd.1, hd.2⟩

/-! ## The invariant -/

structure WF (pool : FakeIpPool) : Prop where
  inverse : FinMap.Inverse id pool.hostToIp pool.ipToHost
  lru : pool.lru.Perm pool.hostToIp.keys
  size : FinMap.size pool.hostToIp ≤ max
  range : ∀ ip ∈ pool.ipToHost, Usable ip
  cursor : CursorOk pool.next

theorem WF.new : FakeIpPool.new.WF where
  inverse := FinMap.Inverse.empty
  lru := .refl _
  size := Nat.zero_le _
  range := by intro ip hip; exact absurd hip (AList.notMem_empty ip)
  cursor := by simp [FakeIpPool.new, CursorOk, first, last]

theorem WF.lookup_iff {pool : FakeIpPool} (h : pool.WF) {host : String} {ip : Ipv4Addr} :
    pool.hostToIp.lookup host = some ip ↔ pool.ipToHost.lookup ip = some host := by
  rw [h.inverse]
  simp

theorem WF.mem_lru {pool : FakeIpPool} (h : pool.WF) {host : String} :
    host ∈ pool.lru ↔ host ∈ pool.hostToIp := by
  rw [h.lru.mem_iff, AList.mem_keys]

/-! ## What each operation does -/

/-- A pool without the mapping of `host` to `ip`. -/
def unbind (pool : FakeIpPool) (host : String) (ip : Ipv4Addr) : FakeIpPool :=
  { pool with
    hostToIp := pool.hostToIp.erase host
    ipToHost := pool.ipToHost.erase ip
    lru := pool.lru.dropLast }

/-- A pool that maps one more host. -/
def bind (pool : FakeIpPool) (host : String) (ip : Ipv4Addr) (next : Nat) : FakeIpPool where
  hostToIp := pool.hostToIp.insert host ip
  ipToHost := pool.ipToHost.insert ip host
  lru := host :: pool.lru
  next := next

theorem WF.touch {pool : FakeIpPool} (h : pool.WF) (host : String) : (pool.touch host).WF where
  inverse := h.inverse
  lru := (Recency.touch_perm host pool.lru).trans h.lru
  size := h.size
  range := h.range
  cursor := h.cursor

theorem WF.withNext {pool : FakeIpPool} (h : pool.WF) {next : Nat} (hn : CursorOk next) :
    { pool with next := next }.WF :=
  ⟨h.inverse, h.lru, h.size, h.range, hn⟩

/-- An eviction removes the host at the back of the recency list. -/
theorem WF.evict_eq {pool : FakeIpPool} (h : pool.WF) {host : String}
    (hl : pool.lru.getLast? = some host) :
    ∃ ip, pool.hostToIp.lookup host = some ip ∧ pool.evict = pool.unbind host ip := by
  have hm : host ∈ pool.hostToIp := h.mem_lru.mp (List.mem_of_getLast? hl)
  obtain ⟨ip, hip⟩ := FinMap.exists_lookup_of_mem hm
  exact ⟨ip, hip, by simp only [FakeIpPool.evict, hl, hip, unbind]⟩

theorem WF.unbind {pool : FakeIpPool} (h : pool.WF) {host : String} {ip : Ipv4Addr}
    (hl : pool.lru.getLast? = some host) (hip : pool.hostToIp.lookup host = some ip) :
    (pool.unbind host ip).WF where
  inverse := h.inverse.erase (h.lookup_iff.mp hip)
  lru := by
    obtain ⟨init, hinit⟩ := List.getLast?_eq_some_iff.mp hl
    have hperm : (host :: init).Perm pool.hostToIp.keys := by
      refine .trans ?_ h.lru
      rw [hinit]
      exact (List.perm_append_singleton host init).symm
    simp only [FakeIpPool.unbind, hinit, List.dropLast_concat, AList.keys_erase]
    simpa using hperm.erase host
  size := by
    have := FinMap.size_erase_of_mem (FinMap.mem_of_lookup hip)
    have := h.size
    simp only [FakeIpPool.unbind]
    omega
  range := fun ip' hip' => h.range ip' (AList.mem_erase.mp hip').2
  cursor := h.cursor

theorem WF.bind {pool : FakeIpPool} (h : pool.WF) {host : String} {ip : Ipv4Addr} {next : Nat}
    (hhost : host ∉ pool.hostToIp) (hip : ip ∉ pool.ipToHost)
    (hroom : FinMap.size pool.hostToIp < max) (hu : Usable ip) (hn : CursorOk next) :
    (pool.bind host ip next).WF where
  inverse := h.inverse.insert (AList.lookup_eq_none.mpr hhost) (AList.lookup_eq_none.mpr hip)
  lru := by
    rw [FakeIpPool.bind, AList.keys_insert, List.erase_of_not_mem hhost]
    exact h.lru.cons host
  size := by
    rw [FakeIpPool.bind, FinMap.size_insert_of_notMem _ hhost]
    omega
  range := by
    intro ip' hip'
    rcases (AList.mem_insert _).mp hip' with rfl | hip'
    · exact hu
    · exact h.range ip' hip'
  cursor := hn

/-- The pool a lookup of a new host allocates from. -/
def room (pool : FakeIpPool) : FakeIpPool :=
  if max ≤ FinMap.size pool.hostToIp then pool.evict else pool

theorem room_eq_of_lt {pool : FakeIpPool} (h : FinMap.size pool.hostToIp < max) :
    pool.room = pool := if_neg (Nat.not_le.mpr h)

/-- A full pool loses the host at the back of its recency list. -/
theorem WF.room_eq_of_full {pool : FakeIpPool} (h : pool.WF)
    (hfull : FinMap.size pool.hostToIp = max) :
    ∃ host ip, pool.lru.getLast? = some host ∧ pool.hostToIp.lookup host = some ip ∧
      pool.room = pool.unbind host ip := by
  have hlen : pool.lru.length = max := h.lru.length_eq.trans hfull
  cases hl : pool.lru.getLast? with
  | none =>
      rw [List.getLast?_eq_none_iff] at hl
      rw [hl] at hlen
      cases hlen
  | some host =>
      obtain ⟨ip, hip, he⟩ := h.evict_eq hl
      exact ⟨host, ip, rfl, hip, by rw [room, if_pos (Nat.le_of_eq hfull.symm), he]⟩

/-- A pool is full or has room. -/
theorem WF.full_or_lt {pool : FakeIpPool} (h : pool.WF) :
    FinMap.size pool.hostToIp = max ∨ FinMap.size pool.hostToIp < max :=
  (Nat.lt_or_eq_of_le h.size).symm

theorem WF.room {pool : FakeIpPool} (h : pool.WF) : pool.room.WF := by
  rcases h.full_or_lt with hfull | hlt
  · obtain ⟨host, ip, hl, hip, he⟩ := h.room_eq_of_full hfull
    rw [he]
    exact h.unbind hl hip
  · rw [room_eq_of_lt hlt]
    exact h

theorem WF.size_room {pool : FakeIpPool} (h : pool.WF) :
    FinMap.size pool.room.hostToIp < max := by
  rcases h.full_or_lt with hfull | hlt
  · obtain ⟨host, ip, _, hip, he⟩ := h.room_eq_of_full hfull
    have := FinMap.size_erase_of_mem (FinMap.mem_of_lookup hip)
    rw [he]
    simp only [FakeIpPool.unbind]
    omega
  · rw [room_eq_of_lt hlt]
    exact hlt

/-- Room is made by removals only. -/
theorem WF.room_lookup {pool : FakeIpPool} (h : pool.WF) {ip : Ipv4Addr} {host : String}
    (hip : pool.room.ipToHost.lookup ip = some host) : pool.ipToHost.lookup ip = some host := by
  rcases h.full_or_lt with hfull | hlt
  · obtain ⟨victim, ip', _, _, he⟩ := h.room_eq_of_full hfull
    rw [he, FakeIpPool.unbind, FinMap.lookup_erase_eq] at hip
    split at hip
    · cases hip
    · exact hip
  · rwa [room_eq_of_lt hlt] at hip

theorem WF.notMem_room {pool : FakeIpPool} (h : pool.WF) {host : String}
    (hhost : host ∉ pool.hostToIp) : host ∉ pool.room.hostToIp := by
  intro hm
  obtain ⟨ip, hip⟩ := FinMap.exists_lookup_of_mem hm
  have := h.room_lookup (h.room.lookup_iff.mp hip)
  exact hhost (FinMap.mem_of_lookup (h.lookup_iff.mpr this))

theorem lookupAvoiding_new {pool : FakeIpPool} {idna : String → Option String} {host : String}
    {inUse : Ipv4Addr → Bool} (hk : pool.hostToIp.lookup (domainToAscii idna host) = none) :
    lookupAvoiding idna pool host inUse =
      match walk pool.room.ipToHost inUse 65530 pool.room.next with
      | (some ip, next) => (ip, pool.room.bind (domainToAscii idna host) ip next)
      | (none, next) => (⟨198, 18, 0, 4⟩, { pool.room with next }) := by
  simp only [lookupAvoiding, hk]
  rfl

/-- All that a lookup can do: find its host, find no free address, or map its
host to one. -/
theorem lookupAvoiding_cases {pool : FakeIpPool} (h : pool.WF) (idna : String → Option String)
    (host : String) (inUse : Ipv4Addr → Bool) :
    let key := domainToAscii idna host
    (∃ ip, pool.hostToIp.lookup key = some ip ∧
      lookupAvoiding idna pool host inUse = (ip, pool.touch key)) ∨
    (key ∉ pool.hostToIp ∧ ∃ next, CursorOk next ∧
      lookupAvoiding idna pool host inUse = (⟨198, 18, 0, 4⟩, { pool.room with next })) ∨
    (key ∉ pool.hostToIp ∧ ∃ ip next, ip ∉ pool.room.ipToHost ∧ inUse ip = false ∧ Usable ip ∧
      CursorOk next ∧
      lookupAvoiding idna pool host inUse = (ip, pool.room.bind key ip next)) := by
  intro key
  cases hk : pool.hostToIp.lookup key with
  | some ip => exact Or.inl ⟨ip, rfl, by simp only [lookupAvoiding, key, hk]⟩
  | none =>
      right
      have hnot : key ∉ pool.hostToIp := AList.lookup_eq_none.mp hk
      obtain ⟨hc, hw⟩ := @walk_spec pool.room.ipToHost inUse 65530 _ h.room.cursor
      cases hr : walk pool.room.ipToHost inUse 65530 pool.room.next with
      | mk r next =>
          rw [hr] at hc hw
          cases r with
          | none =>
              refine Or.inl ⟨hnot, next, hc, ?_⟩
              rw [lookupAvoiding_new hk, hr]
          | some ip =>
              obtain ⟨hip, hu, huse⟩ := hw ip rfl
              refine Or.inr ⟨hnot, ip, next, hip, hu, huse, hc, ?_⟩
              rw [lookupAvoiding_new hk, hr]

theorem WF.lookupAvoiding {pool : FakeIpPool} (h : pool.WF) (idna : String → Option String)
    (host : String) (inUse : Ipv4Addr → Bool) :
    (FakeIpPool.lookupAvoiding idna pool host inUse).2.WF := by
  rcases lookupAvoiding_cases h idna host inUse with
    ⟨ip, _, he⟩ | ⟨_, next, hn, he⟩ | ⟨hnot, ip, next, hip, _, hu, hn, he⟩
  · rw [he]; exact h.touch _
  · rw [he]; exact h.room.withNext hn
  · rw [he]; exact h.room.bind (h.notMem_room hnot) hip h.size_room hu hn

theorem lookback_eq (pool : FakeIpPool) (ip : Ipv4Addr) :
    pool.lookback ip = match pool.ipToHost.lookup ip with
      | none => (none, pool)
      | some host => (some host, pool.touch host) := rfl

theorem WF.lookback {pool : FakeIpPool} (h : pool.WF) (ip : Ipv4Addr) :
    (pool.lookback ip).2.WF := by
  rw [lookback_eq]
  cases pool.ipToHost.lookup ip with
  | none => exact h
  | some host => exact h.touch host

/-! ## Mappings through a lookup -/

theorem WF.room_lru_sublist {pool : FakeIpPool} (h : pool.WF) :
    pool.room.lru.Sublist pool.lru := by
  rcases h.full_or_lt with hfull | hlt
  · obtain ⟨host, ip, _, _, he⟩ := h.room_eq_of_full hfull
    rw [he]
    exact List.dropLast_sublist _
  · rw [room_eq_of_lt hlt]

/-- A mapping of the pool a lookup allocates from survives the lookup. -/
theorem lookupAvoiding_keeps {pool : FakeIpPool} (h : pool.WF) (idna : String → Option String)
    (host : String) (inUse : Ipv4Addr → Bool) {host' : String} {ip' : Ipv4Addr}
    (hnew : domainToAscii idna host ∉ pool.hostToIp →
      pool.room.hostToIp.lookup host' = some ip')
    (hold : pool.hostToIp.lookup host' = some ip') :
    (lookupAvoiding idna pool host inUse).2.hostToIp.lookup host' = some ip' := by
  rcases lookupAvoiding_cases h idna host inUse with
    ⟨ip, _, he⟩ | ⟨hnot, next, _, he⟩ | ⟨hnot, ip, next, _, _, _, _, he⟩
  · rw [he]; exact hold
  · rw [he]; exact hnew hnot
  · rw [he, bind, FinMap.lookup_insert_eq, if_neg]
    · exact hnew hnot
    · intro hkey
      rw [hkey] at hold
      exact hnot (FinMap.mem_of_lookup hold)

/-- A host that lost its mapping to make room has none after the lookup, unless
it is the host looked up. -/
theorem lookupAvoiding_drops {pool : FakeIpPool} (h : pool.WF) (idna : String → Option String)
    (host : String) (inUse : Ipv4Addr → Bool) {host' : String}
    (hnot : domainToAscii idna host ∉ pool.hostToIp) (hmem : host' ∈ pool.hostToIp)
    (hroom : host' ∉ pool.room.hostToIp) :
    host' ∉ (lookupAvoiding idna pool host inUse).2.hostToIp := by
  rcases lookupAvoiding_cases h idna host inUse with
    ⟨ip, hip, _⟩ | ⟨_, next, _, he⟩ | ⟨_, ip, next, _, _, _, _, he⟩
  · exact absurd (FinMap.mem_of_lookup hip) hnot
  · rw [he]; exact hroom
  · rw [he]
    intro hm
    rcases (AList.mem_insert _).mp hm with hkey | hm
    · rw [hkey] at hmem
      exact hnot hmem
    · exact hroom hm

/-! ## Runs of calls -/

/-- A call on the pool. -/
inductive Call where
  | lookup (host : String)
  | lookupAvoiding (host : String) (inUse : Ipv4Addr → Bool)
  | lookback (ip : Ipv4Addr)

variable (idna : String → Option String)

def perform (pool : FakeIpPool) : Call → FakeIpPool
  | .lookup host => (pool.lookup idna host).2
  | .lookupAvoiding host inUse => (pool.lookupAvoiding idna host inUse).2
  | .lookback ip => (pool.lookback ip).2

/-- The host a call uses: the one looked up, or the one an address stands for. -/
def used (pool : FakeIpPool) : Call → Option String
  | .lookup host => some (domainToAscii idna host)
  | .lookupAvoiding host _ => some (domainToAscii idna host)
  | .lookback ip => pool.ipToHost.lookup ip

/-- A call on a pool whose uses are recorded, most recent first. -/
def recordedStep (st : FakeIpPool × List String) (c : Call) : FakeIpPool × List String :=
  (st.1.perform idna c, (st.1.used idna c).toList ++ st.2)

/-- The recency list is in order of last use and lists used hosts only. -/
structure Recorded (pool : FakeIpPool) (uses : List String) : Prop where
  recent : Recent uses pool.lru
  used : ∀ host ∈ pool.lru, host ∈ uses

variable {idna}

theorem Recorded.touch {pool : FakeIpPool} {uses : List String} (hr : Recorded pool uses)
    (host : String) : Recorded (pool.touch host) (host :: uses) where
  recent := hr.recent.touch host
  used := by
    intro host' hm
    exact List.mem_cons_of_mem _ (hr.used host' ((Recency.touch_perm host _).mem_iff.mp hm))

theorem Recorded.lookupAvoiding {pool : FakeIpPool} {uses : List String} (h : pool.WF)
    (hr : Recorded pool uses) (host : String) (inUse : Ipv4Addr → Bool) :
    Recorded (pool.lookupAvoiding idna host inUse).2 (domainToAscii idna host :: uses) := by
  have hsub := h.room_lru_sublist
  rcases lookupAvoiding_cases h idna host inUse with
    ⟨ip, _, he⟩ | ⟨hnot, next, _, he⟩ | ⟨hnot, ip, next, _, _, _, _, he⟩
  · rw [he]; exact hr.touch _
  · have hlru : domainToAscii idna host ∉ pool.room.lru := fun hm =>
      hnot (h.mem_lru.mp (hsub.subset hm))
    rw [he]
    exact ⟨(hr.recent.sublist hsub).use_of_notMem hlru,
      fun host' hm => List.mem_cons_of_mem _ (hr.used host' (hsub.subset hm))⟩
  · have hlru : domainToAscii idna host ∉ pool.room.lru := fun hm =>
      hnot (h.mem_lru.mp (hsub.subset hm))
    rw [he]
    refine ⟨(hr.recent.sublist hsub).cons hlru, ?_⟩
    intro host' hm
    rcases List.mem_cons.mp hm with hkey | hm
    · rw [hkey]
      exact List.mem_cons_self
    · exact List.mem_cons_of_mem _ (hr.used host' (hsub.subset hm))

theorem Recorded.step {st : FakeIpPool × List String} (h : st.1.WF) (hr : Recorded st.1 st.2)
    (c : Call) : Recorded (recordedStep idna st c).1 (recordedStep idna st c).2 := by
  cases c with
  | lookup host => exact hr.lookupAvoiding h host _
  | lookupAvoiding host inUse => exact hr.lookupAvoiding h host inUse
  | lookback ip =>
      simp only [recordedStep, perform, FakeIpPool.used, lookback_eq]
      cases st.1.ipToHost.lookup ip with
      | none => exact hr
      | some host => exact hr.touch host

theorem WF.perform {pool : FakeIpPool} (h : pool.WF) (c : Call) : (pool.perform idna c).WF := by
  cases c with
  | lookup host => exact h.lookupAvoiding idna host _
  | lookupAvoiding host inUse => exact h.lookupAvoiding idna host inUse
  | lookback ip => exact h.lookback ip

variable (idna) in
/-- The pool and the record of uses after a sequence of calls on a new pool. -/
def recordedRun (calls : List Call) : FakeIpPool × List String :=
  calls.foldl (recordedStep idna) (new, [])

theorem recordedRun_inv (calls : List Call) :
    (recordedRun idna calls).1.WF ∧
      Recorded (recordedRun idna calls).1 (recordedRun idna calls).2 := by
  refine foldl_invariant (I := fun st : FakeIpPool × List String =>
    st.1.WF ∧ Recorded st.1 st.2) ?_ ?_ calls
  · intro st c hst
    exact ⟨hst.1.perform c, hst.2.step hst.1 c⟩
  · exact ⟨WF.new, .nil [], by intro host hm; cases hm⟩

/-! ## Which mappings a call removes -/

variable (idna) in
/-- The call looks up a host that is not mapped while the pool is full. -/
def NewWhenFull (pool : FakeIpPool) : Call → Prop
  | .lookup host => domainToAscii idna host ∉ pool.hostToIp ∧ FinMap.size pool.hostToIp = max
  | .lookupAvoiding host _ =>
      domainToAscii idna host ∉ pool.hostToIp ∧ FinMap.size pool.hostToIp = max
  | .lookback _ => False

theorem lookupAvoiding_keeps_of_room {pool : FakeIpPool} (h : pool.WF) {host : String}
    {inUse : Ipv4Addr → Bool} {host' : String} {ip' : Ipv4Addr}
    (hc : ¬ (domainToAscii idna host ∉ pool.hostToIp ∧ FinMap.size pool.hostToIp = max))
    (hold : pool.hostToIp.lookup host' = some ip') :
    (pool.lookupAvoiding idna host inUse).2.hostToIp.lookup host' = some ip' := by
  refine lookupAvoiding_keeps h idna host inUse (fun hnot => ?_) hold
  have hlt := h.full_or_lt.resolve_left fun hfull => hc ⟨hnot, hfull⟩
  rw [room_eq_of_lt hlt]
  exact hold

/-- Any other call changes no mapping. -/
theorem WF.perform_keeps {pool : FakeIpPool} (h : pool.WF) {c : Call}
    (hc : ¬ NewWhenFull idna pool c) {host : String} {ip : Ipv4Addr}
    (hold : pool.hostToIp.lookup host = some ip) :
    (pool.perform idna c).hostToIp.lookup host = some ip := by
  cases c with
  | lookup host' => exact lookupAvoiding_keeps_of_room h hc hold
  | lookupAvoiding host' inUse => exact lookupAvoiding_keeps_of_room h hc hold
  | lookback ip' =>
      simp only [FakeIpPool.perform, lookback_eq]
      cases pool.ipToHost.lookup ip' <;> exact hold

/-- The mapped host whose last use is the oldest. -/
def Oldest (pool : FakeIpPool) (uses : List String) (victim : String) : Prop :=
  victim ∈ pool.hostToIp ∧
    ∀ host ∈ pool.hostToIp, host ≠ victim → uses.idxOf host < uses.idxOf victim

theorem lookupAvoiding_evicts {pool : FakeIpPool} {uses : List String} (h : pool.WF)
    (hr : Recorded pool uses) {host : String} (inUse : Ipv4Addr → Bool)
    (hnot : domainToAscii idna host ∉ pool.hostToIp)
    (hfull : FinMap.size pool.hostToIp = max) :
    ∃ victim, Oldest pool uses victim ∧
      victim ∉ (pool.lookupAvoiding idna host inUse).2.hostToIp ∧
      ∀ host' ip, host' ≠ victim → pool.hostToIp.lookup host' = some ip →
        (pool.lookupAvoiding idna host inUse).2.hostToIp.lookup host' = some ip := by
  obtain ⟨victim, ip, hl, hip, he⟩ := h.room_eq_of_full hfull
  have hmem : victim ∈ pool.hostToIp := FinMap.mem_of_lookup hip
  refine ⟨victim, ⟨hmem, ?_⟩, ?_, ?_⟩
  · intro host' hm hne
    exact hr.recent.getLast hl host' (h.mem_lru.mpr hm) hne
  · refine lookupAvoiding_drops h idna host inUse hnot hmem ?_
    rw [he]
    exact fun hm => (AList.mem_erase.mp hm).1 rfl
  · intro host' ip' hne hold
    refine lookupAvoiding_keeps h idna host inUse (fun _ => ?_) hold
    rw [he, unbind, FinMap.lookup_erase_eq, if_neg hne]
    exact hold

/-- A lookup of a new host with the pool full removes exactly the host whose last
use is the oldest. -/
theorem WF.perform_evicts {pool : FakeIpPool} {uses : List String} (h : pool.WF)
    (hr : Recorded pool uses) {c : Call} (hc : NewWhenFull idna pool c) :
    ∃ victim, Oldest pool uses victim ∧ victim ∉ (pool.perform idna c).hostToIp ∧
      ∀ host ip, host ≠ victim → pool.hostToIp.lookup host = some ip →
        (pool.perform idna c).hostToIp.lookup host = some ip := by
  cases c with
  | lookup host => exact lookupAvoiding_evicts h hr _ hc.1 hc.2
  | lookupAvoiding host inUse => exact lookupAvoiding_evicts h hr inUse hc.1 hc.2
  | lookback ip => exact hc.elim

/-- After any sequence of calls the two maps are inverse to each other, the
recency list holds each mapped host once, at most `8192` hosts are mapped, every
mapped address is a usable fake one, and a further call changes no mapping but
for the eviction of the least recently used host. -/
theorem pool_consistent (idna : String → Option String) (calls : List Call) :
    let pool := (recordedRun idna calls).1
    let uses := (recordedRun idna calls).2
    (∀ host ip, pool.hostToIp.lookup host = some ip ↔ pool.ipToHost.lookup ip = some host) ∧
    pool.lru.Nodup ∧ (∀ host, host ∈ pool.lru ↔ host ∈ pool.hostToIp) ∧
    FinMap.size pool.hostToIp ≤ 8192 ∧
    (∀ host ip, pool.hostToIp.lookup host = some ip →
      isFakeIpV4 ip = true ∧ ip.d ≠ 0 ∧ ip.d ≠ 255) ∧
    (∀ host ∈ pool.hostToIp, host ∈ uses) ∧
    ∀ c, (¬ NewWhenFull idna pool c → ∀ host ip, pool.hostToIp.lookup host = some ip →
        (pool.perform idna c).hostToIp.lookup host = some ip) ∧
      (NewWhenFull idna pool c → ∃ victim, Oldest pool uses victim ∧
        victim ∉ (pool.perform idna c).hostToIp ∧
        ∀ host ip, host ≠ victim → pool.hostToIp.lookup host = some ip →
          (pool.perform idna c).hostToIp.lookup host = some ip) := by
  intro pool uses
  obtain ⟨hwf, hrec⟩ := @recordedRun_inv idna calls
  refine ⟨fun _ _ => hwf.lookup_iff, hrec.recent.nodup, fun _ => hwf.mem_lru, hwf.size, ?_, ?_, ?_⟩
  · intro host ip hip
    exact hwf.range ip (FinMap.mem_of_lookup (hwf.lookup_iff.mp hip))
  · intro host hm
    exact hrec.used host (hwf.mem_lru.mpr hm)
  · intro c
    exact ⟨fun hc _ _ => hwf.perform_keeps hc, hwf.perform_evicts hrec⟩

end FakeIpPool

end RustClash
