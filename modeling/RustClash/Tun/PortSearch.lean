import RustClash.Lib.Probe
import RustClash.Tun.TcpNatInvariant

/-!
# The search for a free port

`lookup` probes the ring of the ports from `10000` to `65535` from the cursor on.  The
ring has `55536` places and the loop makes `55535` rounds: the port behind the cursor is
never looked at.  `lookup_none_iff` says what a lookup without an answer means, and
`lookup_complete_iff` when the search is complete.
-/

namespace RustClash

namespace TcpNat

open Probe (probe Ring)

/-- The ports of the table, from the first on. -/
def port (i : Nat) : UInt16 := UInt16.ofNat (10000 + i)

theorem toNat_port {i : Nat} (h : i < 55536) : (port i).toNat = 10000 + i := by
  rw [port, UInt16.toNat_ofNat']
  omega

theorem port_sub {p : UInt16} (h : 10000 ≤ p.toNat) : port (p.toNat - 10000) = p := by
  rw [port, Nat.add_sub_cancel' h, UInt16.ofNat_toNat]

theorem port_inj {i j : Nat} (hi : i < 55536) (hj : j < 55536) (h : port i = port j) : i = j := by
  have heq := congrArg UInt16.toNat h
  rw [toNat_port hi, toNat_port hj] at heq
  omega

/-- The place of a cursor among the ports; `0` is the cursor at the first one. -/
def cursorPlace (i : UInt16) : Nat := if i = 0 then 0 else i.toNat - 10000

theorem cursorPlace_lt (i : UInt16) : cursorPlace i < 55536 := by
  have hlt := i.toNat_lt
  rw [cursorPlace]
  split <;> omega

section

variable {i : UInt16} (h : CursorOk i)
include h

theorem CursorOk.nextPort_eq : (nextPort i).1 = port (cursorPlace i) := by
  rw [nextPort, cursorPlace]
  split
  · rfl
  · next hi => exact (port_sub (h.resolve_left hi)).symm

theorem CursorOk.place_next : cursorPlace (nextPort i).2 = (cursorPlace i + 1) % 55536 := by
  rw [nextPort, cursorPlace, cursorPlace]
  by_cases hi : i = 0
  · rw [if_pos hi, if_pos hi]
    rfl
  · rw [if_neg hi, if_neg hi]
    have hlt := i.toNat_lt
    have hge : 10000 ≤ i.toNat := h.resolve_left hi
    have hadd : (i + 1).toNat = (i.toNat + 1) % 65536 := UInt16.toNat_add i 1
    simp only [← UInt16.toNat_inj, hadd, UInt16.toNat_zero]
    split <;> omega

end

/-- The ring of the ports. -/
def ports : Ring (fun i => (nextPort i).1) (fun i => (nextPort i).2) port 55536 where
  Good := CursorOk
  pos := cursorPlace
  pos_lt {i} _ := cursorPlace_lt i
  look_eq := CursorOk.nextPort_eq
  step_good := nextPort_cursor
  pos_step := CursorOk.place_next

/-- The search is a probe, but for the last port it looked at. -/
theorem searchPort_probe (portMap : FinMap UInt16 TcpSession) : ∀ (n : Nat) (next i : UInt16),
    match (probe (fun i => (nextPort i).1) (fun i => (nextPort i).2) (· ∈ portMap) n i).1 with
    | some p => (searchPort portMap n next i).1 = p
    | none => (searchPort portMap n next i).1 = next ∨ (searchPort portMap n next i).1 ∈ portMap
  | 0, next, i => Or.inl rfl
  | n + 1, next, i => by
      rw [probe, searchPort]
      by_cases htaken : (nextPort i).1 ∈ portMap
      · have ih := searchPort_probe portMap n (nextPort i).1 (nextPort i).2
        simp only [if_pos htaken]
        split at ih
        · exact ih
        · exact Or.inr (ih.elim (fun heq => by rw [heq]; exact htaken) id)
      · simp only [if_neg htaken]

/-- The port behind the cursor, the only one that is not looked at. -/
def behind (g : TcpNat) : UInt16 := port (ports.behind g.portIndex)

theorem behind_range (g : TcpNat) : 10000 ≤ g.behind.toNat := by
  rw [behind, toNat_port (ports.behind_lt (by decide) _)]
  exact Nat.le_add_right _ _

variable {g : TcpNat} {now : Nat} {source destination : SocketAddrV4}

/-- A source without a session finds no port where every port but, at most, the one behind the
cursor is taken. -/
theorem WF.lookup_none_iff (h : g.WF) (ha : g.addrMap.lookup source = none) :
    (g.lookup now source destination).1 = none ↔
      ∀ p, 10000 ≤ p.toNat → p ≠ g.behind → p ∈ g.portMap := by
  have hprobe := searchPort_probe g.portMap 55535 0 g.portIndex
  have hshort := @Ring.probe_short _ _ _ _ (· ∈ g.portMap) _ 55535 g.portIndex _ _ ports
    h.cursor rfl
  have hring : (∀ i < 55536, i ≠ ports.behind g.portIndex → port i ∈ g.portMap) ↔
      ∀ p, 10000 ≤ p.toNat → p ≠ g.behind → p ∈ g.portMap := by
    constructor
    · intro hall p hp hne
      have hlt := p.toNat_lt
      rw [← port_sub hp] at hne ⊢
      exact hall _ (by omega) fun heq => hne (by rw [behind, heq])
    · intro hall i hi hne
      refine hall _ (by rw [toNat_port hi]; omega) fun heq => hne ?_
      exact port_inj hi (ports.behind_lt (by decide) _) heq
  rw [← hring, ← hshort]
  simp only [TcpNat.lookup, ha]
  generalize searchPort g.portMap 55535 0 g.portIndex = r at hprobe
  split at hprobe
  · next p hp =>
      obtain ⟨hfree, i, hi, hport⟩ := ports.probe_mem h.cursor hp
      have hne : ¬ (r.1 = 0 ∨ r.1 ∈ g.portMap) := by
        rintro (hzero | hmem)
        · have hrange := toNat_port hi
          rw [← hport, ← hprobe, hzero, UInt16.toNat_zero] at hrange
          omega
        · exact hfree (hprobe ▸ hmem)
      rw [if_neg hne, hp]
      exact iff_of_false (by simp) (by simp)
  · next hp => rw [if_pos hprobe, hp]

/-- A source without a session gets a port of the range that was free. -/
theorem WF.lookup_free (h : g.WF) (ha : g.addrMap.lookup source = none) {p : UInt16}
    (hp : (g.lookup now source destination).1 = some p) :
    10000 ≤ p.toNat ∧ p ∉ g.portMap := by
  rcases lookup_cases h now source destination with
    ⟨_, _, ha', -⟩ | ⟨-, _, -, he⟩ | ⟨-, p', _, hfree, hrange, -, he⟩
  · cases ha.symm.trans ha'
  · rw [he] at hp
    cases hp
  · rw [he] at hp
    cases hp
    exact ⟨hrange, hfree⟩

/-- After any sequence of calls a source without a session gets a free port, and none only
where all are taken, unless the port behind the cursor is the only free one. -/
theorem lookup_complete_iff (timeout : Nat) (calls : List Call) (now : Nat)
    (source destination : SocketAddrV4)
    (ha : (recordedRun timeout calls).1.addrMap.lookup source = none) :
    let g := (recordedRun timeout calls).1
    (((g.lookup now source destination).1 = none → ∀ p, 10000 ≤ p.toNat → p ∈ g.portMap) ∧
      ∀ p, (g.lookup now source destination).1 = some p → 10000 ≤ p.toNat ∧ p ∉ g.portMap) ↔
    ¬ ∀ p, 10000 ≤ p.toNat → (p ∉ g.portMap ↔ p = g.behind) := by
  intro g
  have h : g.WF := (recordedRun_inv timeout calls).1
  have hnone := @WF.lookup_none_iff g now source destination h ha
  constructor
  · rintro ⟨hfull, -⟩ honly
    have hmem := hfull (hnone.mpr fun p hp hne => not_not.mp (mt (honly p hp).mp hne)) g.behind
      g.behind_range
    exact (honly g.behind g.behind_range).mpr rfl hmem
  · intro hother
    refine ⟨fun hn p hp => ?_, fun p hp => h.lookup_free ha hp⟩
    by_contra hfree
    have htaken := hnone.mp hn
    refine hother fun q hq => ⟨fun hq' => ?_, fun hq' => ?_⟩
    · by_contra hne
      exact hq' (htaken q hq hne)
    · have hp' : p = g.behind := by
        by_contra hne
        exact hfree (htaken p hp hne)
      rwa [hq', ← hp']

def client (i : Nat) : SocketAddrV4 := ⟨⟨10, 0, 0, 5⟩, UInt16.ofNat i⟩

def server : SocketAddrV4 := ⟨⟨1, 2, 3, 4⟩, 443⟩

/-- The first of two connections is answered, and a sweep removes the session of the second. -/
def twoClients : List Call :=
  [.lookup 0 (client 1) server, .lookup 0 (client 2) server, .lookupBack 200 10000, .sweep 400]

/-- A third connection gets a port that is not that of the first. -/
theorem lookup_complete_third : let g := (recordedRun 300 twoClients).1
    10000 ∈ g.portMap ∧
      ∃ p, (g.lookup 400 (client 3) server).1 = some p ∧ 10000 ≤ p.toNat ∧ p ∉ g.portMap := by
  intro g
  have hnone : g.addrMap.lookup (client 3) = none := by decide +kernel
  have hfree : (10001 : UInt16) ∉ g.portMap ∧ (10009 : UInt16) ∉ g.portMap := by decide +kernel
  have hother : ¬ ∀ p : UInt16, 10000 ≤ p.toNat → (p ∉ g.portMap ↔ p = g.behind) := by
    intro honly
    have hone := (honly 10001 (by decide)).mp hfree.1
    have htwo := (honly 10009 (by decide)).mp hfree.2
    exact absurd (hone.trans htwo.symm) (by decide)
  obtain ⟨hfull, hport⟩ :=
    (lookup_complete_iff 300 twoClients 400 (client 3) server hnone).mpr hother
  refine ⟨by decide +kernel, ?_⟩
  cases hp : (g.lookup 400 (client 3) server).1 with
  | none => exact absurd (hfull hp 10001 (by decide)) hfree.1
  | some p => exact ⟨p, rfl, hport p hp⟩

/-! ## A table with one free port -/

theorem client_inj {i j : Nat} (hi : i < 65536) (hj : j < 65536) (h : client i = client j) :
    i = j := by
  have hport := congrArg (fun a : SocketAddrV4 => a.port.toNat) h
  simp only [client, UInt16.toNat_ofNat'] at hport
  omega

/-- As many clients connect as there are ports, all but the last of them send another packet a
second later, and the session of the last is swept. -/
def almostFull : List Call :=
  (List.range 55536).map (fun i => .lookup 0 (client i) server) ++
    ((List.range 55535).map (fun i => .lookupBack 1 (port i)) ++ [.sweep 301])

theorem recordedRun_table (timeout : Nat) (calls : List Call) :
    (recordedRun timeout calls).1 = calls.foldl perform (new timeout) := by
  suffices h : ∀ st : TcpNat × History,
      (calls.foldl recordedStep st).1 = calls.foldl perform st.1 from h _
  induction calls with
  | nil => exact fun _ => rfl
  | cons c calls ih => exact fun st => ih (recordedStep st c)

/-- The first `n` ports are in use, by the client of the same number. -/
structure Filled (n : Nat) (g : TcpNat) : Prop where
  wf : g.WF
  timeout : g.timeout = 300
  cursor : ports.pos g.portIndex = n % 55536
  session : ∀ i < 55536, g.portMap.lookup (port i) =
    if i < n then some ⟨client i, server, 0⟩ else none

theorem Filled.connect {n : Nat} {g : TcpNat} (h : Filled n g) (hn : n < 55536) :
    Filled (n + 1) (g.perform (.lookup 0 (client n) server)) := by
  have ha : g.addrMap.lookup (client n) = none := by
    by_contra hsome
    obtain ⟨p, hp⟩ := Option.ne_none_iff_exists'.mp hsome
    obtain ⟨s, hs, hsource⟩ := h.wf.session hp
    have hrange := h.wf.range p (FinMap.mem_of_lookup hs)
    have hlt := p.toNat_lt
    rw [← port_sub hrange, h.session _ (by omega)] at hs
    split at hs
    · next hi =>
        cases hs
        have := client_inj (by omega) (by omega) hsource
        omega
    · cases hs
  have hlook : (nextPort g.portIndex).1 = port n := by
    rw [ports.look_eq h.wf.cursor, h.cursor, Nat.mod_eq_of_lt hn]
  have hfree : (nextPort g.portIndex).1 ∉ g.portMap := by
    rw [hlook, ← AList.lookup_eq_none, h.session n hn, if_neg (Nat.lt_irrefl n)]
  have hsearch : searchPort g.portMap 55535 0 g.portIndex = nextPort g.portIndex := by
    show searchPort g.portMap (55534 + 1) 0 g.portIndex = _
    rw [searchPort]
    exact if_neg hfree
  have hne : ¬ (port n = 0 ∨ port n ∈ g.portMap) := by
    rw [hlook] at hfree
    rintro (hzero | hmem)
    · have hrange := toNat_port hn
      rw [hzero, UInt16.toNat_zero] at hrange
      omega
    · exact hfree hmem
  have hstep : g.perform (.lookup 0 (client n) server) =
      g.allocate (port n) (nextPort g.portIndex).2 ⟨client n, server, 0⟩ := by
    simp only [perform, lookup, ha, hsearch, hlook, if_neg hne, allocate]
  refine ⟨h.wf.perform _, ?_, ?_, fun i hi => ?_⟩
  · rw [hstep]
    exact h.timeout
  · rw [hstep]
    show ports.pos (nextPort g.portIndex).2 = _
    rw [ports.pos_step h.wf.cursor, h.cursor, Nat.mod_add_mod]
  · rw [hstep]
    show (g.portMap.insert (port n) _).lookup (port i) = _
    rw [FinMap.lookup_insert_eq, h.session i hi]
    by_cases hin : i = n
    · rw [if_pos (by rw [hin]), if_pos (by omega), hin]
    · rw [if_neg fun heq => hin (port_inj hi hn heq)]
      split <;> split <;> first | rfl | omega

theorem filled_range : ∀ n ≤ 55536,
    Filled n (((List.range n).map fun i => Call.lookup 0 (client i) server).foldl perform (new 300))
  | 0, _ => ⟨.new 300, rfl, by decide, fun i _ => rfl⟩
  | n + 1, hn => by
      rw [List.range_succ, List.map_append, List.foldl_append]
      exact (filled_range n (by omega)).connect (by omega)

/-- All ports are in use, the first `m` of them since second 1. -/
structure Refreshed (m : Nat) (g : TcpNat) : Prop where
  wf : g.WF
  timeout : g.timeout = 300
  cursor : ports.pos g.portIndex = 0
  session : ∀ i < 55536, g.portMap.lookup (port i) =
    some ⟨client i, server, if i < m then 1 else 0⟩

theorem Refreshed.answer {m : Nat} {g : TcpNat} (h : Refreshed m g) (hm : m < 55536) :
    Refreshed (m + 1) (g.perform (.lookupBack 1 (port m))) := by
  have hportIndex : (g.lookupBack 1 (port m)).2.portIndex = g.portIndex ∧
      (g.lookupBack 1 (port m)).2.timeout = g.timeout := by
    rw [lookupBack_eq]
    split <;> exact ⟨rfl, rfl⟩
  refine ⟨h.wf.perform _, hportIndex.2.trans h.timeout, ?_, fun i hi => ?_⟩
  · show ports.pos (g.lookupBack 1 (port m)).2.portIndex = 0
    rw [hportIndex.1, h.cursor]
  · show (g.lookupBack 1 (port m)).2.portMap.lookup (port i) = _
    rw [lookupBack_portMap, h.session m hm, h.session i hi]
    by_cases him : i = m
    · rw [if_pos (by rw [him]), him, if_pos (Nat.lt_succ_self m)]
      rfl
    · rw [if_neg fun heq => him (port_inj hi hm heq)]
      have : i < m + 1 ↔ i < m := by omega
      simp only [this]

theorem refreshed_range {g : TcpNat} (h : Refreshed 0 g) : ∀ m ≤ 55536,
    Refreshed m (((List.range m).map fun i => Call.lookupBack 1 (port i)).foldl perform g)
  | 0, _ => h
  | m + 1, hm => by
      rw [List.range_succ, List.map_append, List.foldl_append]
      exact (refreshed_range h m (by omega)).answer (by omega)

theorem refreshed_almostFull :
    ∃ g, Refreshed 55535 g ∧ (recordedRun 300 almostFull).1 = g.sweep 301 := by
  have hfilled := filled_range 55536 (Nat.le_refl _)
  refine ⟨_, refreshed_range ⟨hfilled.wf, hfilled.timeout, hfilled.cursor, fun i hi => ?_⟩ 55535
    (by decide), ?_⟩
  · rw [hfilled.session i hi, if_pos hi]
    rfl
  · rw [recordedRun_table, almostFull, List.foldl_append, List.foldl_append, List.foldl_cons,
      List.foldl_nil]
    simp only [perform]

/-- A source without a session gets no port although port 65535 is free. -/
theorem not_lookup_complete :
    let g := (recordedRun 300 almostFull).1
    g.addrMap.lookup (client 60000) = none ∧
      (g.lookup 301 (client 60000) server).1 = none ∧ (65535 : UInt16) ∉ g.portMap := by
  intro g
  obtain ⟨g', h, heq⟩ := refreshed_almostFull
  have hg : g = g'.sweep 301 := heq
  have hsession : ∀ i < 55536, ∀ s, g.portMap.lookup (port i) = some s ↔
      s = ⟨client i, server, 1⟩ ∧ i < 55535 := by
    intro i hi s
    rw [hg, sweep_lookup, h.session i hi, Expired, h.timeout]
    by_cases hlt : i < 55535
    · rw [if_pos hlt]
      constructor
      · rintro ⟨hs, -⟩
        exact ⟨(Option.some.inj hs).symm, hlt⟩
      · rintro ⟨rfl, -⟩
        exact ⟨rfl, (by decide : ¬ 300 < 301 - 1)⟩
    · rw [if_neg hlt]
      constructor
      · rintro ⟨hs, hlive⟩
        cases hs
        exact absurd (by decide : 300 < 301 - 0) hlive
      · rintro ⟨-, hlt'⟩
        exact absurd hlt' hlt
  have hwf : g.WF := (recordedRun_inv 300 almostFull).1
  have ha : g.addrMap.lookup (client 60000) = none := by
    by_contra hsome
    obtain ⟨p, hp⟩ := Option.ne_none_iff_exists'.mp hsome
    obtain ⟨s, hs, hsource⟩ := hwf.session hp
    have hrange := hwf.range p (FinMap.mem_of_lookup hs)
    have hlt := p.toNat_lt
    rw [← port_sub hrange] at hs
    obtain ⟨rfl, hi⟩ := (hsession _ (by omega) s).mp hs
    have := client_inj (by omega) (by decide) hsource
    omega
  have hlast : g.portMap.lookup (port 55535) = none := by
    by_contra hsome
    obtain ⟨s, hs⟩ := Option.ne_none_iff_exists'.mp hsome
    exact absurd ((hsession 55535 (by decide) s).mp hs).2 (by decide)
  have hcursor : ports.pos g.portIndex = 0 := by
    have hindex : ∀ ps : List UInt16, (ps.foldl removePort g').portIndex = g'.portIndex :=
      fun ps => foldl_invariant (I := fun t : TcpNat => t.portIndex = g'.portIndex)
        (fun t p ht => by rw [removePort]; split <;> exact ht) rfl ps
    rw [hg, sweep, hindex, h.cursor]
  have hbehind : g.behind = port 55535 := by
    rw [behind, Probe.Ring.behind, hcursor]
  refine ⟨ha, (hwf.lookup_none_iff ha).mpr fun p hp hne => ?_, AList.lookup_eq_none.mp hlast⟩
  have hlt := p.toNat_lt
  rw [← port_sub hp] at hne ⊢
  rw [hbehind] at hne
  have hi : p.toNat - 10000 < 55535 := by
    have : p.toNat - 10000 ≠ 55535 := fun heq => hne (by rw [heq])
    omega
  exact FinMap.mem_of_lookup ((hsession _ (by omega) _).mpr ⟨rfl, hi⟩)

end TcpNat

end RustClash
