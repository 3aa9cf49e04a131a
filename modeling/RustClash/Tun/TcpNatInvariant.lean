import RustClash.Tun.TcpNat

/-!
# The NAT table keeps its two maps in step

`TcpNat.WF` says that the maps are inverse to each other, that only ports from
`10000` on are in use and that the cursor stands on such a port or on `0`.
Every operation keeps it.  `lookup_cases` says all that `lookup` can do to a
well-formed table, and every later fact about `lookup` is read off it.

`History` records what the callers of a table saw: the source a port was
allocated to, and the destination each source asked for last.
`recordedRun_inv` carries the table and the record over any sequence of calls at
any clock readings.
-/

namespace RustClash

namespace TcpNat

/-! ## The port search -/

/-- The cursor stands on a port of the range, or on the `0` it wraps through. -/
def CursorOk (portIndex : UInt16) : Prop := portIndex = 0 ∨ 10000 ≤ portIndex.toNat

theorem nextPort_range {i : UInt16} (h : CursorOk i) : 10000 ≤ (nextPort i).1.toNat := by
  simp only [nextPort]
  split
  · decide
  · exact h.resolve_left ‹_›

theorem nextPort_cursor {i : UInt16} (h : CursorOk i) : CursorOk (nextPort i).2 := by
  simp only [nextPort]
  split
  · exact Or.inr (by decide)
  · next hi =>
      have hr : 10000 ≤ i.toNat := h.resolve_left hi
      have hlt : i.toNat < 65536 := i.toNat_lt
      simp only [CursorOk]
      rw [← UInt16.toNat_inj, UInt16.toNat_add]
      simp
      omega

theorem searchPort_ok {portMap : FinMap UInt16 TcpSession} :
    ∀ {n : Nat} {next i : UInt16}, CursorOk next → CursorOk i →
      CursorOk (searchPort portMap n next i).1 ∧ CursorOk (searchPort portMap n next i).2
  | 0, _, _, hn, hi => ⟨hn, hi⟩
  | n + 1, next, i, _, hi => by
      simp only [searchPort]
      have hp : CursorOk (nextPort i).1 := Or.inr (nextPort_range hi)
      split
      · exact searchPort_ok hp (nextPort_cursor hi)
      · exact ⟨hp, nextPort_cursor hi⟩

/-! ## The invariant -/

structure WF (g : TcpNat) : Prop where
  inverse : FinMap.Inverse TcpSession.source g.addrMap g.portMap
  range : ∀ p ∈ g.portMap, 10000 ≤ p.toNat
  cursor : CursorOk g.portIndex

theorem WF.new (timeout : Nat) : (TcpNat.new timeout).WF where
  inverse := FinMap.Inverse.empty
  range := by intro p hp; exact absurd hp (AList.notMem_empty p)
  cursor := Or.inr (by simp [TcpNat.new])

/-- The session behind the port of a source is a session of that source. -/
theorem WF.session {g : TcpNat} (h : g.WF) {source : SocketAddrV4} {p : UInt16}
    (ha : g.addrMap.lookup source = some p) :
    ∃ s, g.portMap.lookup p = some s ∧ s.source = source :=
  (h.inverse source p).mp ha

/-! ## What each operation does -/

/-- A table whose session at `p` is rewritten. -/
def rewrite (g : TcpNat) (p : UInt16) (s : TcpSession) : TcpNat :=
  { g with portMap := g.portMap.insert p s }

/-- A table with one more session. -/
def allocate (g : TcpNat) (p i : UInt16) (s : TcpSession) : TcpNat :=
  { g with addrMap := g.addrMap.insert s.source p, portMap := g.portMap.insert p s, portIndex := i }

/-- All that `lookup` can do: refresh the session of its source, find no free
port, or allocate one. -/
theorem lookup_cases {g : TcpNat} (h : g.WF) (now : Nat) (source destination : SocketAddrV4) :
    (∃ p s, g.addrMap.lookup source = some p ∧ g.portMap.lookup p = some s ∧ s.source = source ∧
      g.lookup now source destination =
        (some p, g.rewrite p ⟨source, destination, now⟩)) ∨
    (g.addrMap.lookup source = none ∧ ∃ i, CursorOk i ∧
      g.lookup now source destination = (none, { g with portIndex := i })) ∨
    (g.addrMap.lookup source = none ∧ ∃ p i, p ∉ g.portMap ∧ 10000 ≤ p.toNat ∧ CursorOk i ∧
      g.lookup now source destination =
        (some p, g.allocate p i ⟨source, destination, now⟩)) := by
  cases ha : g.addrMap.lookup source with
  | some p =>
      left
      obtain ⟨s, hs, hsrc⟩ := h.session ha
      refine ⟨p, s, rfl, hs, hsrc, ?_⟩
      by_cases hd : s.destination = destination
      · subst hd
        simp [lookup, ha, hs, rewrite, hsrc]
      · simp [lookup, ha, hs, hd, rewrite, hsrc]
  | none =>
      right
      have hok := @searchPort_ok g.portMap 55535 0 g.portIndex
        (Or.inl rfl) h.cursor
      generalize hr : searchPort g.portMap 55535 0 g.portIndex = r at hok
      by_cases hfull : r.1 = 0 ∨ r.1 ∈ g.portMap
      · exact Or.inl ⟨rfl, r.2, hok.2, by simp [lookup, ha, hr, hfull]⟩
      · have hz : r.1 ≠ 0 := fun hz => hfull (Or.inl hz)
        have hfree : r.1 ∉ g.portMap := fun hm => hfull (Or.inr hm)
        exact Or.inr ⟨rfl, r.1, r.2, hfree, hok.1.resolve_left hz, hok.2,
          by simp [lookup, ha, hr, hfull, allocate]⟩

theorem WF.rewrite {g : TcpNat} (h : g.WF) {p : UInt16} {s s' : TcpSession}
    (hs : g.portMap.lookup p = some s) (hsrc : s'.source = s.source) : (g.rewrite p s').WF where
  inverse := h.inverse.update hs hsrc
  range := by
    intro q hq
    rcases (AList.mem_insert _).mp hq with rfl | hq
    · exact h.range _ (FinMap.mem_of_lookup hs)
    · exact h.range _ hq
  cursor := h.cursor

theorem WF.allocate {g : TcpNat} (h : g.WF) {p i : UInt16} {s : TcpSession}
    (ha : g.addrMap.lookup s.source = none) (hp : p ∉ g.portMap) (hr : 10000 ≤ p.toNat)
    (hi : CursorOk i) : (g.allocate p i s).WF where
  inverse := h.inverse.insert ha (AList.lookup_eq_none.mpr hp)
  range := by
    intro q hq
    rcases (AList.mem_insert _).mp hq with rfl | hq
    · exact hr
    · exact h.range _ hq
  cursor := hi

theorem WF.lookup {g : TcpNat} (h : g.WF) (now : Nat) (source destination : SocketAddrV4) :
    (g.lookup now source destination).2.WF := by
  rcases lookup_cases h now source destination with
    ⟨p, s, _, hs, hsrc, he⟩ | ⟨_, i, hi, he⟩ | ⟨ha, p, i, hp, hr, hi, he⟩
  · rw [he]; exact h.rewrite hs hsrc.symm
  · rw [he]; exact ⟨h.inverse, h.range, hi⟩
  · rw [he]; exact h.allocate ha hp hr hi

theorem lookupBack_eq (g : TcpNat) (now : Nat) (p : UInt16) :
    g.lookupBack now p = match g.portMap.lookup p with
      | none => (none, g)
      | some s => (some (s.source, s.destination), g.rewrite p { s with last := now }) := rfl

theorem WF.lookupBack {g : TcpNat} (h : g.WF) (now : Nat) (p : UInt16) :
    (g.lookupBack now p).2.WF := by
  rw [lookupBack_eq]
  cases hs : g.portMap.lookup p with
  | none => exact h
  | some s => exact h.rewrite hs rfl

/-! ### The sessions after a call -/

theorem lookupBack_portMap (g : TcpNat) (now : Nat) (p q : UInt16) :
    (g.lookupBack now p).2.portMap.lookup q =
      if q = p then (g.portMap.lookup p).map ({ · with last := now }) else g.portMap.lookup q := by
  rw [lookupBack_eq]
  cases hs : g.portMap.lookup p with
  | none =>
      by_cases hq : q = p
      · rw [if_pos hq, hq]
        exact hs
      · rw [if_neg hq]
  | some s => exact FinMap.lookup_insert_eq ..

/-- A lookup that finds no port leaves the sessions. -/
theorem WF.lookup_none {g : TcpNat} (h : g.WF) {now : Nat} {source destination : SocketAddrV4}
    (hl : (g.lookup now source destination).1 = none) :
    (g.lookup now source destination).2.portMap = g.portMap := by
  rcases lookup_cases h now source destination with
    ⟨p, s, _, _, _, he⟩ | ⟨_, i, _, he⟩ | ⟨_, p, i, _, _, _, he⟩
  · rw [he] at hl
    cases hl
  · rw [he]
  · rw [he] at hl
    cases hl

/-- The port of a lookup has the session that was asked for, and had none of another source. -/
theorem WF.lookup_some {g : TcpNat} (h : g.WF) {now : Nat} {source destination : SocketAddrV4}
    {p : UInt16} (hl : (g.lookup now source destination).1 = some p) :
    (∀ q, (g.lookup now source destination).2.portMap.lookup q =
      if q = p then some ⟨source, destination, now⟩ else g.portMap.lookup q) ∧
    ∀ s, g.portMap.lookup p = some s → s.source = source := by
  rcases lookup_cases h now source destination with
    ⟨p', s, _, hs, hsrc, he⟩ | ⟨_, i, _, he⟩ | ⟨_, p', i, hp, _, _, he⟩
  · rw [he] at hl ⊢
    cases hl
    refine ⟨fun q => FinMap.lookup_insert_eq .., fun s' hs' => ?_⟩
    rw [hs] at hs'
    cases hs'
    exact hsrc
  · rw [he] at hl
    cases hl
  · rw [he] at hl ⊢
    cases hl
    refine ⟨fun q => FinMap.lookup_insert_eq .., fun s' hs' => ?_⟩
    exact absurd (FinMap.mem_of_lookup hs') hp

theorem WF.removePort {g : TcpNat} (h : g.WF) (p : UInt16) : (g.removePort p).WF := by
  simp only [TcpNat.removePort]
  cases hs : g.portMap.lookup p with
  | none => exact h
  | some s =>
      exact ⟨h.inverse.erase hs, fun q hq => h.range q (AList.mem_erase.mp hq).2, h.cursor⟩

theorem removePort_lookup (g : TcpNat) (p q : UInt16) :
    (g.removePort p).portMap.lookup q = if q = p then none else g.portMap.lookup q := by
  simp only [removePort]
  cases hs : g.portMap.lookup p with
  | none =>
      by_cases hq : q = p
      · subst hq; simpa using hs
      · simp [hq]
  | some s => exact FinMap.lookup_erase_eq _ _ _

theorem removePorts_lookup (ps : List UInt16) : ∀ (g : TcpNat) (q : UInt16),
    (ps.foldl removePort g).portMap.lookup q = if q ∈ ps then none else g.portMap.lookup q := by
  induction ps with
  | nil => intro g q; simp
  | cons p ps ih =>
      intro g q
      rw [List.foldl_cons, ih, removePort_lookup]
      by_cases hq : q ∈ ps
      · simp [hq]
      · by_cases hp : q = p <;> simp [hq, hp]

theorem WF.sweep {g : TcpNat} (h : g.WF) (now : Nat) : (g.sweep now).WF :=
  foldl_invariant (fun _ p hg => hg.removePort p) h _

theorem mem_deadPorts {g : TcpNat} {now : Nat} {p : UInt16} :
    p ∈ g.deadPorts now ↔ ∃ s, g.portMap.lookup p = some s ∧ g.Expired now s := by
  simp only [deadPorts]
  constructor
  · intro hp
    obtain ⟨e, he, rfl⟩ := List.mem_map.mp hp
    obtain ⟨hmem, hdead⟩ := List.mem_filter.mp he
    exact ⟨e.2, FinMap.lookup_of_mem_entries hmem, of_decide_eq_true hdead⟩
  · rintro ⟨s, hs, hdead⟩
    exact List.mem_map.mpr ⟨⟨p, s⟩, List.mem_filter.mpr
      ⟨FinMap.mem_entries_of_lookup hs, decide_eq_true hdead⟩, rfl⟩

/-- `sweep` removes exactly the sessions that expired. -/
theorem sweep_lookup (g : TcpNat) (now : Nat) (p : UInt16) (s : TcpSession) :
    (g.sweep now).portMap.lookup p = some s ↔
      g.portMap.lookup p = some s ∧ ¬ g.Expired now s := by
  rw [sweep, removePorts_lookup]
  by_cases hp : p ∈ g.deadPorts now
  · obtain ⟨s', hs', hdead⟩ := mem_deadPorts.mp hp
    rw [if_pos hp, hs']
    constructor
    · intro hn; cases hn
    · rintro ⟨hss, hlive⟩
      cases hss
      exact absurd hdead hlive
  · rw [if_neg hp]
    exact ⟨fun hs => ⟨hs, fun hdead => hp (mem_deadPorts.mpr ⟨s, hs, hdead⟩)⟩, And.left⟩

/-- The addresses `sweep` keeps are those whose session did not expire. -/
theorem WF.sweep_addr {g : TcpNat} (h : g.WF) (now : Nat) (source : SocketAddrV4) (p : UInt16) :
    (g.sweep now).addrMap.lookup source = some p ↔
      g.addrMap.lookup source = some p ∧
        ∀ s, g.portMap.lookup p = some s → ¬ g.Expired now s := by
  rw [(h.sweep now).inverse, h.inverse]
  constructor
  · rintro ⟨s, hs, hsrc⟩
    obtain ⟨hg, hlive⟩ := (sweep_lookup g now p s).mp hs
    refine ⟨⟨s, hg, hsrc⟩, fun s' hs' => ?_⟩
    rw [hg] at hs'
    cases hs'
    exact hlive
  · rintro ⟨⟨s, hs, hsrc⟩, hlive⟩
    exact ⟨s, (sweep_lookup g now p s).mpr ⟨hs, hlive s hs⟩, hsrc⟩

/-! ## Runs of calls -/

/-- A call on the table, with the clock reading it takes. -/
inductive Call where
  | lookup (now : Nat) (source destination : SocketAddrV4)
  | lookupBack (now : Nat) (port : UInt16)
  | sweep (now : Nat)

def perform (g : TcpNat) : Call → TcpNat
  | .lookup now source destination => (g.lookup now source destination).2
  | .lookupBack now port => (g.lookupBack now port).2
  | .sweep now => g.sweep now

theorem WF.perform {g : TcpNat} (h : g.WF) (c : Call) : (g.perform c).WF := by
  cases c with
  | lookup now source destination => exact h.lookup now source destination
  | lookupBack now port => exact h.lookupBack now port
  | sweep now => exact h.sweep now

/-- What the callers saw: the source each port was allocated to, and the
destination each source looked up last. -/
structure History where
  allocated : UInt16 → Option SocketAddrV4
  latest : SocketAddrV4 → Option SocketAddrV4

def History.empty : History := ⟨fun _ => none, fun _ => none⟩

/-- The record after a call on `g`.  A port is allocated when a source without
one is given it. -/
def History.record (hist : History) (g : TcpNat) : Call → History
  | .lookup now source destination =>
      { allocated := match g.addrMap.lookup source, (g.lookup now source destination).1 with
          | none, some p => Function.update hist.allocated p (some source)
          | _, _ => hist.allocated
        latest := Function.update hist.latest source (some destination) }
  | _ => hist

/-- A call on a table whose callers keep a record. -/
def recordedStep (st : TcpNat × History) (c : Call) : TcpNat × History :=
  (st.1.perform c, st.2.record st.1 c)

/-- Every session is of the source its port was allocated to and has the
destination that source looked up last. -/
def Recorded (g : TcpNat) (hist : History) : Prop :=
  ∀ p s, g.portMap.lookup p = some s →
    hist.allocated p = some s.source ∧ hist.latest s.source = some s.destination

theorem Recorded.lookup {g : TcpNat} {hist : History} (h : g.WF) (hr : Recorded g hist)
    (now : Nat) (source destination : SocketAddrV4) :
    Recorded (g.lookup now source destination).2
      (hist.record g (.lookup now source destination)) := by
  rcases lookup_cases h now source destination with
    ⟨p, s, ha, hs, hsrc, he⟩ | ⟨ha, i, _, he⟩ | ⟨ha, p, i, hp, _, _, he⟩
  · intro q t ht
    simp only [History.record, ha, he] at ht ⊢
    rw [rewrite, FinMap.lookup_insert_eq] at ht
    by_cases hq : q = p
    · subst hq
      rw [if_pos rfl] at ht
      cases ht
      exact ⟨hsrc ▸ (hr _ s hs).1, Function.update_self ..⟩
    · rw [if_neg hq] at ht
      have hne : t.source ≠ source := fun hts =>
        hq (h.inverse.slot_unique ht hs (hts.trans hsrc.symm))
      rw [Function.update_of_ne hne]
      exact hr q t ht
  · intro q t ht
    simp only [History.record, ha, he] at ht ⊢
    have hne : t.source ≠ source := by
      intro hts
      have := h.inverse.of_bwd ht
      rw [hts, ha] at this
      cases this
    rw [Function.update_of_ne hne]
    exact hr q t ht
  · intro q t ht
    simp only [History.record, ha, he] at ht ⊢
    rw [allocate, FinMap.lookup_insert_eq] at ht
    by_cases hq : q = p
    · subst hq
      rw [if_pos rfl] at ht
      cases ht
      exact ⟨Function.update_self .., Function.update_self ..⟩
    · rw [if_neg hq] at ht
      have hne : t.source ≠ source := by
        intro hts
        have := h.inverse.of_bwd ht
        rw [hts, ha] at this
        cases this
      rw [Function.update_of_ne hq, Function.update_of_ne hne]
      exact hr q t ht

theorem Recorded.lookupBack {g : TcpNat} {hist : History} (hr : Recorded g hist)
    (now : Nat) (p : UInt16) : Recorded (g.lookupBack now p).2 hist := by
  rw [lookupBack_eq]
  cases hs : g.portMap.lookup p with
  | none => exact hr
  | some s =>
      intro q t ht
      simp only [rewrite, FinMap.lookup_insert_eq] at ht
      by_cases hq : q = p
      · subst hq
        rw [if_pos rfl] at ht
        cases ht
        exact hr _ s hs
      · rw [if_neg hq] at ht
        exact hr q t ht

theorem Recorded.step {st : TcpNat × History} (h : st.1.WF) (hr : Recorded st.1 st.2) (c : Call) :
    Recorded (recordedStep st c).1 (recordedStep st c).2 := by
  cases c with
  | lookup now source destination => exact hr.lookup h now source destination
  | lookupBack now port => exact hr.lookupBack now port
  | sweep now =>
      intro p s hs
      exact hr p s ((sweep_lookup st.1 now p s).mp hs).1

/-- The table and the record after a sequence of calls on a new table. -/
def recordedRun (timeout : Nat) (calls : List Call) : TcpNat × History :=
  calls.foldl recordedStep (new timeout, .empty)

theorem recordedRun_inv (timeout : Nat) (calls : List Call) :
    (recordedRun timeout calls).1.WF ∧
      Recorded (recordedRun timeout calls).1 (recordedRun timeout calls).2 := by
  refine foldl_invariant (I := fun st : TcpNat × History => st.1.WF ∧ Recorded st.1 st.2) ?_ ?_
    calls
  · intro st c hst
    exact ⟨hst.1.perform c, hst.2.step hst.1 c⟩
  · exact ⟨WF.new timeout, fun p s hs => by simp [new] at hs⟩

/-- After any sequence of calls at any clock readings the two maps are inverse
to each other, the ports are in range, a sweep removes exactly the expired
sessions from both maps, and looking a port up gives the source it was allocated
to and the destination that source looked up last. -/
theorem table_consistent (timeout : Nat) (calls : List Call) :
    let g := (recordedRun timeout calls).1
    let hist := (recordedRun timeout calls).2
    (∀ source p, g.addrMap.lookup source = some p ↔
      ∃ s, g.portMap.lookup p = some s ∧ s.source = source) ∧
    (∀ source source' p, g.addrMap.lookup source = some p →
      g.addrMap.lookup source' = some p → source = source') ∧
    (∀ p ∈ g.portMap, 10000 ≤ p.toNat ∧ p.toNat ≤ 65535) ∧
    (∀ now p s, (g.sweep now).portMap.lookup p = some s ↔
      g.portMap.lookup p = some s ∧ ¬ g.timeout < now - s.last) ∧
    (∀ now source p, (g.sweep now).addrMap.lookup source = some p ↔
      g.addrMap.lookup source = some p ∧
        ∀ s, g.portMap.lookup p = some s → ¬ g.timeout < now - s.last) ∧
    (∀ now p, (g.lookupBack now p).1 = none ↔ p ∉ g.portMap) ∧
    (∀ now p source destination, (g.lookupBack now p).1 = some (source, destination) →
      hist.allocated p = some source ∧ hist.latest source = some destination) := by
  intro g hist
  obtain ⟨hwf, hrec⟩ := recordedRun_inv timeout calls
  refine ⟨hwf.inverse, ?_, ?_, sweep_lookup g, hwf.sweep_addr, ?_, ?_⟩
  · intro source source' p hs hs'
    obtain ⟨s, hp, rfl⟩ := hwf.session hs
    obtain ⟨s', hp', rfl⟩ := hwf.session hs'
    rw [hp] at hp'
    cases hp'
    rfl
  · intro p hp
    have hlt : p.toNat < 65536 := p.toNat_lt
    exact ⟨hwf.range p hp, by omega⟩
  · intro now p
    rw [lookupBack_eq, ← AList.lookup_eq_none]
    cases g.portMap.lookup p <;> simp
  · intro now p source destination hb
    rw [lookupBack_eq] at hb
    cases hs : g.portMap.lookup p with
    | none => rw [hs] at hb; cases hb
    | some s =>
        rw [hs] at hb
        cases hb
        exact hrec p s hs

end TcpNat

end RustClash
