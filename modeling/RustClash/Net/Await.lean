import RustClash.Net.Transport

/-!
# Awaiting a transport

An `async` call polls until it has an answer.  The pending answers of a transport
are in its scripts, so every call returns: `AsyncReadExt::read`,
`AsyncWriteExt::write_all` and `AsyncWriteExt::flush`.
-/

namespace RustClash

/-- Poll until there is an answer: `m` counts the pending answers that are left. -/
def awaitLoop {σ α : Type} (poll : σ → Poll α × σ) (m : σ → Nat)
    (h : ∀ {s s' : σ}, poll s = (.pending, s') → m s' < m s) : Loop σ (α × σ) where
  body s :=
    match poll s with
    | (.pending, s') => .inl s'
    | (.ready a, s') => .inr (a, s')
  measure := m
  decreases := by
    intro s s' hb
    split at hb
    · next hp =>
      cases hb
      exact h hp
    · cases hb

theorem awaitLoop_ready {σ α : Type} {poll : σ → Poll α × σ} {m : σ → Nat}
    {h : ∀ {s s' : σ}, poll s = (.pending, s') → m s' < m s} {s s' : σ} {a : α}
    (hp : poll s = (.ready a, s')) : (awaitLoop poll m h).run s = (a, s') := by
  refine Loop.run_inr ?_
  simp only [awaitLoop]
  rw [hp]

/-- What every answer establishes, and every pending answer hands back, is so of the call. -/
theorem awaitLoop_rule {σ α : Type} {poll : σ → Poll α × σ} {m : σ → Nat}
    {h : ∀ {s s' : σ}, poll s = (.pending, s') → m s' < m s} {P : σ → α × σ → Prop}
    (hpending : ∀ s s' r, poll s = (.pending, s') → P s' r → P s r)
    (hready : ∀ s a s', poll s = (.ready a, s') → P s (a, s')) (s : σ) :
    P s ((awaitLoop poll m h).run s) := by
  refine Loop.rule (l := awaitLoop poll m h) ?_ ?_ s
  · intro s s' r hb hr
    simp only [awaitLoop] at hb
    split at hb
    · next hp =>
      cases hb
      exact hpending s _ r hp hr
    · cases hb
  · intro s r hb
    simp only [awaitLoop] at hb
    split at hb
    · cases hb
    · next hp =>
      cases hb
      exact hready s _ _ hp

namespace Transport

/-! ## Reading -/

theorem pollRead_stalls {cap : Nat} {t t' : Transport} (h : pollRead t cap = (.pending, t')) :
    RustClash.stalls t'.reads < RustClash.stalls t.reads := by
  have hp := t.pollRead_polled cap
  rw [h] at hp
  cases hp with
  | pending reads hreads =>
    rw [hreads]
    exact Nat.lt_succ_self _

/-- `AsyncReadExt::read`. -/
def read (t : Transport) (cap : Nat) : IoResult (Filled UInt8 cap) × Transport :=
  (awaitLoop (fun t : Transport => pollRead t cap) (fun t => RustClash.stalls t.reads)
    pollRead_stalls).run t

/-- What a read with room in its buffer answers, and what it leaves. -/
inductive Read (t : Transport) (cap : Nat) : IoResult (Filled UInt8 cap) × Transport → Prop
| data {d : Filled UInt8 cap} {t' : Transport} :
  d.items ≠ [] ->
  unread t.reads = d.items ++ unread t'.reads ->
  t'.readEnd = t.readEnd ->
  Read t cap (.ok d, t')
| eof {d : Filled UInt8 cap} {t' : Transport} :
  d.items = [] ->
  unread t.reads = [] ->
  t.readEnd = .eof ->
  Read t cap (.ok d, t')
| error {e : IoError} {t' : Transport} :
  unread t.reads = [] ->
  t.readEnd = .error e ->
  Read t cap (.error e, t')

theorem read_spec {cap : Nat} (hcap : 0 < cap) (t : Transport) : Read t cap (t.read cap) := by
  refine awaitLoop_rule (P := fun t r => Read t cap r) ?_ ?_ t
  · intro t t' r hp hr
    have h := t.pollRead_polled cap
    rw [hp] at h
    cases h with
    | pending reads hreads =>
      have hunread : unread t.reads = unread reads := by rw [hreads]; rfl
      cases hr with
      | data hd hitems hend => exact .data hd (hunread.trans hitems) hend
      | eof hd hitems hend => exact .eof hd (hunread.trans hitems) hend
      | error hitems hend => exact .error (hunread.trans hitems) hend
  · intro t a t' hp
    have h := t.pollRead_polled cap
    rw [hp] at h
    cases h with
    | error e hreads hend => exact .error (by rw [hreads]; rfl) hend
    | eof hreads hend => exact .eof rfl (by rw [hreads]; rfl) hend
    | data l reads hl hreads =>
      refine .data ?_ ?_ rfl
      · obtain ⟨n, rfl⟩ := Nat.exists_eq_succ_of_ne_zero (Nat.ne_of_gt hcap)
        obtain ⟨b, bs, rfl⟩ := List.exists_cons_of_ne_nil hl
        exact List.cons_ne_nil _ _
      · rw [hreads, unread_arrive, unread_arrive, ← List.append_assoc, Filled.fill_items,
          List.take_append_drop]

/-- A read writes nothing. -/
theorem read_written (cap : Nat) (t : Transport) :
    (t.read cap).2.written = t.written ∧ (t.read cap).2.writes = t.writes := by
  refine awaitLoop_rule (P := fun (t : Transport) (r : IoResult (Filled UInt8 cap) × Transport) =>
    r.2.written = t.written ∧ r.2.writes = t.writes) ?_ ?_ t
  · intro t t' r hp hr
    have h := t.pollRead_polled cap
    rw [hp] at h
    cases h with
    | pending reads hreads => exact hr
  · intro t a t' hp
    have h := t.pollRead_polled cap
    rw [hp] at h
    cases h with
    | error e hreads hend => exact ⟨rfl, rfl⟩
    | eof hreads hend => exact ⟨rfl, rfl⟩
    | data l reads hl hreads => exact ⟨rfl, rfl⟩

/-! ## Writing -/

/-- `t'` is `t` after writes, of which it took `sent`. -/
structure Wrote (t t' : Transport) (sent : Bytes) : Prop where
  written : t'.written = t.written ++ sent
  reads : t'.reads = t.reads
  readEnd : t'.readEnd = t.readEnd

theorem pollWrite_reads (t : Transport) (buf : Bytes) :
    (pollWrite t buf).2.reads = t.reads ∧ (pollWrite t buf).2.readEnd = t.readEnd := by
  simp only [pollWrite]
  split <;> exact ⟨rfl, rfl⟩

theorem pollWrite_writes (t : Transport) (buf : Bytes) :
    (pollWrite t buf).2.writes.length ≤ t.writes.length ∧
      ((pollWrite t buf).1 = .pending → (pollWrite t buf).2.writes.length < t.writes.length) := by
  simp only [pollWrite]
  split
  · exact ⟨Nat.le_refl _, fun h => by cases h⟩
  · next h => exact ⟨by simp [h], fun _ => by simp [h]⟩
  · next h => exact ⟨by simp [h], fun h => by cases h⟩
  · next h => exact ⟨by simp [h], fun h => by cases h⟩

theorem drain_reads (zero : IoError) (buf : Bytes) (off : Nat) (t : Transport) :
    (drain pollWrite zero buf off t).2.2.reads = t.reads ∧
      (drain pollWrite zero buf off t).2.2.readEnd = t.readEnd := by
  obtain ⟨bufs, hbufs⟩ := drain_writes pollWrite zero buf off t
  rw [hbufs]
  clear hbufs
  induction bufs generalizing t with
  | nil => exact ⟨rfl, rfl⟩
  | cons b bufs ih =>
    obtain ⟨hreads, hend⟩ := t.pollWrite_reads b
    obtain ⟨ihreads, ihend⟩ := ih (pollWrite t b).2
    exact ⟨ihreads.trans hreads, ihend.trans hend⟩

/-- A drain that has to wait has used up an answer of the script. -/
theorem drain_pending {zero : IoError} {buf : Bytes} {st st' : Nat × Transport}
    (h : drain pollWrite zero buf st.1 st.2 = (.pending, st')) :
    st'.2.writes.length < st.2.writes.length := by
  have hrun : ∀ st r, (drainLoop (pollWrite (σ := Transport)) zero buf).run st = r →
      r.1 = .pending → r.2.2.writes.length < st.2.writes.length := by
    rintro st r rfl
    refine Loop.rule (l := drainLoop pollWrite zero buf)
      (P := fun st r => r.1 = .pending → r.2.2.writes.length < st.2.writes.length) ?_ ?_ st
    · rintro ⟨off, t⟩ st' r hb ih hr
      change drainPass pollWrite zero buf off t = .inl st' at hb
      simp only [drainPass] at hb
      split at hb
      · split at hb
        · cases hb
        · cases hb
        · cases hb
        · next hw =>
          cases hb
          have hle := (t.pollWrite_writes (buf.drop off)).1
          rw [hw] at hle
          exact Nat.lt_of_lt_of_le (ih hr) hle
      · cases hb
    · rintro ⟨off, t⟩ r hb hr
      change drainPass pollWrite zero buf off t = .inr r at hb
      simp only [drainPass] at hb
      split at hb
      · split at hb
        · next hw =>
          cases hb
          have hlt := (t.pollWrite_writes (buf.drop off)).2
          rw [hw] at hlt
          exact hlt rfl
        · cases hb
          cases hr
        · cases hb
          cases hr
        · cases hb
      · cases hb
        cases hr
  exact hrun st (.pending, st') h rfl

def writeAllZero : IoError := ⟨.writeZero, "write zero"⟩

def writeAllLoop (buf : Bytes) : Loop (Nat × Transport) (IoResult Unit × Nat × Transport) :=
  awaitLoop (fun st => drain pollWrite writeAllZero buf st.1 st.2) (fun st => st.2.writes.length)
    drain_pending

/-- `AsyncWriteExt::write_all`. -/
def writeAll (t : Transport) (buf : Bytes) : IoResult Unit × Transport :=
  let (r, _, t) := (writeAllLoop buf).run (0, t)
  (r, t)

theorem pollFlush_writes {t t' : Transport} (h : pollFlush t = (.pending, t')) :
    t'.writes.length < t.writes.length := by
  simp only [pollFlush] at h
  split at h
  · next hw =>
    cases h
    rw [hw]
    exact Nat.lt_succ_self _
  · cases h
  · cases h

/-- `AsyncWriteExt::flush`. -/
def flush (t : Transport) : IoResult Unit × Transport :=
  (awaitLoop (fun t : Transport => pollFlush t) (fun t => t.writes.length) pollFlush_writes).run t

/-- Where a `write_all` stands after it started at `st`. -/
structure WroteFrom (buf : Bytes) (st : Nat × Transport) (r : IoResult Unit × Nat × Transport) :
    Prop where
  bound : r.2.1 ≤ buf.length
  accepted : st.2.written ++ buf.drop st.1 = r.2.2.written ++ buf.drop r.2.1
  reads : r.2.2.reads = st.2.reads
  readEnd : r.2.2.readEnd = st.2.readEnd
  done : r.1 = .ok () → r.2.1 = buf.length

theorem writeAllLoop_spec (buf : Bytes) {st : Nat × Transport} (hoff : st.1 ≤ buf.length) :
    WroteFrom buf st ((writeAllLoop buf).run st) := by
  refine awaitLoop_rule (P := fun (st : Nat × Transport) r => st.1 ≤ buf.length →
    WroteFrom buf st r) ?_ ?_ st hoff
  · intro st st' r hp ih hoff
    have hd := drain_spec WriteLaw.spec writeAllZero hoff st.2
    have hr := drain_reads writeAllZero buf st.1 st.2
    rw [hp] at hd hr
    have h := ih hd.off_bound
    exact ⟨h.bound, hd.accepted.trans h.accepted, h.reads.trans hr.1, h.readEnd.trans hr.2, h.done⟩
  · intro st a st' hp hoff
    have hd := drain_spec WriteLaw.spec writeAllZero hoff st.2
    have hr := drain_reads writeAllZero buf st.1 st.2
    rw [hp] at hd hr
    exact ⟨hd.off_bound, hd.accepted, hr.1, hr.2, fun ha => hd.done (congrArg Poll.ready ha)⟩

/-- A beginning of the buffer is written, and all of it if the call succeeds. -/
theorem writeAll_spec (t : Transport) (buf : Bytes) :
    ∃ sent, sent <+: buf ∧ Wrote t (t.writeAll buf).2 sent ∧
      ((t.writeAll buf).1 = .ok () → sent = buf) := by
  simp only [writeAll]
  have h := @writeAllLoop_spec buf (0, t) (Nat.zero_le _)
  generalize (writeAllLoop buf).run (0, t) = r at h
  have hsent : r.2.2.written = t.written ++ buf.take r.2.1 := by
    refine List.append_cancel_right (h.accepted.symm.trans ?_)
    rw [List.append_assoc, List.take_append_drop]
    rfl
  refine ⟨_, List.take_prefix _ _, ⟨hsent, h.reads, h.readEnd⟩, fun hr => ?_⟩
  rw [h.done hr, List.take_length]

theorem flush_spec (t : Transport) : Wrote t t.flush.2 [] := by
  refine awaitLoop_rule (P := fun t r => Wrote t r.2 []) ?_ ?_ t
  · intro t t' r hp hr
    simp only [pollFlush] at hp
    split at hp
    · cases hp
      exact ⟨hr.written, hr.reads, hr.readEnd⟩
    · cases hp
    · cases hp
  · intro t a t' hp
    simp only [pollFlush] at hp
    split at hp
    · cases hp
    · cases hp
      exact ⟨(List.append_nil _).symm, rfl, rfl⟩
    · cases hp
      exact ⟨(List.append_nil _).symm, rfl, rfl⟩

end Transport

end RustClash
