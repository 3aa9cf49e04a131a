import RustClash.Lib.Loop
import RustClash.Lib.PolledRead

/-!
# Sinks that are written by polling

A sink is written by `write s buf`: `pending`, an error, or the number of items
of `buf` it accepted.  `WriteSpec` names the items a sink has accepted so far.
`drain` writes a staged buffer out over as many polls as it takes, and
`drain_spec` says where it stands afterwards.
-/

universe u v w

variable {σ : Type u} {β : Type v} {ε : Type w}

abbrev WriteFn (σ : Type u) (β : Type v) (ε : Type w) :=
  σ → List β → Poll (Except ε Nat) × σ

/-- The number of items an answer reports. -/
def Poll.count : Poll (Except ε Nat) → Nat
  | .ready (.ok n) => n
  | _ => 0

@[simp] theorem Poll.count_pending : (.pending : Poll (Except ε Nat)).count = 0 := rfl
@[simp] theorem Poll.count_error (e : ε) : (.ready (.error e) : Poll (Except ε Nat)).count = 0 := rfl
@[simp] theorem Poll.count_ok (n : Nat) : (.ready (.ok n) : Poll (Except ε Nat)).count = n := rfl

structure WriteSpec (write : WriteFn σ β ε) where
  /-- The items accepted so far, oldest first. -/
  accepted : σ → List β
  count_le : ∀ s buf, (write s buf).1.count ≤ buf.length
  accepts : ∀ s buf, accepted (write s buf).2 = accepted s ++ buf.take (write s buf).1.count

/-- A sink that answers a write of something with nothing only so often. -/
structure ZeroBound (write : WriteFn σ β ε) where
  zeros : σ → Nat
  le : ∀ s buf, zeros (write s buf).2 ≤ zeros s
  lt : ∀ {s s' buf}, buf ≠ [] → write s buf = (.ready (.ok 0), s') → zeros s' < zeros s

/-- What a write that is answered at all leaves of the bound. -/
theorem ZeroBound.le_of_eq {write : WriteFn σ β ε} (bound : ZeroBound write) {s s' : σ}
    {buf : List β} {a : Poll (Except ε Nat)} (h : write s buf = (a, s')) :
    bound.zeros s' ≤ bound.zeros s := by
  have hle := bound.le s buf
  rwa [h] at hle

/-! ## Draining a staged buffer -/

/-- One pass: what is left of `buf` from `off` on is offered to the sink.  A sink
that accepts nothing fails with `zero`. -/
def drainPass (write : WriteFn σ β ε) (zero : ε) (buf : List β) (off : Nat) (s : σ) :
    (Nat × σ) ⊕ (Poll (Except ε Unit) × Nat × σ) :=
  if off < buf.length then
    match write s (buf.drop off) with
    | (.pending, s) => .inr (.pending, off, s)
    | (.ready (.error e), s) => .inr (.ready (.error e), off, s)
    | (.ready (.ok 0), s) => .inr (.ready (.error zero), off, s)
    | (.ready (.ok (n + 1)), s) => .inl (off + (n + 1), s)
  else .inr (.ready (.ok ()), off, s)

def drainLoop (write : WriteFn σ β ε) (zero : ε) (buf : List β) :
    Loop (Nat × σ) (Poll (Except ε Unit) × Nat × σ) where
  body st := drainPass write zero buf st.1 st.2
  measure st := buf.length - st.1
  decreases := by
    rintro ⟨off, s⟩ st' h
    simp only [drainPass] at h
    split at h
    · next hlt =>
        split at h
        · cases h
        · cases h
        · cases h
        · cases h
          simp only
          omega
    · cases h

/-- Write `buf` out from `off` on. -/
def drain (write : WriteFn σ β ε) (zero : ε) (buf : List β) (off : Nat) (s : σ) :
    Poll (Except ε Unit) × Nat × σ :=
  (drainLoop write zero buf).run (off, s)

/-- What a drain that started at `off` leaves: the items up to the new offset are
with the sink, and the drain is done exactly when the buffer is. -/
structure Drained {write : WriteFn σ β ε} (spec : WriteSpec write) (buf : List β) (off : Nat)
    (s : σ) (r : Poll (Except ε Unit) × Nat × σ) : Prop where
  off_le : off ≤ r.2.1
  off_bound : r.2.1 ≤ buf.length
  accepted : spec.accepted s ++ buf.drop off = spec.accepted r.2.2 ++ buf.drop r.2.1
  done : r.1 = .ready (.ok ()) → r.2.1 = buf.length
  undone : r.1 ≠ .ready (.ok ()) → r.2.1 < buf.length

theorem drain_spec {write : WriteFn σ β ε} (spec : WriteSpec write) (zero : ε) {buf : List β}
    {off : Nat} (hoff : off ≤ buf.length) (s : σ) :
    Drained spec buf off s (drain write zero buf off s) := by
  suffices h : ∀ st : Nat × σ, st.1 ≤ buf.length →
      Drained spec buf st.1 st.2 ((drainLoop write zero buf).run st) from h (off, s) hoff
  intro st
  refine Loop.rule (l := drainLoop write zero buf)
    (P := fun st r => st.1 ≤ buf.length → Drained spec buf st.1 st.2 r) ?_ ?_ st
  · rintro ⟨off, s⟩ st' r hb ih hoff
    change drainPass write zero buf off s = .inl st' at hb
    simp only [drainPass] at hb
    split at hb
    · split at hb
      · cases hb
      · cases hb
      · cases hb
      · next n s' hw =>
          cases hb
          have hle := spec.count_le s (buf.drop off)
          have hacc := spec.accepts s (buf.drop off)
          rw [hw] at hle hacc
          simp only [Poll.count_ok, List.length_drop] at hle hacc
          have h := ih (by dsimp only; omega)
          refine ⟨by have := h.off_le; dsimp only at this ⊢; omega, h.off_bound, ?_, h.done, h.undone⟩
          rw [← h.accepted]
          simp only
          rw [hacc, List.append_assoc, ← List.drop_drop, List.take_append_drop]
    · cases hb
  · rintro ⟨off, s⟩ r hb hoff
    change drainPass write zero buf off s = .inr r at hb
    simp only [drainPass] at hb
    split at hb
    · next hlt =>
        -- A write that accepted nothing: the sink has what it had before.
        have hstay : ∀ {a : Poll (Except ε Unit)} {s' : σ}, a ≠ .ready (.ok ()) →
            spec.accepted s' = spec.accepted s → Drained spec buf off s (a, off, s') :=
          fun ha hacc => ⟨Nat.le_refl _, hoff, by rw [hacc], fun h => absurd h ha, fun _ => hlt⟩
        have hacc := spec.accepts s (buf.drop off)
        split at hb
        · next hw =>
            cases hb
            rw [hw] at hacc
            exact hstay (by simp) (by simpa using hacc)
        · next hw =>
            cases hb
            rw [hw] at hacc
            exact hstay (by simp) (by simpa using hacc)
        · next hw =>
            cases hb
            rw [hw] at hacc
            exact hstay (by simp) (by simpa using hacc)
        · cases hb
    · next hge =>
        cases hb
        exact ⟨Nat.le_refl _, hoff, rfl, fun _ => by dsimp only at *; omega,
          fun h => absurd rfl h⟩

/-- A drain does nothing to its sink but write to it. -/
theorem drain_writes (write : WriteFn σ β ε) (zero : ε) (buf : List β) (off : Nat) (s : σ) :
    ∃ bufs : List (List β),
      (drain write zero buf off s).2.2 = bufs.foldl (fun s b => (write s b).2) s := by
  refine Loop.rule (l := drainLoop write zero buf)
    (P := fun st r => ∃ bufs : List (List β), r.2.2 = bufs.foldl (fun s b => (write s b).2) st.2)
    ?_ ?_ (off, s)
  · rintro ⟨off, s⟩ st' r hb ⟨bufs, hbufs⟩
    change drainPass write zero buf off s = .inl st' at hb
    refine ⟨buf.drop off :: bufs, ?_⟩
    simp only [drainPass] at hb
    split at hb
    · split at hb
      · cases hb
      · cases hb
      · cases hb
      · next hw =>
          cases hb
          rw [hbufs, List.foldl_cons, hw]
    · cases hb
  · rintro ⟨off, s⟩ r hb
    change drainPass write zero buf off s = .inr r at hb
    simp only [drainPass] at hb
    split at hb
    · refine ⟨[buf.drop off], ?_⟩
      split at hb
      · next hw =>
          cases hb
          simp [hw]
      · next hw =>
          cases hb
          simp [hw]
      · next hw =>
          cases hb
          simp [hw]
      · cases hb
    · cases hb
      exact ⟨[], rfl⟩

/-! ## Handing on a buffer that shrinks -/

/-- One pass: the buffer is offered to the sink, and what is accepted is taken off its front.
The end is told by the count of what was written. -/
def handOnPass (write : WriteFn σ β ε) (zero : ε) (total : Nat) (buf : List β) (written : Nat) (s : σ) :
    (List β × Nat × σ) ⊕ (Poll (Except ε Unit) × List β × Nat × σ) :=
  match write s buf with
  | (.pending, s) => .inr (.pending, buf, written, s)
  | (.ready (.error e), s) => .inr (.ready (.error e), buf, written, s)
  | (.ready (.ok 0), s) => .inr (.ready (.error zero), buf, written, s)
  | (.ready (.ok (n + 1)), s) =>
      if total ≤ written + (n + 1) then
        .inr (.ready (.ok ()), buf.drop (n + 1), written + (n + 1), s)
      else .inl (buf.drop (n + 1), written + (n + 1), s)

def handOnLoop (write : WriteFn σ β ε) (zero : ε) (total : Nat) :
    Loop (List β × Nat × σ) (Poll (Except ε Unit) × List β × Nat × σ) where
  body st := handOnPass write zero total st.1 st.2.1 st.2.2
  measure st := total - st.2.1
  decreases := by
    rintro ⟨buf, written, s⟩ st' h
    simp only [handOnPass] at h
    split at h
    · cases h
    · cases h
    · cases h
    · split at h
      · cases h
      · cases h
        simp only
        omega

/-- Write `buf` out, the rest of `total` items of which `written` are written. -/
def handOn (write : WriteFn σ β ε) (zero : ε) (total : Nat) (buf : List β) (written : Nat) (s : σ) :
    Poll (Except ε Unit) × List β × Nat × σ :=
  (handOnLoop write zero total).run (buf, written, s)
