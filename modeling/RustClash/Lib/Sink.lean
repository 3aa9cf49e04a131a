import RustClash.Lib.Lts
import RustClash.Lib.PolledWrite

/-!
# Sinks whose writes are resumed

A sink may take items in and answer `pending`, or fail: its caller presents the
same items again, and the sink goes on from where it stood.  A `SinkSpec` keeps
the account: the pieces that were reported, one for each answer, and the items
that are to be presented again.

`Holding` is how a layer stands above a sink while it hands a staged buffer on:
what the sink has reported and what is left of the buffer make up the items that
the layer is to hand on.  `Holding.drain` is the rule for `drain`.

`Calls` are the runs of a sink and its caller, and `Calls.reports` carries the
account over all of them.
-/

universe u v w

variable {σ : Type u} {β : Type v} {ε : Type w}

abbrev FlushFn (σ : Type u) (ε : Type w) := σ → Poll (Except ε Unit) × σ

/-- The pieces that were reported and one more, unless there is nothing in it. -/
def report (pieces : List (List β)) (piece : List β) : List (List β) :=
  pieces ++ [piece].filter (!·.isEmpty)

@[simp] theorem flatten_report (pieces : List (List β)) (piece : List β) :
    (report pieces piece).flatten = pieces.flatten ++ piece := by
  cases piece <;> simp [report]

theorem report_nil (pieces : List (List β)) : report pieces [] = pieces := by simp [report]

theorem report_of_ne (pieces : List (List β)) {piece : List β} (h : piece ≠ []) :
    report pieces piece = pieces ++ [piece] := by
  simp [report, h]

/-- Where an answer to a write of `buf` leaves a sink. -/
inductive Answered (Reports : σ → Option (List β) → List (List β) → Prop)
    (pieces : List (List β)) (buf : List β) : Poll (Except ε Nat) × σ → Prop where
  | count (n : Nat) (s : σ) :
      n ≤ buf.length → Reports s none (report pieces (buf.take n)) →
      Answered Reports pieces buf (.ready (.ok n), s)
  | error (e : ε) (s : σ) :
      Reports s (some buf) pieces → Answered Reports pieces buf (.ready (.error e), s)
  | pending (s : σ) :
      Reports s (some buf) pieces → Answered Reports pieces buf (.pending, s)

theorem Answered.mono {Reports Reports' : σ → Option (List β) → List (List β) → Prop}
    {pieces : List (List β)} {buf : List β} {r : Poll (Except ε Nat) × σ}
    (h : ∀ {s out pieces}, Reports s out pieces → Reports' s out pieces)
    (hr : Answered Reports pieces buf r) : Answered Reports' pieces buf r := by
  cases hr with
  | count n s hn hs => exact .count n s hn (h hs)
  | error e s hs => exact .error e s (h hs)
  | pending s hs => exact .pending s (h hs)

/-- `Reports s out pieces`: the sink has reported `pieces`, and `out` is to be presented
again. -/
structure SinkSpec (write : WriteFn σ β ε) (flush : FlushFn σ ε) where
  Reports : σ → Option (List β) → List (List β) → Prop
  write : ∀ {s out pieces buf}, Reports s out pieces → buf ≠ [] → (∀ b, out = some b → buf = b) →
    Answered Reports pieces buf (write s buf)
  flush : ∀ {s out pieces}, Reports s out pieces → Reports (flush s).2 out pieces

variable {write : WriteFn σ β ε} {flush : FlushFn σ ε}

/-- A sink that knows what it has accepted, `base` before anything was reported. -/
def WriteSpec.sink (spec : WriteSpec write) (hflush : ∀ s, spec.accepted (flush s).2 = spec.accepted s)
    (base : List β) : SinkSpec write flush where
  Reports s _ pieces := spec.accepted s = base ++ pieces.flatten
  write := by
    intro s out pieces buf h _ _
    have hle := spec.count_le s buf
    have hacc := spec.accepts s buf
    rw [h] at hacc
    generalize write s buf = r at hle hacc
    rcases r with ⟨_ | e | n, s'⟩
    · exact .pending _ (by simpa using hacc)
    · exact .error _ _ (by simpa using hacc)
    · exact .count n _ hle (by rw [flatten_report, ← List.append_assoc]; exact hacc)
  flush h := (hflush _).trans h

namespace SinkSpec

variable (spec : SinkSpec write flush)

/-! ## Handing a buffer on -/

/-- The sink has reported the items of `items` that come before `rest`, and nothing else
than `rest` is to be presented again. -/
def Holding (rest : List β) (s : σ) (items : List β) : Prop :=
  ∃ pieces out, spec.Reports s out pieces ∧ pieces.flatten ++ rest = items ∧
    ∀ b, out = some b → b = rest ∧ b ≠ []

variable {spec} {s s' : σ} {rest items buf : List β} {off : Nat}

theorem Holding.start {pieces : List (List β)} (h : spec.Reports s none pieces) (rest : List β) :
    spec.Holding rest s (pieces.flatten ++ rest) := ⟨pieces, none, h, rfl, by simp⟩

theorem Holding.done (h : spec.Holding [] s items) :
    ∃ pieces, spec.Reports s none pieces ∧ pieces.flatten = items := by
  obtain ⟨pieces, out, hr, hitems, hout⟩ := h
  cases out with
  | none => exact ⟨pieces, hr, by rwa [List.append_nil] at hitems⟩
  | some b => exact absurd (hout b rfl).1 (hout b rfl).2

/-- More may be handed on behind what is done. -/
theorem Holding.restart (h : spec.Holding [] s items) (rest : List β) :
    spec.Holding rest s (items ++ rest) := by
  obtain ⟨pieces, hr, rfl⟩ := h.done
  exact .start hr rest

theorem Holding.flushed (h : spec.Holding rest s items) : spec.Holding rest (flush s).2 items := by
  obtain ⟨pieces, out, hr, hitems, hout⟩ := h
  exact ⟨pieces, out, spec.flush hr, hitems, hout⟩

/-- What a sink that knows what it has accepted is still to be given. -/
theorem Holding.accepted {spec : WriteSpec write}
    {hflush : ∀ s, spec.accepted (flush s).2 = spec.accepted s} {base : List β}
    (h : (spec.sink hflush base).Holding rest s items) : spec.accepted s ++ rest = base ++ items := by
  obtain ⟨pieces, out, hr, rfl, -⟩ := h
  rw [show spec.accepted s = base ++ pieces.flatten from hr, List.append_assoc]

/-- Where an answer to a write of `rest` leaves a layer that holds it. -/
inductive HoldingAnswer (spec : SinkSpec write flush) (rest items : List β) :
    Poll (Except ε Nat) × σ → Prop where
  | count (n : Nat) (s : σ) :
      n ≤ rest.length → spec.Holding (rest.drop n) s items →
      HoldingAnswer spec rest items (.ready (.ok n), s)
  | error (e : ε) (s : σ) :
      spec.Holding rest s items → HoldingAnswer spec rest items (.ready (.error e), s)
  | pending (s : σ) :
      spec.Holding rest s items → HoldingAnswer spec rest items (.pending, s)

theorem Holding.written (h : spec.Holding rest s items) (hne : rest ≠ []) :
    HoldingAnswer spec rest items (write s rest) := by
  obtain ⟨pieces, out, hr, hitems, hout⟩ := h
  have hans := spec.write hr hne (fun b hb => (hout b hb).1.symm)
  have hagain : ∀ b, some rest = some b → b = rest ∧ b ≠ [] := by
    intro b hb
    cases hb
    exact ⟨rfl, hne⟩
  generalize write s rest = r at hans
  cases hans with
  | count n s' hn hr' =>
      refine .count n s' hn ⟨_, none, hr', ?_, by simp⟩
      rw [flatten_report, List.append_assoc, List.take_append_drop, hitems]
  | error e s' hr' => exact .error e s' ⟨pieces, some rest, hr', hitems, hagain⟩
  | pending s' hr' => exact .pending s' ⟨pieces, some rest, hr', hitems, hagain⟩

/-- What a drain that started at `off` leaves: it is done exactly when the buffer is. -/
structure Drains (spec : SinkSpec write flush) (buf items : List β) (off : Nat)
    (r : Poll (Except ε Unit) × Nat × σ) : Prop where
  off_le : off ≤ r.2.1
  off_bound : r.2.1 ≤ buf.length
  held : spec.Holding (buf.drop r.2.1) r.2.2 items
  done : r.1 = .ready (.ok ()) → r.2.1 = buf.length

theorem Holding.drain (h : spec.Holding (buf.drop off) s items) (hoff : off ≤ buf.length)
    (zero : ε) : Drains spec buf items off (drain write zero buf off s) := by
  suffices hall : ∀ st : Nat × σ, st.1 ≤ buf.length → spec.Holding (buf.drop st.1) st.2 items →
      Drains spec buf items st.1 ((drainLoop write zero buf).run st) from hall (off, s) hoff h
  intro st
  refine Loop.rule (l := drainLoop write zero buf) (P := fun st r => st.1 ≤ buf.length →
    spec.Holding (buf.drop st.1) st.2 items → Drains spec buf items st.1 r) ?_ ?_ st
  · rintro ⟨off, s⟩ st' r hb ih hoff h
    change drainPass write zero buf off s = .inl st' at hb
    simp only [drainPass] at hb
    split at hb
    · next hlt =>
        have hans := h.written (by rw [← List.length_pos_iff, List.length_drop]; exact Nat.sub_pos_of_lt hlt)
        dsimp only at hans
        split at hb
        · cases hb
        · cases hb
        · cases hb
        · next n s' hw =>
            cases hb
            rw [hw] at hans
            cases hans with
            | count _ _ hn hheld =>
                rw [List.length_drop] at hn
                rw [List.drop_drop] at hheld
                have hdrain := ih (by dsimp only; omega) hheld
                exact ⟨Nat.le_trans (Nat.le_add_right _ _) hdrain.off_le, hdrain.off_bound,
                  hdrain.held, hdrain.done⟩
    · cases hb
  · rintro ⟨off, s⟩ r hb hoff h
    change drainPass write zero buf off s = .inr r at hb
    simp only [drainPass] at hb
    split at hb
    · next hlt =>
        have hans := h.written (by rw [← List.length_pos_iff, List.length_drop]; exact Nat.sub_pos_of_lt hlt)
        dsimp only at hans
        split at hb
        · next s' hw =>
            cases hb
            rw [hw] at hans
            cases hans with
            | pending _ hheld => exact ⟨Nat.le_refl _, hoff, hheld, fun hdone => by cases hdone⟩
        · next e s' hw =>
            cases hb
            rw [hw] at hans
            cases hans with
            | error _ _ hheld => exact ⟨Nat.le_refl _, hoff, hheld, fun hdone => by cases hdone⟩
        · next s' hw =>
            cases hb
            rw [hw] at hans
            cases hans with
            | count _ _ _ hheld => exact ⟨Nat.le_refl _, hoff, hheld, fun hdone => by cases hdone⟩
        · cases hb
    · next hge =>
        cases hb
        exact ⟨Nat.le_refl _, hoff, h, fun _ => Nat.le_antisymm hoff (Nat.not_lt.mp hge)⟩

/-- What handing on a buffer leaves: it is done exactly when the buffer is. -/
structure HandsOn (spec : SinkSpec write flush) (items : List β) (total : Nat)
    (r : Poll (Except ε Unit) × List β × Nat × σ) : Prop where
  held : spec.Holding r.2.1 r.2.2.2 items
  count : r.2.2.1 + r.2.1.length = total
  done : r.1 = .ready (.ok ()) → r.2.1 = []
  undone : r.1 ≠ .ready (.ok ()) → r.2.1 ≠ []

theorem Holding.handOn {total written : Nat} (h : spec.Holding buf s items) (hne : buf ≠ [])
    (hcount : written + buf.length = total) (zero : ε) :
    HandsOn spec items total (handOn write zero total buf written s) := by
  suffices hall : ∀ st : List β × Nat × σ, spec.Holding st.1 st.2.2 items → st.1 ≠ [] →
      st.2.1 + st.1.length = total →
      HandsOn spec items total ((handOnLoop write zero total).run st) from
    hall (buf, written, s) h hne hcount
  intro st
  refine Loop.rule (l := handOnLoop write zero total) (P := fun st r =>
    spec.Holding st.1 st.2.2 items → st.1 ≠ [] → st.2.1 + st.1.length = total →
    HandsOn spec items total r) ?_ ?_ st
  · rintro ⟨buf, written, s⟩ st' r hb ih h hne hcount
    change handOnPass write zero total buf written s = .inl st' at hb
    have hans := h.written hne
    dsimp only at hans hne hcount
    simp only [handOnPass] at hb
    split at hb
    · cases hb
    · cases hb
    · cases hb
    · next n s' hw =>
        rw [hw] at hans
        split at hb
        · cases hb
        · next hlt =>
            cases hb
            cases hans with
            | count _ _ hn hheld =>
                refine ih hheld ?_ ?_
                · rw [← List.length_pos_iff, List.length_drop]
                  omega
                · simp only [List.length_drop]
                  omega
  · rintro ⟨buf, written, s⟩ r hb h hne hcount
    change handOnPass write zero total buf written s = .inr r at hb
    have hans := h.written hne
    dsimp only at hans hne hcount
    simp only [handOnPass] at hb
    split at hb
    · next s' hw =>
        rw [hw] at hans
        cases hb
        cases hans with
        | pending _ hheld => exact ⟨hheld, hcount, (fun hdone => by cases hdone), fun _ => hne⟩
    · next e s' hw =>
        rw [hw] at hans
        cases hb
        cases hans with
        | error _ _ hheld => exact ⟨hheld, hcount, (fun hdone => by cases hdone), fun _ => hne⟩
    · next s' hw =>
        rw [hw] at hans
        cases hb
        cases hans with
        | count _ _ _ hheld => exact ⟨hheld, hcount, (fun hdone => by cases hdone), fun _ => hne⟩
    · next n s' hw =>
        rw [hw] at hans
        split at hb
        · next hge =>
            cases hb
            cases hans with
            | count _ _ hn hheld =>
                have hnil : buf.drop (n + 1) = [] := by
                  rw [List.drop_eq_nil_iff]
                  omega
                refine ⟨hheld, ?_, fun _ => hnil, fun hundone => absurd rfl hundone⟩
                simp only [List.length_drop]
                omega
        · cases hb

end SinkSpec

/-! ## A sink and its caller -/

/-- A sink, the pieces it reported to its caller, and the items that were not reported yet. -/
structure Caller (σ : Type u) (β : Type v) where
  sink : σ
  pieces : List (List β)
  outstanding : Option (List β)

namespace Caller

/-- A caller that has written nothing yet. -/
def start (s : σ) : Caller σ β := ⟨s, [], none⟩

def answered (c : Caller σ β) (buf : List β) : Poll (Except ε Nat) × σ → Caller σ β
  | (.ready (.ok n), s) => ⟨s, report c.pieces (buf.take n), none⟩
  | (_, s) => { c with sink := s, outstanding := some buf }

/-- Only the buffer that was written is to be presented again. -/
theorem again {c : Caller σ β} {buf b : List β} {r : Poll (Except ε Nat) × σ}
    (h : (c.answered buf r).outstanding = some b) : buf = b := by
  rcases r with ⟨_ | e | n, s⟩
  · exact Option.some.inj h
  · exact Option.some.inj h
  · cases h

end Caller

inductive SinkCall (β : Type v) where
  | write (buf : List β)
  | flush

/-- A write that is not empty, and that is the last one again if this was not reported;
flushes may come at any time. -/
inductive Calls (write : WriteFn σ β ε) (flush : FlushFn σ ε) :
    Caller σ β → SinkCall β → Caller σ β → Prop where
  | write (c : Caller σ β) (buf : List β) :
      buf ≠ [] → (∀ b, c.outstanding = some b → buf = b) →
      Calls write flush c (.write buf) (c.answered buf (write c.sink buf))
  | flush (c : Caller σ β) :
      Calls write flush c .flush { c with sink := (flush c.sink).2 }

/-- The account of one call. -/
theorem Calls.reports (spec : SinkSpec write flush) {c c' : Caller σ β} {call : SinkCall β}
    (h : Calls write flush c call c') (hr : spec.Reports c.sink c.outstanding c.pieces) :
    spec.Reports c'.sink c'.outstanding c'.pieces := by
  cases h with
  | write buf hne hagain =>
      have hans := spec.write hr hne hagain
      generalize write c.sink buf = r at hans
      cases hans with
      | count n s hn hr' => exact hr'
      | error e s hr' => exact hr'
      | pending s hr' => exact hr'
  | flush => exact spec.flush hr

/-- The account of a run. -/
theorem SinkSpec.reports_run (spec : SinkSpec write flush) {c c' : Caller σ β}
    {calls : List (SinkCall β)} (h : Run (Calls write flush) c calls c')
    (hr : spec.Reports c.sink c.outstanding c.pieces) :
    spec.Reports c'.sink c'.outstanding c'.pieces :=
  h.invariant (I := fun c : Caller σ β => spec.Reports c.sink c.outstanding c.pieces)
    (fun hr hstep => hstep.reports spec hr) hr

/-! ## Sinks that begin with their first write -/

/-- The buffer of the first write. -/
def firstWrite : List (SinkCall β) → Option (List β)
  | [] => none
  | .write buf :: _ => some buf
  | .flush :: calls => firstWrite calls

theorem firstWrite_append (calls calls' : List (SinkCall β)) :
    firstWrite (calls ++ calls') = (firstWrite calls).or (firstWrite calls') := by
  induction calls with
  | nil => rfl
  | cons call calls ih =>
    cases call with
    | write buf => rfl
    | flush => exact ih

/-- A sink that is `Fresh` before its first write, and that this write settles. -/
structure Opening (write : WriteFn σ β ε) (flush : FlushFn σ ε) where
  Fresh : σ → Prop
  settled : List β → SinkSpec write flush
  write : ∀ {s buf}, Fresh s → buf ≠ [] → Answered (settled buf).Reports [] buf (write s buf)
  flush : ∀ {s}, Fresh s → Fresh (flush s).2

namespace Opening

variable (o : Opening write flush)

/-- Where a sink and its caller stand after `calls`. -/
inductive Stands (calls : List (SinkCall β)) (c : Caller σ β) : Prop where
  | fresh : firstWrite calls = none → o.Fresh c.sink → c = .start c.sink → Stands calls c
  | settled (first : List β) :
      firstWrite calls = some first → (o.settled first).Reports c.sink c.outstanding c.pieces →
      Stands calls c

variable {o}

theorem Stands.call {calls : List (SinkCall β)} {c c' : Caller σ β} {call : SinkCall β}
    (h : o.Stands calls c) (hc : Calls write flush c call c') : o.Stands (calls ++ [call]) c' := by
  cases h with
  | settled first hfirst hr =>
      refine .settled first ?_ (hc.reports _ hr)
      rw [firstWrite_append, hfirst]
      rfl
  | fresh hfirst hfresh hstart =>
      rw [hstart] at hc
      cases hc with
      | flush =>
          refine .fresh ?_ (o.flush hfresh) rfl
          rw [firstWrite_append, hfirst]
          rfl
      | write buf hne hagain =>
          have hans := o.write hfresh hne
          have hopened : firstWrite (calls ++ [.write buf]) = some buf := by
            rw [firstWrite_append, hfirst]
            rfl
          simp only [Caller.start]
          generalize write c.sink buf = r at hans
          cases hans with
          | count n s hn hr => exact .settled buf hopened hr
          | error e s hr => exact .settled buf hopened hr
          | pending s hr => exact .settled buf hopened hr

theorem stands_run {s : σ} {calls : List (SinkCall β)} {c : Caller σ β} (hs : o.Fresh s)
    (h : Run (Calls write flush) (.start s) calls c) : o.Stands calls c := by
  induction h with
  | nil => exact .fresh rfl hs rfl
  | snoc _ hc ih => exact ih.call hc

variable (o)

/-- The account of a sink whose first write is not known. -/
def sink : SinkSpec write flush where
  Reports s out pieces :=
    o.Fresh s ∧ out = none ∧ pieces = [] ∨ ∃ first, (o.settled first).Reports s out pieces
  write := by
    intro s out pieces buf h hne hagain
    rcases h with ⟨hfresh, rfl, rfl⟩ | ⟨first, hr⟩
    · exact (o.write hfresh hne).mono fun hr => Or.inr ⟨buf, hr⟩
    · exact ((o.settled first).write hr hne hagain).mono fun hr => Or.inr ⟨first, hr⟩
  flush := by
    intro s out pieces h
    rcases h with ⟨hfresh, rfl, rfl⟩ | ⟨first, hr⟩
    · exact Or.inl ⟨o.flush hfresh, rfl, rfl⟩
    · exact Or.inr ⟨first, (o.settled first).flush hr⟩

end Opening
