import RustClash.Lib.Sink

/-!
# Stacks of sinks

A layer makes a sink out of any sink below it, and says how what is reported above it lies in what
it writes below.  A stack is built by putting one layer after the other on a base, where what was
written below before a layer came stays the matter of whoever wrote it.  `Stack.delivers` is the
account of a whole stack: once nothing is to be presented again, the base has everything.
-/

universe u v w

namespace SinkSpec

variable {σ : Type u} {β : Type v} {ε : Type w} {write : WriteFn σ β ε} {flush : FlushFn σ ε}

theorem report_append (earlier pieces : List (List β)) (piece : List β) :
    report (earlier ++ pieces) piece = earlier ++ report pieces piece :=
  List.append_assoc ..

/-- The account with a caller that came after `earlier` was reported to another. -/
def after (spec : SinkSpec write flush) (earlier : List (List β)) : SinkSpec write flush where
  Reports s out pieces := spec.Reports s out (earlier ++ pieces)
  write := by
    intro s out pieces buf h hne hagain
    have hans := spec.write h hne hagain
    generalize write s buf = r at hans
    cases hans with
    | count n s hn hr => exact .count n s hn (report_append earlier pieces _ ▸ hr)
    | error e s hr => exact .error e s hr
    | pending s hr => exact .pending s hr
  flush h := spec.flush h

end SinkSpec

/-! ## Layers -/

/-- What a layer does over any sink. -/
structure SinkLayer (β ε : Type) where
  Over : Type → Type
  below {σ : Type} : Over σ → σ
  write {σ : Type} : WriteFn σ β ε → FlushFn σ ε → WriteFn (Over σ) β ε
  flush {σ : Type} : WriteFn σ β ε → FlushFn σ ε → FlushFn (Over σ) ε
  /-- Nothing has been written through the layer. -/
  Fresh {σ : Type} : Over σ → Prop
  /-- The items below that carry the pieces above. -/
  Carries : List (List β) → List β → Prop

/-- Over every sink the layer is a sink that has handed on what it reported. -/
structure SinkLayer.Law {β ε : Type} (l : SinkLayer β ε) where
  spec {σ : Type} {write : WriteFn σ β ε} {flush : FlushFn σ ε} :
    SinkSpec write flush → SinkSpec (l.write write flush) (l.flush write flush)
  fresh : ∀ {σ : Type} {write : WriteFn σ β ε} {flush : FlushFn σ ε} (inner : SinkSpec write flush)
    {st : l.Over σ}, l.Fresh st → inner.Reports (l.below st) none [] →
    (spec inner).Reports st none []
  carries : ∀ {σ : Type} {write : WriteFn σ β ε} {flush : FlushFn σ ε}
    (inner : SinkSpec write flush)
    {st : l.Over σ} {pieces : List (List β)}, (spec inner).Reports st none pieces →
    ∃ items, inner.Reports (l.below st) none items ∧ l.Carries pieces items.flatten

/-! ## Stacks -/

/-- The layers from the top down, each with what was written below it before it came. -/
abbrev Stack (β ε : Type) := List (SinkLayer β ε × List (List β))

namespace Stack

variable {β ε : Type} {σ : Type}

def Stream (σ : Type) : Stack β ε → Type
  | [] => σ
  | (l, _) :: ls => l.Over (Stream σ ls)

def bottom : (ls : Stack β ε) → Stream σ ls → σ
  | [], s => s
  | (l, _) :: ls, s => bottom ls (l.below s)

/-- A write and a flush of a stack. -/
def calls (write : WriteFn σ β ε) (flush : FlushFn σ ε) :
    (ls : Stack β ε) → WriteFn (Stream σ ls) β ε × FlushFn (Stream σ ls) ε
  | [] => (write, flush)
  | (l, _) :: ls =>
      let below := calls write flush ls
      (l.write below.1 below.2, l.flush below.1 below.2)

/-- Every layer keeps its law. -/
def Law : Stack β ε → Type 1
  | [] => PUnit
  | (l, _) :: ls => l.Law × Law ls

/-- The account of a stack. -/
def spec {write : WriteFn σ β ε} {flush : FlushFn σ ε} (base : SinkSpec write flush) :
    (ls : Stack β ε) → Law ls → SinkSpec (calls write flush ls).1 (calls write flush ls).2
  | [], _ => base
  | (_, earlier) :: ls, law => law.1.spec ((spec base ls law.2).after earlier)

/-- The items at the base that carry the pieces at the top. -/
def Carries : Stack β ε → List (List β) → List β → Prop
  | [], pieces, items => items = pieces.flatten
  | (l, earlier) :: ls, pieces, items =>
      ∃ inner, l.Carries pieces inner.flatten ∧ Carries ls (earlier ++ inner) items

variable {write : WriteFn σ β ε} {flush : FlushFn σ ε}

/-- A layer comes on a stack once all that was written before it is reported. -/
inductive Built (write : WriteFn σ β ε) (flush : FlushFn σ ε) (base : SinkSpec write flush) :
    (ls : Stack β ε) → Stream σ ls → Prop
| base {s : σ} :
  base.Reports s none [] ->
  Built write flush base [] s
| layer {l : SinkLayer β ε} {ls : Stack β ε} {earlier : List (List β)} {s : Stream σ ls}
    {done : List (SinkCall β)} {st : l.Over (Stream σ ls)} :
  Built write flush base ls s ->
  Run (Calls (calls write flush ls).1 (calls write flush ls).2) (.start s) done
    ⟨l.below st, earlier, none⟩ ->
  l.Fresh st ->
  Built write flush base ((l, earlier) :: ls) st

variable {base : SinkSpec write flush} {ls : Stack β ε}

theorem Built.reports (law : Law ls) {s : Stream σ ls} (h : Built write flush base ls s) :
    (spec base ls law).Reports s none [] := by
  induction h with
  | base h => exact h
  | @layer _ _ earlier _ _ _ _ hrun hfresh ih =>
    have hreports := (spec base _ law.2).reports_run hrun (ih law.2)
    refine law.1.fresh _ hfresh ?_
    show (spec base _ law.2).Reports _ none (earlier ++ [])
    rw [List.append_nil]
    exact hreports

theorem reports_carried (law : Law ls) {s : Stream σ ls} {pieces : List (List β)}
    (h : (spec base ls law).Reports s none pieces) :
    ∃ items, base.Reports (bottom ls s) none items ∧ Carries ls pieces items.flatten := by
  induction ls generalizing pieces with
  | nil => exact ⟨pieces, h, rfl⟩
  | cons x ls ih =>
    obtain ⟨l, earlier⟩ := x
    obtain ⟨inner, hinner, hcarries⟩ := law.1.carries _ h
    obtain ⟨items, hitems, hbelow⟩ := ih law.2 hinner
    exact ⟨items, hitems, inner, hcarries, hbelow⟩

/-- Once nothing is to be presented again, the base has what carries all that was reported. -/
theorem delivers (law : Law ls) {s : Stream σ ls} (hs : Built write flush base ls s)
    {done : List (SinkCall β)} {c : Caller (Stream σ ls) β}
    (h : Run (Calls (calls write flush ls).1 (calls write flush ls).2) (.start s) done c)
    (hdone : c.outstanding = none) :
    ∃ items, base.Reports (bottom ls c.sink) none items ∧ Carries ls c.pieces items.flatten := by
  have hreports := (spec base ls law).reports_run h (hs.reports law)
  rw [hdone] at hreports
  exact reports_carried law hreports

end Stack
