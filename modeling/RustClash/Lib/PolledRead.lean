import Mathlib.Data.List.Basic
import RustClash.Lib.Loop

/-!
# Sources that are read by polling

A source is read by `read s cap`: `pending`, an error, or at most `cap` items,
no items at all for a non-empty buffer being the end.  `ReadSpec` relates a
state to the items it has yet to deliver and to the way it ends; its one law
says what an answer leaves of them.  `ReadSpec.delivers` carries that law over
every sequence of polls: whatever the buffers, the items come in order, nothing
is lost, and enough polls reach the end.

A reader that loops until it has an answer is specified by one pass:
`ReadSpec.ofLoop`.

Relations, rather than functions, state what remains, so that a source may be
specified on the states it can reach and no others.
-/

universe u v w

inductive Poll (α : Type u) where
  | pending
  | ready (a : α)
deriving DecidableEq

/-- How a source ends. -/
inductive End (ε : Type u) where
  | eof
  | error (e : ε)
deriving DecidableEq

/-- The end of a source that stops where it may not: a clean end is an error. -/
def End.truncated {ε : Type u} (e : ε) : End ε → End ε
  | .eof => .error e
  | .error e' => .error e'

/-- Items ahead of what comes to `r`. -/
def End.after {β : Type u} {ε : Type v} (items : List β) (r : List β × End ε) :
    List β × End ε := (items ++ r.1, r.2)

/-- The filled part of a buffer of `cap` items. -/
structure Filled (β : Type u) (cap : Nat) where
  items : List β
  bound : items.length ≤ cap
deriving DecidableEq

variable {σ : Type u} {β : Type v} {ε : Type w}

namespace Filled

def empty (cap : Nat) : Filled β cap := ⟨[], Nat.zero_le _⟩

/-- As many items as the buffer takes. -/
def fill (cap : Nat) (l : List β) : Filled β cap := ⟨l.take cap, List.length_take_le _ _⟩

/-- A buffer filled through a part of it. -/
def widen {n cap : Nat} (h : n ≤ cap) (d : Filled β n) : Filled β cap :=
  ⟨d.items, Nat.le_trans d.bound h⟩

@[simp] theorem empty_items (cap : Nat) : (empty cap : Filled β cap).items = [] := rfl
@[simp] theorem fill_items (cap : Nat) (l : List β) : (fill cap l).items = l.take cap := rfl

end Filled

/-- The answer to a poll of a source with a buffer of `cap` items. -/
abbrev Answer (β : Type v) (ε : Type w) (cap : Nat) := Poll (Except ε (Filled β cap))

abbrev ReadFn (σ : Type u) (β : Type v) (ε : Type w) := σ → (cap : Nat) → Answer β ε cap × σ

/-! ## Reading to the end -/

/-- What a sequence of polls has seen. -/
structure Reading (σ : Type u) (β : Type v) (ε : Type w) where
  items : List β
  ended : Option (End ε)
  state : σ

/-- Poll with one buffer after the other, until the source ends. -/
def readAll (read : ReadFn σ β ε) : List Nat → σ → Reading σ β ε
  | [], s => ⟨[], none, s⟩
  | cap :: caps, s =>
      match read s cap with
      | (.pending, s') => readAll read caps s'
      | (.ready (.error e), s') => ⟨[], some (.error e), s'⟩
      | (.ready (.ok d), s') =>
          if d.items.isEmpty then ⟨[], some .eof, s'⟩
          else { readAll read caps s' with items := d.items ++ (readAll read caps s').items }

section

variable {read : ReadFn σ β ε} {s s' : σ} {cap : Nat} {caps : List Nat}

theorem readAll_pending (hr : read s cap = (.pending, s')) :
    readAll read (cap :: caps) s = readAll read caps s' := by rw [readAll, hr]

theorem readAll_error {e : ε} (hr : read s cap = (.ready (.error e), s')) :
    readAll read (cap :: caps) s = ⟨[], some (.error e), s'⟩ := by rw [readAll, hr]

theorem readAll_eof {d : Filled β cap} (hr : read s cap = (.ready (.ok d), s'))
    (hd : d.items = []) : readAll read (cap :: caps) s = ⟨[], some .eof, s'⟩ := by
  rw [readAll, hr]
  simp [hd]

theorem readAll_data {d : Filled β cap} (hr : read s cap = (.ready (.ok d), s'))
    (hd : d.items ≠ []) : readAll read (cap :: caps) s =
      { readAll read caps s' with items := d.items ++ (readAll read caps s').items } := by
  rw [readAll, hr]
  simp [hd]

/-- Only what the first poll does of a state matters. -/
theorem readAll_congr (hread : ∀ cap, read s cap = read s' cap) (hcaps : caps ≠ []) :
    readAll read caps s = readAll read caps s' := by
  cases caps with
  | nil => exact absurd rfl hcaps
  | cons cap caps => rw [readAll, readAll, hread cap]

/-- What every poll keeps, any number of them keeps. -/
theorem readAll_state {P : σ → Prop} (h : ∀ {s cap}, P s → P (read s cap).2) (hs : P s) :
    P (readAll read caps s).state := by
  induction caps generalizing s with
  | nil => exact hs
  | cons cap caps ih =>
      have hnext : P (read s cap).2 := h hs
      rcases hr : read s cap with ⟨_ | e | d, s'⟩ <;> rw [hr] at hnext
      · rw [readAll_pending hr]
        exact ih hnext
      · rw [readAll_error hr]
        exact hnext
      · by_cases hd : d.items = []
        · rw [readAll_eof hr hd]
          exact hnext
        · rw [readAll_data hr hd]
          exact ih hnext

end

/-- Buffers that are not empty. -/
def NonEmptyBuffers (caps : List Nat) : Prop := ∀ cap ∈ caps, 0 < cap

instance (caps : List Nat) : Decidable (NonEmptyBuffers caps) := List.decidableBAll _ _

/-- Whatever non-empty buffers it is polled with, the source delivers `items` in
order and then ends with `o`, and enough polls reach that end. -/
structure Delivers (read : ReadFn σ β ε) (s : σ) (items : List β) (o : End ε) : Prop where
  so_far : ∀ caps, NonEmptyBuffers caps → (readAll read caps s).items <+: items
  at_end : ∀ caps o', NonEmptyBuffers caps → (readAll read caps s).ended = some o' →
    (readAll read caps s).items = items ∧ o' = o
  ends : ∃ n, ∀ caps, NonEmptyBuffers caps → n ≤ caps.length →
    (readAll read caps s).ended.isSome

/-- Some polls come to the end. -/
theorem Delivers.exists_end {read : ReadFn σ β ε} {s : σ} {items : List β} {o : End ε}
    (h : Delivers read s items o) :
    ∃ caps, NonEmptyBuffers caps ∧ (readAll read caps s).ended = some o := by
  obtain ⟨n, hn⟩ := h.ends
  have hpos : NonEmptyBuffers (List.replicate n 1) := by
    intro cap hcap
    rw [List.eq_of_mem_replicate hcap]
    exact Nat.one_pos
  obtain ⟨e, he⟩ := Option.isSome_iff_exists.mp (hn _ hpos (by simp))
  obtain ⟨-, rfl⟩ := h.at_end _ e hpos he
  exact ⟨_, hpos, he⟩

/-- A source delivers one thing only. -/
theorem Delivers.unique {read : ReadFn σ β ε} {s : σ} {items items' : List β} {o o' : End ε}
    (h : Delivers read s items o) (h' : Delivers read s items' o') : items = items' ∧ o = o' := by
  obtain ⟨caps, hcaps, hend⟩ := h.exists_end
  obtain ⟨hi, ho⟩ := h.at_end caps o hcaps hend
  obtain ⟨hi', ho'⟩ := h'.at_end caps o hcaps hend
  exact ⟨hi.symm.trans hi', ho.symm.trans ho'⟩

/-- Only what the first poll does of a state matters. -/
theorem Delivers.congr {read : ReadFn σ β ε} {s s' : σ} {items : List β} {o : End ε}
    (hread : ∀ cap, read s cap = read s' cap) (h : Delivers read s items o) :
    Delivers read s' items o := by
  have hall : ∀ caps, (readAll read caps s').items = (readAll read caps s).items ∧
      (readAll read caps s').ended = (readAll read caps s).ended := by
    intro caps
    cases caps with
    | nil => exact ⟨rfl, rfl⟩
    | cons cap caps =>
        rw [readAll_congr hread (List.cons_ne_nil _ _)]
        exact ⟨rfl, rfl⟩
  refine ⟨fun caps hcaps => ?_, fun caps o' hcaps hended => ?_, ?_⟩
  · rw [(hall caps).1]
    exact h.so_far caps hcaps
  · rw [(hall caps).2] at hended
    rw [(hall caps).1]
    exact h.at_end caps o' hcaps hended
  · obtain ⟨n, hn⟩ := h.ends
    exact ⟨n, fun caps hcaps hlen => (hall caps).2 ▸ hn caps hcaps hlen⟩

/-! ## Specified sources -/

/-- What an answer leaves of the items `items` and the end `o` that were to
come: nothing is lost, and only an answer that delivers may leave as many stalls
as before. -/
def Leaves (Yields : σ → List β → End ε → Prop) (stalls : σ → Nat) {cap : Nat} (s : σ)
    (items : List β) (o : End ε) : Answer β ε cap × σ → Prop
  | (.pending, s') => Yields s' items o ∧ stalls s' < stalls s
  | (.ready (.error e), _) => items = [] ∧ o = .error e
  | (.ready (.ok d), s') =>
      if d.items = [] then items = [] ∧ o = .eof
      else ∃ rest, items = d.items ++ rest ∧ Yields s' rest o ∧ stalls s' ≤ stalls s

section

variable {Yields : σ → List β → End ε → Prop} {stalls : σ → Nat} {s s' : σ} {items : List β}
  {o : End ε} {cap : Nat} {d : Filled β cap}

theorem leaves_eof_iff (hd : d.items = []) :
    Leaves Yields stalls s items o (.ready (.ok d), s') ↔ items = [] ∧ o = .eof := by
  rw [Leaves, if_pos hd]

theorem leaves_data_iff (hd : d.items ≠ []) :
    Leaves Yields stalls s items o (.ready (.ok d), s') ↔
      ∃ rest, items = d.items ++ rest ∧ Yields s' rest o ∧ stalls s' ≤ stalls s := by
  rw [Leaves, if_neg hd]

/-- As many of the items `l` at hand as the buffer takes. -/
theorem leaves_fill {l rest : List β} (hl : l ≠ []) (hcap : 0 < cap)
    (hy : Yields s' (l.drop cap ++ rest) o) (hle : stalls s' ≤ stalls s) :
    Leaves Yields stalls s (l ++ rest) o (.ready (.ok (.fill cap l)), s') := by
  have hne : (Filled.fill cap l).items ≠ [] := by
    rw [← List.length_pos_iff, Filled.fill_items, List.length_take]
    exact Nat.lt_min.mpr ⟨hcap, List.length_pos_iff.mpr hl⟩
  refine (leaves_data_iff hne).mpr ⟨_, ?_, hy, hle⟩
  rw [← List.append_assoc, Filled.fill_items, List.take_append_drop]

end

/-- An answer handed on from a layer below: `t` and `t'` are the states of the layer
above it before and after. -/
theorem Leaves.handOn {τ : Type*} {Yields : σ → List β → End ε → Prop} {stalls : σ → Nat}
    {Yields' : τ → List β → End ε → Prop} {stalls' : τ → Nat} {s s' : σ} {t t' : τ}
    {items : List β} {o : End ε} {cap : Nat} {a : Answer β ε cap}
    (h : Leaves Yields stalls s items o (a, s'))
    (hy : ∀ items o, Yields s' items o → Yields' t' items o)
    (hbefore : stalls' t = stalls s) (hafter : stalls' t' = stalls s') :
    Leaves Yields' stalls' t items o (a, t') := by
  rcases a with _ | e | d
  · exact ⟨hy _ _ h.1, by rw [hbefore, hafter]; exact h.2⟩
  · exact h
  · by_cases hd : d.items = []
    · exact (leaves_eof_iff hd).mpr ((leaves_eof_iff hd).mp h)
    · obtain ⟨rest, hitems, hrest, hst⟩ := (leaves_data_iff hd).mp h
      exact (leaves_data_iff hd).mpr ⟨rest, hitems, hy _ _ hrest, by rw [hbefore, hafter]; exact hst⟩

/-- `Yields s items o`: in state `s` the items `items` are still to come, and the
end `o` after them.  `stalls` bounds the pending answers in between. -/
structure ReadSpec (read : ReadFn σ β ε) where
  Yields : σ → List β → End ε → Prop
  stalls : σ → Nat
  leaves : ∀ {s items o cap}, Yields s items o → 0 < cap →
    Leaves Yields stalls s items o (read s cap)

namespace ReadSpec

variable {read : ReadFn σ β ε} (spec : ReadSpec read) {s s' : σ} {items : List β} {o : End ε}
  {cap : Nat} {caps : List Nat}

theorem pending (h : spec.Yields s items o) (hcap : 0 < cap) (hr : read s cap = (.pending, s')) :
    spec.Yields s' items o ∧ spec.stalls s' < spec.stalls s := by
  have := spec.leaves h hcap
  rwa [hr] at this

theorem error {e : ε} (h : spec.Yields s items o) (hcap : 0 < cap)
    (hr : read s cap = (.ready (.error e), s')) : items = [] ∧ o = .error e := by
  have := spec.leaves h hcap
  rwa [hr] at this

theorem eof {d : Filled β cap} (h : spec.Yields s items o) (hcap : 0 < cap)
    (hr : read s cap = (.ready (.ok d), s')) (hd : d.items = []) : items = [] ∧ o = .eof := by
  have := spec.leaves h hcap
  rw [hr] at this
  simpa [Leaves, hd] using this

theorem data {d : Filled β cap} (h : spec.Yields s items o) (hcap : 0 < cap)
    (hr : read s cap = (.ready (.ok d), s')) (hd : d.items ≠ []) :
    ∃ rest, items = d.items ++ rest ∧ spec.Yields s' rest o ∧ spec.stalls s' ≤ spec.stalls s := by
  have := spec.leaves h hcap
  rw [hr] at this
  simpa [Leaves, hd] using this

/-- What a sequence of polls has seen accounts for `items` and `o`. -/
def Accounts (items : List β) (o : End ε) (r : Reading σ β ε) : Prop :=
  match r.ended with
  | none => ∃ rest, items = r.items ++ rest ∧ spec.Yields r.state rest o
  | some o' => r.items = items ∧ o' = o

variable {spec} in
theorem Accounts.data {rest d : List β} {r : Reading σ β ε} (h : spec.Accounts rest o r) :
    spec.Accounts (d ++ rest) o { r with items := d ++ r.items } := by
  unfold Accounts at *
  simp only
  cases hend : r.ended with
  | none =>
      rw [hend] at h
      obtain ⟨rest', rfl, hy⟩ := h
      exact ⟨rest', (List.append_assoc _ _ _).symm, hy⟩
  | some o' =>
      rw [hend] at h
      exact ⟨by rw [h.1], h.2⟩

/-- What any number of polls has seen, and what it leaves. -/
theorem readAll_accounts (h : spec.Yields s items o) (hcaps : NonEmptyBuffers caps) :
    spec.Accounts items o (readAll read caps s) := by
  induction caps generalizing s items with
  | nil => exact ⟨items, rfl, h⟩
  | cons cap caps ih =>
      obtain ⟨hcap, hrest⟩ := List.forall_mem_cons.mp hcaps
      rcases hr : read s cap with ⟨_ | e | d, s'⟩
      · rw [readAll_pending hr]
        exact ih (spec.pending h hcap hr).1 hrest
      · rw [readAll_error hr]
        obtain ⟨hitems, ho⟩ := spec.error h hcap hr
        exact ⟨hitems.symm, ho.symm⟩
      · by_cases hd : d.items = []
        · rw [readAll_eof hr hd]
          obtain ⟨hitems, ho⟩ := spec.eof h hcap hr hd
          exact ⟨hitems.symm, ho.symm⟩
        · obtain ⟨rest, rfl, hy, -⟩ := spec.data h hcap hr hd
          rw [readAll_data hr hd]
          exact (ih hy hrest).data

/-- Before the end, what is still to come is behind what was seen. -/
theorem readAll_yields (h : spec.Yields s items o) (hcaps : NonEmptyBuffers caps)
    (hend : (readAll read caps s).ended = none) :
    ∃ rest, items = (readAll read caps s).items ++ rest ∧
      spec.Yields (readAll read caps s).state rest o := by
  have haccounts := spec.readAll_accounts h hcaps
  simp only [Accounts, hend] at haccounts
  exact haccounts

/-- Each poll that does not end the source uses up a stall or an item. -/
theorem readAll_ended (h : spec.Yields s items o) (hcaps : NonEmptyBuffers caps)
    (hn : spec.stalls s + items.length < caps.length) :
    (readAll read caps s).ended.isSome := by
  induction caps generalizing s items with
  | nil => exact absurd hn (Nat.not_lt_zero _)
  | cons cap caps ih =>
      obtain ⟨hcap, hrest⟩ := List.forall_mem_cons.mp hcaps
      rw [List.length_cons] at hn
      rcases hr : read s cap with ⟨_ | e | d, s'⟩
      · rw [readAll_pending hr]
        obtain ⟨hy, hlt⟩ := spec.pending h hcap hr
        exact ih hy hrest (by omega)
      · rw [readAll_error hr]
        rfl
      · by_cases hd : d.items = []
        · rw [readAll_eof hr hd]
          rfl
        · obtain ⟨rest, rfl, hy, hle⟩ := spec.data h hcap hr hd
          have hlen : 0 < d.items.length := List.length_pos_iff.mpr hd
          rw [List.length_append] at hn
          rw [readAll_data hr hd]
          exact ih hy hrest (by omega)

theorem delivers (h : spec.Yields s items o) : Delivers read s items o where
  so_far caps hcaps := by
    have h' := spec.readAll_accounts h hcaps
    simp only [Accounts] at h'
    cases hend : (readAll read caps s).ended with
    | none =>
        rw [hend] at h'
        obtain ⟨rest, hitems, -⟩ := h'
        exact ⟨rest, hitems.symm⟩
    | some o' =>
        rw [hend] at h'
        exact ⟨[], by rw [List.append_nil]; exact h'.1⟩
  at_end caps o' hcaps hended := by
    have h' := spec.readAll_accounts h hcaps
    simp only [Accounts] at h'
    rwa [hended] at h'
  ends := ⟨spec.stalls s + items.length + 1, fun _ hcaps hn => spec.readAll_ended h hcaps hn⟩

/-- What every answer that ends the source establishes is so of the state it ended in. -/
theorem readAll_end {E : σ → Prop}
    (hE : ∀ {s s' : σ} {items : List β} {o : End ε} {cap : Nat} {d : Filled β cap},
      spec.Yields s items o → 0 < cap → read s cap = (.ready (.ok d), s') → d.items = [] → E s')
    (h : spec.Yields s items o) (hcaps : NonEmptyBuffers caps)
    (hend : (readAll read caps s).ended = some .eof) : E (readAll read caps s).state := by
  induction caps generalizing s items with
  | nil => cases hend
  | cons cap caps ih =>
      obtain ⟨hcap, hrest⟩ := List.forall_mem_cons.mp hcaps
      rcases hr : read s cap with ⟨_ | e | d, s'⟩
      · rw [readAll_pending hr] at hend ⊢
        exact ih (spec.pending h hcap hr).1 hrest hend
      · rw [readAll_error hr] at hend
        cases hend
      · by_cases hd : d.items = []
        · rw [readAll_eof hr hd]
          exact hE h hcap hr hd
        · obtain ⟨rest, -, hy, -⟩ := spec.data h hcap hr hd
          rw [readAll_data hr hd] at hend ⊢
          exact ih hy hrest hend

/-- A source that has ended ends again when it is polled again. -/
def Steady : Prop :=
  ∀ {s items o cap s'} {d : Filled β cap}, spec.Yields s items o → 0 < cap →
    read s cap = (.ready (.ok d), s') → d.items = [] →
    spec.Yields s' [] .eof ∧ spec.stalls s' ≤ spec.stalls s

end ReadSpec

/-! ## Readers that loop -/

section

variable {Yields : σ → List β → End ε → Prop} {stalls : σ → Nat} {s s' : σ} {items : List β}
  {o : End ε} {cap : Nat}

/-- What one pass of a reader leaves: an answer, or a state to go on from. -/
def PassLeaves (Yields : σ → List β → End ε → Prop) (stalls : σ → Nat) {cap : Nat} (s : σ)
    (items : List β) (o : End ε) : σ ⊕ (Answer β ε cap × σ) → Prop
  | .inl s' => Yields s' items o ∧ stalls s' ≤ stalls s
  | .inr r => Leaves Yields stalls s items o r

theorem passLeaves_empty (s s' : σ) :
    PassLeaves Yields stalls s [] .eof (.inr (.ready (.ok (.empty cap)), s')) := by
  show Leaves Yields stalls s [] .eof (.ready (.ok (.empty cap)), s')
  exact (leaves_eof_iff (Filled.empty_items cap)).mpr ⟨rfl, rfl⟩

theorem passLeaves_fill {l rest : List β} (hl : l ≠ []) (hcap : 0 < cap)
    (hy : Yields s' (l.drop cap ++ rest) o) (hle : stalls s' ≤ stalls s) :
    PassLeaves Yields stalls s (l ++ rest) o (.inr (.ready (.ok (.fill cap l)), s')) :=
  leaves_fill hl hcap hy hle

/-- An answer counts against the stalls there were before. -/
theorem Leaves.mono {r : Answer β ε cap × σ} (hle : stalls s' ≤ stalls s)
    (h : Leaves Yields stalls s' items o r) : Leaves Yields stalls s items o r := by
  rcases r with ⟨_ | e | d, t⟩
  · exact ⟨h.1, Nat.lt_of_lt_of_le h.2 hle⟩
  · exact h
  · by_cases hd : d.items = []
    · exact (leaves_eof_iff hd).mpr ((leaves_eof_iff hd).mp h)
    · obtain ⟨rest, hitems, hy, hst⟩ := (leaves_data_iff hd).mp h
      exact (leaves_data_iff hd).mpr ⟨rest, hitems, hy, Nat.le_trans hst hle⟩

/-- A reader whose passes account for what is to come is specified. -/
def ReadSpec.ofLoop (loop : (cap : Nat) → Loop σ (Answer β ε cap × σ))
    (Yields : σ → List β → End ε → Prop) (stalls : σ → Nat)
    (hpass : ∀ {s items o cap}, Yields s items o → 0 < cap →
      PassLeaves Yields stalls s items o ((loop cap).body s)) :
    ReadSpec (fun s cap => (loop cap).run s) where
  Yields := Yields
  stalls := stalls
  leaves {s items o cap} hy hcap := by
    refine Loop.rule (l := loop cap)
      (P := fun s r => Yields s items o → Leaves Yields stalls s items o r) ?_ ?_ s hy
    · intro s s' r hb ih hy
      have h := hpass hy hcap
      rw [hb] at h
      exact (ih h.1).mono h.2
    · intro s r hb hy
      have h := hpass hy hcap
      rwa [hb] at h

/-- What every pass that answers with the end establishes, the reader does. -/
theorem ReadSpec.ofLoop_end {loop : (cap : Nat) → Loop σ (Answer β ε cap × σ)}
    (hpass : ∀ {s items o cap}, Yields s items o → 0 < cap →
      PassLeaves Yields stalls s items o ((loop cap).body s)) {E : σ → Prop}
    (hexit : ∀ {s items o cap s'} {d : Filled β cap}, Yields s items o → 0 < cap →
      (loop cap).body s = .inr (.ready (.ok d), s') → d.items = [] → E s')
    {d : Filled β cap} (hy : Yields s items o) (hcap : 0 < cap)
    (hr : (loop cap).run s = (.ready (.ok d), s')) (hd : d.items = []) : E s' := by
  refine Loop.rule (l := loop cap) (P := fun s r => Yields s items o →
    r = (.ready (.ok d), s') → E s') ?_ ?_ s hy hr
  · intro s s'' r hb ih hy hr
    have h := hpass hy hcap
    rw [hb] at h
    exact ih h.1 hr
  · intro s r hb hy hr
    exact hexit hy hcap (hr ▸ hb) hd

/-- A reader whose passes stay at an end they answer with is steady. -/
theorem ReadSpec.ofLoop_steady {loop : (cap : Nat) → Loop σ (Answer β ε cap × σ)}
    {hpass : ∀ {s items o cap}, Yields s items o → 0 < cap →
      PassLeaves Yields stalls s items o ((loop cap).body s)}
    (hexit : ∀ {s items o cap s'} {d : Filled β cap}, Yields s items o → 0 < cap →
      (loop cap).body s = .inr (.ready (.ok d), s') → d.items = [] →
      Yields s' [] .eof ∧ stalls s' ≤ stalls s) :
    (ReadSpec.ofLoop loop Yields stalls hpass).Steady := by
  intro s items o cap s' d hy hcap hr hd
  refine Loop.rule (l := loop cap) (P := fun s r => Yields s items o →
    r = (.ready (.ok d), s') → Yields s' [] .eof ∧ stalls s' ≤ stalls s) ?_ ?_ s hy hr
  · intro s s'' r hb ih hy hr
    have h := hpass hy hcap
    rw [hb] at h
    obtain ⟨hy', hle⟩ := ih h.1 hr
    exact ⟨hy', Nat.le_trans hle h.2⟩
  · intro s r hb hy hr
    exact hexit hy hcap (hr ▸ hb) hd

end
