import Mathlib.Algebra.Group.Nat.Defs
import Mathlib.Data.List.Basic

/-!
# Checked indexing

A program that indexes past its data stops.  `Checked` computations record that:
a read or a slice out of range is a `Fault`, and so is an overflow of its arithmetic or memory
that it cannot have.
Each operation comes with the value it has in range, in terms of `getD`, `take` and `drop`.
-/

universe u v

inductive Fault where
  | index
  | slice
  | copy
  | boundary
  | overflow
  | alloc
deriving DecidableEq, Repr

abbrev Checked (α : Type u) := Except Fault α

namespace Checked

variable {α : Type u}

/-- `xs[i]`. -/
def get (xs : List α) (i : Nat) : Checked α :=
  match xs[i]? with
  | some x => .ok x
  | none => .error .index

/-- `xs[i..j]`. -/
def slice (xs : List α) (i j : Nat) : Checked (List α) :=
  if i ≤ j ∧ j ≤ xs.length then .ok ((xs.take j).drop i) else .error .slice

/-- The list with `new` written over it from `i` on. -/
def overwrite (xs : List α) (i : Nat) (new : List α) : List α :=
  xs.take i ++ new ++ xs.drop (i + new.length)

/-- `xs[i..j].copy_from_slice(new)`. -/
def copy (xs : List α) (i j : Nat) (new : List α) : Checked (List α) :=
  if i ≤ j ∧ j ≤ xs.length ∧ new.length = j - i then .ok (overwrite xs i new)
  else .error .copy

/-- A change made through the mutable slice `xs[i..j]`. -/
def within (xs : List α) (i j : Nat) (f : List α → Checked (List α)) : Checked (List α) := do
  let part ← slice xs i j
  let part ← f part
  pure (overwrite xs i part)

/-- `xs.drain(..n)`. -/
def drain (xs : List α) (n : Nat) : Checked (List α) :=
  if n ≤ xs.length then .ok (xs.drop n) else .error .slice

/-- `a + b` in `w` bits. -/
def add (w a b : Nat) : Checked Nat := if a + b < 2 ^ w then .ok (a + b) else .error .overflow

/-- `a - b` of unsigned numbers. -/
def sub (a b : Nat) : Checked Nat := if b ≤ a then .ok (a - b) else .error .overflow

/-- Room for `n` entries, of an allocator that has room for some numbers of them. -/
def reserve (available : Nat → Bool) (n : Nat) : Checked Unit :=
  if available n then .ok () else .error .alloc

theorem get_ok {xs : List α} {i : Nat} (h : i < xs.length) (d : α) :
    get xs i = .ok (xs.getD i d) := by
  simp [get, h]

theorem slice_ok {xs : List α} {i j : Nat} (h : i ≤ j) (hj : j ≤ xs.length) :
    slice xs i j = .ok ((xs.take j).drop i) := if_pos ⟨h, hj⟩

theorem copy_ok {xs new : List α} {i j : Nat} (h : i + new.length = j) (hj : j ≤ xs.length) :
    copy xs i j new = .ok (overwrite xs i new) := if_pos ⟨by omega, hj, by omega⟩

theorem drain_ok {xs : List α} {n : Nat} (h : n ≤ xs.length) : drain xs n = .ok (xs.drop n) :=
  if_pos h

theorem add_ok {w a b : Nat} (h : a + b < 2 ^ w) : add w a b = .ok (a + b) := if_pos h

theorem sub_ok {a b : Nat} (h : b ≤ a) : sub a b = .ok (a - b) := if_pos h

theorem reserve_ok {available : Nat → Bool} {n : Nat} (h : available n) :
    reserve available n = .ok () := if_pos h

/-! ## Running to the end -/

/-- The computation returns. -/
def Runs (x : Checked α) : Prop := ∃ a, x = .ok a

@[simp] theorem runs_ok (a : α) : Runs (.ok a : Checked α) := ⟨a, rfl⟩

@[simp] theorem runs_pure (a : α) : Runs (pure a : Checked α) := ⟨a, rfl⟩

@[simp] theorem not_runs_error (e : Fault) : ¬ Runs (.error e : Checked α) := by
  rintro ⟨a, h⟩
  cases h

section Sequence

variable {β : Type u} {x : Checked α}

@[simp] theorem ok_bind (a : α) (f : α → Checked β) : ((.ok a : Checked α) >>= f) = f a := rfl

@[simp] theorem error_bind (e : Fault) (f : α → Checked β) :
    ((.error e : Checked α) >>= f) = .error e := rfl

theorem bind_eq_ok {ε : Type v} {x : Except ε α} {f : α → Except ε β} {b : β} :
    x >>= f = .ok b ↔ ∃ a, x = .ok a ∧ f a = .ok b := by
  cases x with
  | error e => exact ⟨fun h => (by cases h), fun ⟨_, h, _⟩ => (by cases h)⟩
  | ok a =>
      constructor
      · intro h
        exact ⟨a, rfl, h⟩
      · rintro ⟨_, h, hf⟩
        cases h
        exact hf

theorem runs_bind {f : α → Checked β} : Runs (x >>= f) ↔ ∃ a, x = .ok a ∧ Runs (f a) := by
  cases x with
  | error e => exact ⟨fun ⟨_, h⟩ => (by cases h), fun ⟨_, h, _⟩ => (by cases h)⟩
  | ok a =>
      constructor
      · intro h
        exact ⟨a, rfl, h⟩
      · rintro ⟨_, h, hf⟩
        cases h
        exact hf

theorem Runs.bind {f : α → Checked β} (hx : Runs x) (hf : ∀ a, Runs (f a)) : Runs (x >>= f) := by
  obtain ⟨a, ha⟩ := hx
  exact runs_bind.mpr ⟨a, ha, hf a⟩

@[simp] theorem runs_map {f : α → β} : Runs (f <$> x) ↔ Runs x := by
  cases x with
  | error e => exact ⟨fun ⟨_, h⟩ => (by cases h), fun ⟨_, h⟩ => (by cases h)⟩
  | ok a => exact ⟨fun _ => ⟨a, rfl⟩, fun _ => ⟨f a, rfl⟩⟩

/-- A loop whose rounds return or not whatever was done before. -/
theorem runs_foldlM {f : β → α → Checked β} {P : α → Prop} :
    ∀ {xs : List α}, (∀ y, ∀ z ∈ xs, Runs (f y z) ↔ P z) →
      ∀ y, Runs (xs.foldlM f y) ↔ ∀ z ∈ xs, P z
  | [], _, y => by simp
  | z :: xs, h, y => by
      rw [List.foldlM_cons, runs_bind, List.forall_mem_cons, ← h y z List.mem_cons_self]
      have ih := @runs_foldlM f P xs fun y z hz => h y z (List.mem_cons_of_mem _ hz)
      constructor
      · rintro ⟨y', hy', hxs⟩
        exact ⟨⟨y', hy'⟩, (ih y').mp hxs⟩
      · rintro ⟨⟨y', hy'⟩, hxs⟩
        exact ⟨y', hy', (ih y').mpr hxs⟩

theorem Runs.mapM {f : α → Checked β} (h : ∀ z, Runs (f z)) : ∀ xs : List α, Runs (xs.mapM f)
  | [] => ⟨[], rfl⟩
  | z :: xs => by
      rw [List.mapM_cons]
      exact (h z).bind fun _ => (Runs.mapM h xs).bind fun _ => runs_pure _

end Sequence

/-! ## Overwriting -/

theorem length_overwrite {xs new : List α} {i : Nat} (h : i + new.length ≤ xs.length) :
    (overwrite xs i new).length = xs.length := by
  simp only [overwrite, List.length_append, List.length_take, List.length_drop]
  omega

theorem getElem?_overwrite {xs new : List α} {i : Nat} (h : i + new.length ≤ xs.length) (k : Nat) :
    (overwrite xs i new)[k]? =
      if k < i then xs[k]? else if k < i + new.length then new[k - i]? else xs[k]? := by
  have hlen : (xs.take i).length = i := by rw [List.length_take]; omega
  simp only [overwrite, List.append_assoc]
  split
  · next hk => rw [List.getElem?_append_left (by omega), List.getElem?_take_of_lt hk]
  · next hk =>
      rw [List.getElem?_append_right (by omega), hlen]
      split
      · rw [List.getElem?_append_left (by omega)]
      · rw [List.getElem?_append_right (by omega), List.getElem?_drop]
        congr 1
        omega

/-- A write is lost under a later one that covers it. -/
theorem overwrite_cover {xs new new' : List α} {i : Nat} (h : i + new'.length ≤ xs.length)
    (hl : new.length ≤ new'.length) : overwrite (overwrite xs i new) i new' = overwrite xs i new' := by
  apply List.ext_getElem?
  intro k
  rw [getElem?_overwrite (by rw [length_overwrite (by omega)]; omega),
    getElem?_overwrite (by omega), getElem?_overwrite h]
  split
  · rfl
  · split
    · rfl
    · rw [if_neg (by omega)]

/-- Writing a changed slice back changes the list at the place of the change. -/
theorem overwrite_slice {xs new : List α} {i j k : Nat} (h : i + k + new.length ≤ j)
    (hj : j ≤ xs.length) :
    overwrite xs i (overwrite ((xs.take j).drop i) k new) = overwrite xs (i + k) new := by
  have hlen : ((xs.take j).drop i).length = j - i := by
    rw [List.length_drop, List.length_take]
    omega
  have hpart := @length_overwrite _ ((xs.take j).drop i) new k (by omega)
  apply List.ext_getElem?
  intro m
  rw [getElem?_overwrite (by omega), @getElem?_overwrite _ xs new (i + k) (by omega), hpart, hlen]
  by_cases hm : m < i
  · rw [if_pos hm, if_pos (by omega)]
  · rw [if_neg hm, getElem?_overwrite (by omega), List.getElem?_drop, List.getElem?_take,
      show i + (m - i) = m by omega, show m - i - k = m - (i + k) by omega]
    have h1 : m - i < k ↔ m < i + k := by omega
    have h2 : m - i < k + new.length ↔ m < i + k + new.length := by omega
    by_cases hmj : m < j
    · simp only [h1, h2, if_pos hmj, if_pos (show m < i + (j - i) by omega)]
    · rw [if_neg (by omega), if_neg (by omega), if_neg (by omega)]

/-- What is written below a cut is written into the part below it. -/
theorem take_overwrite {xs new : List α} {i n : Nat} (hn : i + new.length ≤ n)
    (h : i + new.length ≤ xs.length) :
    (overwrite xs i new).take n = overwrite (xs.take n) i new := by
  apply List.ext_getElem?
  intro k
  rw [List.getElem?_take, getElem?_overwrite h,
    getElem?_overwrite (by rw [List.length_take]; omega), List.getElem?_take]
  split <;> split <;> first | rfl | (split <;> first | rfl | omega)

/-- What is written above a cut leaves the part below it. -/
theorem take_overwrite_of_le {xs new : List α} {i n : Nat} (hn : n ≤ i)
    (h : i + new.length ≤ xs.length) : (overwrite xs i new).take n = xs.take n := by
  apply List.ext_getElem?
  intro k
  rw [List.getElem?_take, List.getElem?_take, getElem?_overwrite h]
  split
  · rw [if_pos (by omega)]
  · rfl

theorem drop_overwrite {xs new : List α} {i n : Nat} (hn : n ≤ i)
    (h : i + new.length ≤ xs.length) :
    (overwrite xs i new).drop n = overwrite (xs.drop n) (i - n) new := by
  apply List.ext_getElem?
  intro k
  rw [List.getElem?_drop, getElem?_overwrite h,
    getElem?_overwrite (by rw [List.length_drop]; omega), List.getElem?_drop]
  have hk : n + k < i ↔ k < i - n := by omega
  have hk' : n + k < i + new.length ↔ k < i - n + new.length := by omega
  simp only [hk, hk', show n + k - i = k - (i - n) by omega]

/-- Writing behind `xs` into what is blank. -/
theorem copy_blank {xs new : List α} {a : α} {i j n : Nat} (hi : xs.length = i)
    (hj : i + new.length = j) (h : new.length ≤ n) : copy (xs ++ List.replicate n a) i j new =
      .ok (xs ++ new ++ List.replicate (n - new.length) a) := by
  subst hi
  rw [copy_ok hj (by rw [List.length_append, List.length_replicate]; omega), overwrite,
    List.take_left, ← List.drop_drop, List.drop_left, List.drop_replicate]

theorem within_ok {xs : List α} {i j : Nat} {f : List α → Checked (List α)} {part : List α}
    (h : i ≤ j) (hj : j ≤ xs.length) (hf : f ((xs.take j).drop i) = .ok part) :
    within xs i j f = .ok (overwrite xs i part) := by
  simp only [within, slice_ok h hj]
  show (f _ >>= _) = _
  rw [hf]
  rfl

end Checked
