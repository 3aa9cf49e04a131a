import Mathlib.Data.List.Induction

/-!
# Labelled transition systems and their runs

A transition system is a relation `step : σ → α → σ → Prop`.  A `Run` records
the labels of the steps it took, oldest first.  Invariants are proved one step
at a time and carried over whole runs by `Run.invariant`.
-/

universe u v

variable {σ : Type u} {α : Type v}

/-- `Run step s as t`: the labels `as`, oldest first, lead from `s` to `t`. -/
inductive Run (step : σ → α → σ → Prop) (s : σ) : List α → σ → Prop where
  | nil : Run step s [] s
  | snoc {as : List α} {t u : σ} {a : α} :
      Run step s as t → step t a u → Run step s (as ++ [a]) u

namespace Run

variable {step : σ → α → σ → Prop} {s t u : σ} {as bs : List α}

theorem single {a : α} (h : step s a t) : Run step s [a] t := .snoc .nil h

theorem append (h : Run step s as t) (k : Run step t bs u) : Run step s (as ++ bs) u := by
  induction k with
  | nil => simpa using h
  | snoc _ hs ih =>
      rw [← List.append_assoc]
      exact .snoc ih hs

theorem cons {a : α} (h : step s a t) (k : Run step t as u) : Run step s (a :: as) u :=
  (single h).append k

/-- What one step preserves, a run preserves. -/
theorem invariant {I : σ → Prop} (h : Run step s as t)
    (hstep : ∀ {t a u}, I t → step t a u → I u) (h0 : I s) : I t := by
  induction h with
  | nil => exact h0
  | snoc _ hs ih => exact hstep ih hs

/-- A run of a relation is a run of every weaker one. -/
theorem mono {step' : σ → α → σ → Prop} (hstep : ∀ {t a u}, step t a u → step' t a u)
    (h : Run step s as t) : Run step' s as t := by
  induction h with
  | nil => exact .nil
  | snoc _ hs ih => exact .snoc ih (hstep hs)

end Run

/-! ## Runs of a partial function -/

/-- Labels that a partial transition function accepts one after the other are a
run of it. -/
theorem run_of_foldlM {f : σ → α → Option σ} {as : List α} {s t : σ}
    (h : as.foldlM f s = some t) : Run (fun s a t => f s a = some t) s as t := by
  induction as generalizing s with
  | nil =>
      cases h
      exact .nil
  | cons a as ih =>
      rw [List.foldlM_cons] at h
      obtain ⟨u, hu, hrest⟩ := Option.bind_eq_some_iff.mp h
      exact Run.cons hu (ih hrest)

/-- The same, with a guard on every step. -/
theorem run_of_guarded {f : σ → α → Option σ} {p : σ → α → Prop} [∀ s a, Decidable (p s a)]
    {as : List α} {s t : σ} (h : as.foldlM (fun s a => if p s a then f s a else none) s = some t) :
    Run (fun s a t => f s a = some t ∧ p s a) s as t :=
  (run_of_foldlM h).mono fun hs => (Option.ite_none_right_eq_some.mp hs).symm

/-! ## Runs of a function -/

/-- The graph of a total transition function. -/
def Steps (f : σ → α → σ) (s : σ) (a : α) (t : σ) : Prop := f s a = t

/-- A total transition function has exactly one run for each list of labels. -/
theorem run_steps_iff {f : σ → α → σ} {s t : σ} {as : List α} :
    Run (Steps f) s as t ↔ as.foldl f s = t := by
  constructor
  · intro h
    induction h with
    | nil => rfl
    | snoc _ hs ih => rw [List.foldl_append, ih, ← hs]; rfl
  · intro h
    induction as using List.reverseRecOn generalizing t with
    | nil => cases h; exact .nil
    | append_singleton as a ih =>
        rw [List.foldl_append] at h
        exact .snoc (ih rfl) h

/-- A property of the start and of every step of a total function holds after
any list of labels. -/
theorem foldl_invariant {f : σ → α → σ} {I : σ → Prop} (hstep : ∀ s a, I s → I (f s a))
    {s : σ} (h0 : I s) (as : List α) : I (as.foldl f s) :=
  (run_steps_iff.mpr rfl : Run (Steps f) s as _).invariant
    (fun ht hs => hs ▸ hstep _ _ ht) h0
