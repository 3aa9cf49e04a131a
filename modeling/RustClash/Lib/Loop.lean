/-!
# Loops that carry their own termination

A `Loop` is one pass of a `loop { .. }` together with a measure that every pass
that goes round again decreases.  `Loop.run` is total, evaluates, and satisfies
the unfolding equations of the loop; `Loop.rule` is the proof rule: what every
returning pass establishes, and every other pass hands back, the loop
establishes.
-/

universe u v

/-- One pass of a loop: `inl` goes round again, `inr` returns. -/
structure Loop (σ : Type u) (ρ : Type v) where
  body : σ → σ ⊕ ρ
  measure : σ → Nat
  decreases : ∀ {s s'}, body s = .inl s' → measure s' < measure s

namespace Loop

variable {σ : Type u} {ρ : Type v} (l : Loop σ ρ)

/-- At most `n` passes, where the measure says that `n` is enough. -/
def iterate : (n : Nat) → (s : σ) → l.measure s < n → ρ
  | 0, _, h => absurd h (Nat.not_lt_zero _)
  | n + 1, s, h =>
      match hb : l.body s with
      | .inl s' => iterate n s' (Nat.lt_of_lt_of_le (l.decreases hb) (Nat.le_of_lt_succ h))
      | .inr r => r

def run (s : σ) : ρ := l.iterate (l.measure s + 1) s (Nat.lt_succ_self _)

variable {l} {s s' : σ} {r : ρ}

theorem iterate_inl {n : Nat} (h : l.measure s < n + 1) (hb : l.body s = .inl s') :
    l.iterate (n + 1) s h =
      l.iterate n s' (Nat.lt_of_lt_of_le (l.decreases hb) (Nat.le_of_lt_succ h)) := by
  rw [iterate]
  split
  · next s'' hb' =>
      cases hb.symm.trans hb'
      rfl
  · next r hb' => cases hb.symm.trans hb'

theorem iterate_inr {n : Nat} (h : l.measure s < n + 1) (hb : l.body s = .inr r) :
    l.iterate (n + 1) s h = r := by
  rw [iterate]
  split
  · next s' hb' => cases hb.symm.trans hb'
  · next r' hb' =>
      cases hb.symm.trans hb'
      rfl

/-- Any number of passes that is enough gives the same result. -/
theorem iterate_congr {n m : Nat} (hn : l.measure s < n) (hm : l.measure s < m) :
    l.iterate n s hn = l.iterate m s hm := by
  induction n generalizing s m with
  | zero => exact absurd hn (Nat.not_lt_zero _)
  | succ n ih =>
      cases m with
      | zero => exact absurd hm (Nat.not_lt_zero _)
      | succ m =>
          cases hb : l.body s with
          | inl s' => rw [iterate_inl hn hb, iterate_inl hm hb]; exact ih _ _
          | inr r => rw [iterate_inr hn hb, iterate_inr hm hb]

theorem run_inl (hb : l.body s = .inl s') : l.run s = l.run s' := by
  rw [run, iterate_inl _ hb]
  exact iterate_congr _ _

theorem run_inr (hb : l.body s = .inr r) : l.run s = r := iterate_inr _ hb

/-- A property of the result that every returning pass has, and that every other
pass gets from the state it leaves, holds of the loop. -/
theorem rule {P : σ → ρ → Prop} (hround : ∀ s s' r, l.body s = .inl s' → P s' r → P s r)
    (hexit : ∀ s r, l.body s = .inr r → P s r) (s : σ) : P s (l.run s) := by
  induction hn : l.measure s using Nat.strongRecOn generalizing s with
  | _ n ih =>
      subst hn
      cases hb : l.body s with
      | inl s' =>
          rw [run_inl hb]
          exact hround s s' _ hb (ih _ (l.decreases hb) s' rfl)
      | inr r =>
          rw [run_inr hb]
          exact hexit s r hb

/-- Induction along the passes that go round again. -/
theorem pass_induction {P : σ → Prop} (h : ∀ s, (∀ s', l.body s = .inl s' → P s') → P s) (s : σ) :
    P s := by
  induction hn : l.measure s using Nat.strongRecOn generalizing s with
  | _ n ih =>
      subst hn
      exact h s fun s' hb => ih _ (l.decreases hb) s' rfl

/-- Loops whose passes correspond come to results that correspond. -/
theorem run_sim {σ' : Type u} {ρ' : Type v} {l : Loop σ ρ} {m : Loop σ' ρ'} {R : σ → σ' → Prop}
    {Q : ρ → ρ' → Prop} (h : ∀ s s', R s s' → Sum.LiftRel R Q (l.body s) (m.body s'))
    {s : σ} {s' : σ'} (hs : R s s') : Q (l.run s) (m.run s') := by
  refine rule (l := l) (P := fun s r => ∀ s', R s s' → Q r (m.run s')) ?_ ?_ s s' hs
  · intro s t r hb ih s' hs
    have hpass := h s s' hs
    rw [hb] at hpass
    rcases hb' : m.body s' with t' | r' <;> rw [hb'] at hpass
    · cases hpass with
      | inl ht =>
        rw [run_inl hb']
        exact ih t' ht
    · cases hpass
  · intro s r hb s' hs
    have hpass := h s s' hs
    rw [hb] at hpass
    rcases hb' : m.body s' with t' | r' <;> rw [hb'] at hpass
    · cases hpass
    · cases hpass with
      | inr hr =>
        rw [run_inr hb']
        exact hr

end Loop

/-! ## Loops that may go on for ever

A loop `Returns` where one of its passes does, after finitely many others.  An invariant under
which every pass goes round again keeps a loop from returning. -/

variable {σ : Type u} {ρ : Type v} {body : σ → σ ⊕ ρ} {s s' : σ}

inductive Returns (body : σ → σ ⊕ ρ) : σ → Prop
| done {s : σ} {r : ρ} :
  body s = .inr r ->
  Returns body s
| again {s s' : σ} :
  body s = .inl s' ->
  Returns body s' ->
  Returns body s

namespace Returns

/-- A pass that goes round again decides nothing. -/
theorem again_iff (h : body s = .inl s') : Returns body s ↔ Returns body s' := by
  constructor
  · intro hr
    cases hr with
    | done hb => cases h.symm.trans hb
    | again hb hr =>
        cases h.symm.trans hb
        exact hr
  · exact .again h

theorem not_of_invariant {I : σ → Prop} (h : ∀ s, I s → ∃ s', body s = .inl s' ∧ I s')
    (hs : I s) : ¬ Returns body s := by
  intro hr
  induction hr with
  | done hb =>
      obtain ⟨s', hb', -⟩ := h _ hs
      cases hb.symm.trans hb'
  | again hb _ ih =>
      obtain ⟨s', hb', hs'⟩ := h _ hs
      cases hb.symm.trans hb'
      exact ih hs'

end Returns
