import Mathlib.Logic.Function.Iterate

/-!
# Probing a ring

A cursor goes round a ring of `size` places and looks at one of them in each round.
`probe` stops at the first place that is not taken and gives up after `n` rounds.
`probe_none` and `probe_some` say what `n` rounds look at.  On a ring one round less
than there are places leaves out one place, the one behind the cursor
(`Ring.probe_short`).
-/

universe u v

namespace Probe

variable {κ : Type u} {α : Type v}

/-- At most `n` rounds from the cursor on: the place that is found, and the cursor behind it. -/
def probe (look : κ → α) (step : κ → κ) (taken : α → Prop) [DecidablePred taken] :
    Nat → κ → Option α × κ
  | 0, c => (none, c)
  | n + 1, c =>
      if taken (look c) then probe look step taken n (step c) else (some (look c), step c)

variable {look : κ → α} {step : κ → κ} {taken : α → Prop} [DecidablePred taken] {n : Nat} {c : κ}

theorem probe_none :
    (probe look step taken n c).1 = none ↔ ∀ k < n, taken (look (step^[k] c)) := by
  induction n generalizing c with
  | zero => exact ⟨fun _ k hk => absurd hk (Nat.not_lt_zero k), fun _ => rfl⟩
  | succ n ih =>
      rw [probe]
      constructor
      · intro h k hk
        split at h
        · next htaken =>
            cases k with
            | zero => exact htaken
            | succ k => exact ih.mp h k (Nat.lt_of_succ_lt_succ hk)
        · cases h
      · intro h
        have hfirst : taken (look c) := h 0 (Nat.zero_lt_succ n)
        rw [if_pos hfirst]
        exact ih.mpr fun k hk => h (k + 1) (Nat.succ_lt_succ hk)

theorem probe_some {a : α} (h : (probe look step taken n c).1 = some a) :
    ¬ taken a ∧ ∃ k < n, a = look (step^[k] c) := by
  induction n generalizing c with
  | zero => cases h
  | succ n ih =>
      rw [probe] at h
      split at h
      · obtain ⟨hfree, k, hk, ha⟩ := ih h
        exact ⟨hfree, k + 1, Nat.succ_lt_succ hk, ha⟩
      · next hfree =>
          cases h
          exact ⟨hfree, 0, Nat.zero_lt_succ n, rfl⟩

/-- A ring of `size` places `place 0`, `place 1`, ...; a good cursor stands at `pos`. -/
structure Ring (look : κ → α) (step : κ → κ) (place : Nat → α) (size : Nat) where
  Good : κ → Prop
  pos : κ → Nat
  pos_lt : ∀ {c}, Good c → pos c < size
  look_eq : ∀ {c}, Good c → look c = place (pos c)
  step_good : ∀ {c}, Good c → Good (step c)
  pos_step : ∀ {c}, Good c → pos (step c) = (pos c + 1) % size

namespace Ring

variable {place : Nat → α} {size : Nat} (r : Ring look step place size)

/-- The place behind the cursor. -/
def behind (c : κ) : Nat := (r.pos c + (size - 1)) % size

theorem behind_lt (h : 0 < size) (c : κ) : r.behind c < size := Nat.mod_lt _ h

variable {r}

theorem iterate (h : r.Good c) (k : Nat) :
    r.Good (step^[k] c) ∧ r.pos (step^[k] c) = (r.pos c + k) % size := by
  induction k with
  | zero => exact ⟨h, (Nat.mod_eq_of_lt (r.pos_lt h)).symm⟩
  | succ k ih =>
      rw [Function.iterate_succ_apply']
      refine ⟨r.step_good ih.1, ?_⟩
      rw [r.pos_step ih.1, ih.2, Nat.mod_add_mod, Nat.add_assoc]

theorem look_iterate (h : r.Good c) (k : Nat) :
    look (step^[k] c) = place ((r.pos c + k) % size) := by
  obtain ⟨hgood, hpos⟩ := iterate h k
  rw [r.look_eq hgood, hpos]

/-- Every place is so many rounds away. -/
theorem exists_round (h : r.Good c) {i : Nat} (hi : i < size) :
    ∃ k < size, (r.pos c + k) % size = i := by
  have hpos := r.pos_lt h
  rcases Nat.lt_or_ge i (r.pos c) with hlt | hge
  · refine ⟨i + size - r.pos c, by omega, ?_⟩
    rw [show r.pos c + (i + size - r.pos c) = i + size by omega, Nat.add_mod_right,
      Nat.mod_eq_of_lt hi]
  · refine ⟨i - r.pos c, by omega, ?_⟩
    rw [Nat.add_sub_cancel' hge, Nat.mod_eq_of_lt hi]

/-- One round less than there are places finds nothing where every place is taken but, at
most, the one behind the cursor. -/
theorem probe_short (h : r.Good c) (hn : n + 1 = size) :
    (probe look step taken n c).1 = none ↔ ∀ i < size, i ≠ r.behind c → taken (place i) := by
  have hbehind : r.behind c = (r.pos c + n) % size := by
    rw [behind, show size - 1 = n by omega]
  rw [probe_none, hbehind]
  constructor
  · intro hall i hi hne
    obtain ⟨k, hk, rfl⟩ := exists_round h hi
    have hkn : k < n := by
      have : k ≠ n := fun hkn => hne (by rw [hkn])
      omega
    rw [← look_iterate h]
    exact hall k hkn
  · intro hall k hk
    have hpos := r.pos_lt h
    rw [look_iterate h]
    refine hall _ (Nat.mod_lt _ (by omega)) fun heq => ?_
    -- two rounds of one turn do not meet
    have hmod := Nat.sub_mod_eq_zero_of_mod_eq heq.symm
    rw [show r.pos c + n - (r.pos c + k) = n - k by omega, Nat.mod_eq_of_lt (by omega)] at hmod
    omega

theorem probe_mem (h : r.Good c) {a : α} (ha : (probe look step taken n c).1 = some a) :
    ¬ taken a ∧ ∃ i < size, a = place i := by
  obtain ⟨hfree, k, -, rfl⟩ := probe_some ha
  have hpos := r.pos_lt h
  exact ⟨hfree, _, Nat.mod_lt _ (by omega), look_iterate h k⟩

end Ring

end Probe
