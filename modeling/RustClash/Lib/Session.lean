/-!
# Sessions

A `Session` is a computation on a state that may fail.  What it did to the state
before it failed stays done.  The equations `*_ok` say what a session that came
to its end went through; `Keeps` is an invariant of the state that holds whether
the session came to its end or not.
-/

universe u v w

def Session (σ : Type u) (ε : Type v) (α : Type w) := σ → Except ε α × σ

namespace Session

variable {σ : Type u} {ε : Type v} {α β : Type w}

instance : Monad (Session σ ε) where
  pure a := fun s => (.ok a, s)
  bind x f := fun s =>
    match x s with
    | (.ok a, s') => f a s'
    | (.error e, s') => (.error e, s')

/-- A computation that leaves the state alone. -/
def ofExcept (r : Except ε α) : Session σ ε α := fun s => (r, s)

/-- Stop with `e` if `c`. -/
def failIf (c : Prop) [Decidable c] (e : ε) : Session σ ε PUnit :=
  fun s => (if c then .error e else .ok ⟨⟩, s)

def update (f : σ → σ) : Session σ ε PUnit := fun s => (.ok ⟨⟩, f s)

/-! ## Sessions that came to their end -/

section

variable {x : Session σ ε α} {f : α → Session σ ε β} {s s' : σ} {a : α} {b : β}

theorem bind_ok : (x >>= f) s = (.ok b, s') ↔
    ∃ a s₁, x s = (.ok a, s₁) ∧ f a s₁ = (.ok b, s') := by
  show (match x s with | (.ok a, s') => f a s' | (.error e, s') => (.error e, s')) = _ ↔ _
  rcases x s with ⟨e | a, s₁⟩
  · constructor
    · intro h
      cases h
    · rintro ⟨_, _, h, _⟩
      cases h
  · constructor
    · intro h
      exact ⟨a, s₁, rfl, h⟩
    · rintro ⟨_, _, h, hf⟩
      cases h
      exact hf

theorem pure_ok {a' : α} : (pure a : Session σ ε α) s = (.ok a', s') ↔ a' = a ∧ s' = s := by
  constructor
  · intro h
    cases h
    exact ⟨rfl, rfl⟩
  · rintro ⟨rfl, rfl⟩
    rfl

theorem ofExcept_ok {r : Except ε α} :
    (ofExcept r : Session σ ε α) s = (.ok a, s') ↔ r = .ok a ∧ s' = s := by
  constructor
  · intro h
    cases h
    exact ⟨rfl, rfl⟩
  · rintro ⟨rfl, rfl⟩
    rfl

theorem failIf_ok {c : Prop} [Decidable c] {e : ε} {u : PUnit} :
    (failIf c e : Session σ ε PUnit) s = (.ok u, s') ↔ ¬ c ∧ s' = s := by
  simp only [failIf]
  split
  · next hc => exact ⟨nofun, fun h => absurd hc h.1⟩
  · next hc =>
    constructor
    · intro h
      cases h
      exact ⟨hc, rfl⟩
    · rintro ⟨_, rfl⟩
      rfl

theorem update_ok {g : σ → σ} {u : PUnit} :
    (update g : Session σ ε PUnit) s = (.ok u, s') ↔ s' = g s := by
  constructor
  · intro h
    cases h
    rfl
  · rintro rfl
    rfl

/-- A session fails with its first part. -/
theorem bind_error {e : ε} (h : x s = (.error e, s')) : (x >>= f) s = (.error e, s') := by
  show (match x s with | (.ok a, s') => f a s' | (.error e, s') => (.error e, s')) = _
  rw [h]

theorem bind_eq {r : Except ε β × σ} (h : x s = (.ok a, s')) (hf : f a s' = r) :
    (x >>= f) s = r := by
  show (match x s with | (.ok a, s') => f a s' | (.error e, s') => (.error e, s')) = _
  rw [h]
  exact hf

end

/-! ## Invariants -/

/-- However far the session comes, `I` still holds. -/
def Keeps (I : σ → Prop) (x : Session σ ε α) : Prop := ∀ s, I s → I (x s).2

namespace Keeps

variable {I : σ → Prop} {x : Session σ ε α} {f : α → Session σ ε β}

theorem bind (hx : Keeps I x) (hf : ∀ a, Keeps I (f a)) : Keeps I (x >>= f) := by
  intro s hs
  have hnext := hx s hs
  rcases hr : x s with ⟨e | a, s'⟩
  · rw [bind_error hr]
    rwa [hr] at hnext
  · rw [bind_eq hr rfl]
    rw [hr] at hnext
    exact hf a s' hnext

theorem pure (a : α) : Keeps I (Pure.pure a : Session σ ε α) := fun _ hs => hs

theorem ofExcept (r : Except ε α) : Keeps I (ofExcept r : Session σ ε α) := fun _ hs => hs

theorem failIf (c : Prop) [Decidable c] (e : ε) : Keeps I (failIf c e : Session σ ε PUnit) :=
  fun _ hs => hs

end Keeps

end Session
