import RustClash.Lib.Checked
import RustClash.Lib.Loop
import RustClash.Lib.Session

/-!
# Loops and sessions whose passes are checked

A pass that faults ends its loop.  The passes of a checked loop are those of a loop without
faults, so it ends where that one ends, or in a fault.

A `CheckedSession` may fault, and otherwise answers as a session does.  `Is` says that it is
a given session and does not fault; it is shown part by part.
-/

universe u v

/-! ## Loops -/

namespace Checked

variable {σ : Type u} {ρ : Type u}

/-- What a checked pass is to its loop. -/
def pass : Checked (σ ⊕ ρ) → σ ⊕ Checked ρ
  | .ok (.inl s) => .inl s
  | .ok (.inr r) => .inr (.ok r)
  | .error e => .inr (.error e)

theorem pass_inl {x : Checked (σ ⊕ ρ)} {s : σ} (h : x.pass = .inl s) : x = .ok (.inl s) := by
  rcases x with e | s' | r
  · cases h
  · cases h
    rfl
  · cases h

theorem pass_inr {x : Checked (σ ⊕ ρ)} {r : Checked ρ} (h : x.pass = .inr r) :
    (∃ e, x = .error e ∧ r = .error e) ∨ ∃ r', x = .ok (.inr r') ∧ r = .ok r' := by
  rcases x with e | s' | r'
  · cases h
    exact .inl ⟨e, rfl, rfl⟩
  · cases h
  · cases h
    exact .inr ⟨r', rfl, rfl⟩

end Checked

namespace Loop

variable {σ : Type u} {ρ : Type u}

/-- The loop `l`, with passes that may fault. -/
def checked (l : Loop σ ρ) (body : σ → Checked (σ ⊕ ρ))
    (same : ∀ s r, body s = .ok r → l.body s = r) : Loop σ (Checked ρ) where
  body s := (body s).pass
  measure := l.measure
  decreases := fun {_ _} h => l.decreases (same _ _ (Checked.pass_inl h))

variable {l : Loop σ ρ} {body : σ → Checked (σ ⊕ ρ)}
  {same : ∀ s r, body s = .ok r → l.body s = r}

/-- A property of the result that the passes of the checked loop hand on, and that a fault has. -/
theorem checked_rule (same : ∀ s r, body s = .ok r → l.body s = r) {P : σ → Checked ρ → Prop}
    (hround : ∀ s s' r, body s = .ok (.inl s') → P s' r → P s r)
    (hexit : ∀ s r, body s = .ok (.inr r) → P s (.ok r))
    (hfault : ∀ s e, body s = .error e → P s (.error e)) (s : σ) :
    P s ((l.checked body same).run s) := by
  refine rule (l := l.checked body same) (P := P) ?_ ?_ s
  · intro s s' r hb ih
    exact hround s s' r (Checked.pass_inl hb) ih
  · intro s r hb
    rcases Checked.pass_inr hb with ⟨e, he, rfl⟩ | ⟨r', hr, rfl⟩
    · exact hfault s e he
    · exact hexit s r' hr

/-- Where the checked loop ends without a fault. -/
theorem checked_run {s : σ} {r : ρ} (h : (l.checked body same).run s = .ok r) : l.run s = r := by
  refine checked_rule same (P := fun s x => ∀ r, x = .ok r → l.run s = r)
    ?_ ?_ ?_ s r h
  · intro s s' x hb ih r hx
    rw [run_inl (same s _ hb)]
    exact ih r hx
  · rintro s r hb _ ⟨⟩
    exact run_inr (same s _ hb)
  · rintro s e hb r ⟨⟩

/-- If no pass faults where `I` holds, and passes keep `I`, the loop does not fault. -/
theorem checked_runs {I : σ → Prop} (hruns : ∀ s, I s → Checked.Runs (body s))
    (hkeep : ∀ s s', I s → body s = .ok (.inl s') → I s') {s : σ} (hs : I s) :
    (l.checked body same).run s = .ok (l.run s) := by
  have hrun : Checked.Runs ((l.checked body same).run s) := by
    refine checked_rule same (P := fun s x => I s → x.Runs) ?_ ?_ ?_ s hs
    · intro s s' x hb ih hs
      exact ih (hkeep s s' hs hb)
    · intro s r hb hs
      exact Checked.runs_ok r
    · intro s e hb hs
      have h := hruns s hs
      rw [hb] at h
      exact absurd h (Checked.not_runs_error e)
  obtain ⟨r, hr⟩ := hrun
  rw [hr, checked_run hr]

end Loop

/-! ## Sessions -/

namespace Checked

variable {α β : Type u}

/-- `xs.copy_within(i..j, dest)`. -/
def copyWithin (xs : List α) (i j dest : Nat) : Checked (List α) :=
  if i ≤ j ∧ j ≤ xs.length ∧ dest ≤ xs.length - (j - i) then
    .ok (overwrite xs dest ((xs.take j).drop i))
  else .error .copy

/-- A slice as an array of `n`. -/
def array (n : Nat) (xs : List α) : Checked (List α) :=
  if xs.length = n then .ok xs else .error .copy

theorem copyWithin_ok {xs : List α} {i j dest : Nat} (h : i ≤ j) (hj : j ≤ xs.length)
    (hdest : dest + (j - i) ≤ xs.length) :
    copyWithin xs i j dest = .ok (overwrite xs dest ((xs.take j).drop i)) :=
  if_pos ⟨h, hj, by omega⟩

theorem array_ok {n : Nat} {xs : List α} (h : xs.length = n) : array n xs = .ok xs := if_pos h

theorem bind_ok {x : Checked α} {f : α → Checked β} {b : β} (h : x >>= f = .ok b) :
    ∃ a, x = .ok a ∧ f a = .ok b := by
  rcases x with e | a
  · cases h
  · exact ⟨a, rfl, h⟩

theorem sub_inv {a b c : Nat} (h : sub a b = .ok c) : b ≤ a ∧ c = a - b := by
  rw [sub] at h
  split at h
  · next hle =>
    cases h
    exact ⟨hle, rfl⟩
  · cases h

/-! ## Options -/

/-- A checked computation with an optional result runs part by part. -/
theorem optionT_bind {x : OptionT Checked α} {y : Option α} {f : α → OptionT Checked β}
    {g : α → Option β} (hx : x.run = .ok y) (hf : ∀ a, (f a).run = .ok (g a)) :
    (x >>= f).run = .ok (y >>= g) := by
  rw [OptionT.run_bind, hx]
  cases y with
  | none => rfl
  | some a => exact hf a

end Checked

def CheckedSession (σ ε α : Type u) := σ → Checked (Except ε α × σ)

namespace CheckedSession

variable {σ ε α β : Type u}

instance : Monad (CheckedSession σ ε) where
  pure a := fun s => .ok (.ok a, s)
  bind x f := fun s => do
    match ← x s with
    | (.ok a, s') => f a s'
    | (.error e, s') => .ok (.error e, s')

/-- A computation that does not look at the state. -/
def lift (x : Checked α) : CheckedSession σ ε α := fun s => (.ok ·, s) <$> x

def ofSession (x : Session σ ε α) : CheckedSession σ ε α := fun s => .ok (x s)

/-- The session `y`, without a fault. -/
def Is (x : CheckedSession σ ε α) (y : Session σ ε α) : Prop := ∀ s, x s = .ok (y s)

namespace Is

variable {x : CheckedSession σ ε α} {y : Session σ ε α} {f : α → CheckedSession σ ε β}
  {g : α → Session σ ε β}

/-- What follows has to be right after the results that there are. -/
theorem bind_of (hx : Is x y) (hf : ∀ s a s', y s = (.ok a, s') → f a s' = .ok (g a s')) :
    Is (x >>= f) (y >>= g) := by
  intro s
  show (x s >>= fun r =>
    match r with | (.ok a, s') => f a s' | (.error e, s') => .ok (.error e, s')) = _
  rw [hx s, Checked.ok_bind]
  rcases hy : y s with ⟨e | a, s'⟩
  · rw [Session.bind_error hy]
  · rw [Session.bind_eq hy rfl]
    exact hf s a s' hy

theorem bind (hx : Is x y) (hf : ∀ a, Is (f a) (g a)) : Is (x >>= f) (y >>= g) :=
  hx.bind_of fun _ a s' _ => hf a s'

theorem pure (a : α) : Is (Pure.pure a : CheckedSession σ ε α) (Pure.pure a) := fun _ => rfl

theorem ofSession (y : Session σ ε α) : Is (ofSession y) y := fun _ => rfl

end Is

/-- A step that does not fault leaves the state alone. -/
theorem lift_bind {a : α} {f : α → CheckedSession σ ε β} :
    (lift (.ok a) >>= f : CheckedSession σ ε β) = f a := rfl

end CheckedSession
