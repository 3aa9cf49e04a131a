import RustClash.Lib.Prog

/-!
# Settings that are saved before they are changed

On macOS and under GNOME `set(true)` writes a snapshot of the settings to the undo file each
time it is called, and `set(false)` applies what it finds there.  `recover_orphaned` does so
only if the settings look like those of this client, and deletes the file otherwise.
-/

namespace RustClash

namespace Sysproxy

inductive Call where
  | on
  | off
  | recoverOrphaned
deriving DecidableEq, Repr

/-- A desktop, as far as its settings are concerned. -/
structure Desktop (σ ω S U : Type) where
  effect : ω → σ → σ
  settings : σ → S
  /-- What `load_undo` makes of the undo file. -/
  load : σ → Option U
  /-- What `set(true)` saves of the settings. -/
  snap : S → U
  /-- What may be different after `set(true)`. -/
  Near : S → S → Prop
  fallible : ω → Bool
  /-- The acts that only read, and those of them that read what is saved. -/
  query : ω → Bool
  saves : ω → Bool
  /-- What `recover_orphaned` takes for the settings of this client. -/
  Ours : σ → Prop

namespace Desktop

variable {σ ω ε S U : Type} (D : Desktop σ ω S U) (origin : S)

/-- The settings are those of before, or the undo file has them. -/
def Restorable (w : σ) : Prop :=
  D.load w = some (D.snap origin) ∧ D.Near origin (D.settings w) ∨
    D.load w = none ∧ D.settings w = origin

/-- No read of what `set(true)` saves fails.  Otherwise an act fails only where it has nothing to
change, and a query only where the settings are those of before. -/
def allowed (k : Call) (w : σ) (o : ω) (ok : Bool) : Prop :=
  ok = false → D.fallible o = true ∧ if k = .on then D.saves o = false
    else D.effect o w = w ∧ (k = .recoverOrphaned → D.query o = true → D.settings w = origin)

def contract (k : Call) : Contract σ ω where
  allowed := D.allowed origin k
  guarantee w o ok := D.Restorable origin (Prog.after D.effect o ok w)

/-- `set(true)` is called over the settings of before, and `recover_orphaned` finds them or
those of this client. -/
def Callable : Call → σ → Prop
  | .on, w => D.settings w = origin
  | .off, _ => True
  | .recoverOrphaned, w => D.Ours w ∨ D.settings w = origin

def Result (k : Call) (w : σ) : Prop := D.Restorable origin w ∧ (k ≠ .on → D.settings w = origin)

/-- Nothing is lost with the process. -/
def SettledSteps {α : Type} (M : Machine σ ω ε α Call) :
    Machine.State σ ω ε α Call → Machine.Event Call → Machine.State σ ω ε α Call → Prop :=
  M.SettledSteps (D.contract origin) (D.Callable origin) fun _ => True

variable {D} {origin} {k : Call} {w : σ} {o : ω}

/-- Acts that take settings back do not fail, or might as well not have. -/
theorem after_eq (hk : k ≠ .on) {ok : Bool} (h : (D.contract origin k).allowed w o ok) :
    Prog.after D.effect o ok w = D.effect o w := by
  cases ok with
  | true => rfl
  | false =>
      have h := (h rfl).2
      rw [if_neg hk] at h
      exact h.1.symm

theorem safe_perform_back (hk : k ≠ .on) {Q : Unit → σ → Prop} {E : ε → σ → Prop}
    (hg : D.Restorable origin (D.effect o w)) (hQ : Q () (D.effect o w)) :
    (Prog.perform o : Prog σ ω ε Unit).Safe D.effect (D.contract origin k) Q E w := by
  intro ok hok
  have hw := after_eq hk hok
  refine ⟨?_, hw ▸ hQ⟩
  show D.Restorable origin _
  rw [hw]
  exact hg

theorem safe_perform_sure {Q : Unit → σ → Prop} {E : ε → σ → Prop} (ho : D.fallible o = false)
    (hg : D.Restorable origin (D.effect o w)) (hQ : Q () (D.effect o w)) :
    (Prog.perform o : Prog σ ω ε Unit).Safe D.effect (D.contract origin k) Q E w := by
  intro ok hok
  cases ok with
  | true => exact ⟨hg, hQ⟩
  | false =>
      have hf := (hok rfl).1
      rw [ho] at hf
      cases hf

/-- Calls that are safe where they are made take the settings back. -/
theorem restored_run {α : Type} {M : Machine σ ω ε α Call} (heffect : M.effect = D.effect)
    (hreset : ∀ w, M.reset w = w)
    (hbody : ∀ k w, D.Restorable origin w → D.Callable origin k w →
      (M.body k).Safe D.effect (D.contract origin k) (fun _ => D.Result origin k)
        (fun _ => D.Result origin k) w)
    {es : List (Machine.Event Call)} {st : Machine.State σ ω ε α Call}
    (h : Run (D.SettledSteps origin M) (Machine.start w) es st) (hw : D.Restorable origin w)
    {clean : Bool} {r : Except ε α} (hend : st.Ended k clean r) (hk : k ≠ .on) :
    D.settings st.world = origin := by
  obtain ⟨hup, -⟩ := Machine.invariant_run (I := D.Restorable origin)
    (Q := fun k _ => D.Result origin k) (E := fun k _ => D.Result origin k)
    (heffect ▸ hbody) (fun _ _ _ h => h.1) (fun _ _ _ h => h.1)
    (fun _ _ _ _ hg _ => heffect ▸ hg) (fun s hs _ => by rw [hreset]; exact ⟨hs, hs⟩) h hw hw
  have hres := hup.ended hend
  cases r with
  | ok a => exact hres.2 hk
  | error e => exact hres.2 hk

/-- Calls whose acts succeed, up to a `set(false)`. -/
theorem run_of_sure {α : Type} {M : Machine σ ω ε α Call} {es : List (Machine.Event Call)}
    {st st' : Machine.State σ ω ε α Call} (h : es.foldlM M.step st = some st')
    (hes : ∀ e ∈ es, e ∈ [.go true, .ret, .call .off]) : Run (D.SettledSteps origin M) st es st' := by
  induction es generalizing st with
  | nil =>
      cases h
      exact .nil
  | cons e es ih =>
      rw [List.foldlM_cons] at h
      obtain ⟨st₁, hs, h⟩ := Option.bind_eq_some_iff.mp h
      obtain ⟨he, hes⟩ := List.forall_mem_cons.mp hes
      refine .cons ⟨hs, ?_⟩ (ih h hes)
      simp only [List.mem_cons, List.not_mem_nil, or_false] at he
      rcases he with rfl | rfl | rfl
      · exact fun _ _ _ => by simp [contract, allowed]
      · exact trivial
      · exact trivial

end Desktop

end Sysproxy

end RustClash
