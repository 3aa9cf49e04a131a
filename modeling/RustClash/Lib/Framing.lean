import Mathlib.Data.List.Basic

/-!
# Cutting a stream into frames

A `Framer` looks at the items at hand: it cuts a frame off their front, refuses
them, or waits for more.  What it has once said it says again when more items
are at hand.  `Frames` is a run of a framer over a whole stream.  `feed` is the
same framer between arrivals: it answers each request for a frame from the items
that have arrived by then.  `feed_frames` is the result to use: whatever the
arrivals and requests, the frames are those of the whole stream.
-/

universe u v w z

structure Framer (γ : Type u) (β : Type v) (α : Type w) (ε : Type z) where
  /-- The frame at the front, the state after it and the items behind it. -/
  cut : γ → List β → Except ε (Option (α × γ × List β))
  waits : ∀ g, cut g [] = .ok none
  grows : ∀ {g g' : γ} {l l' : List β} {a : α} (more : List β),
    cut g l = .ok (some (a, g', l')) → cut g (l ++ more) = .ok (some (a, g', l' ++ more))
  fails : ∀ {g : γ} {l : List β} {e : ε} (more : List β),
    cut g l = .error e → cut g (l ++ more) = .error e

/-- The frames `as` come off the front of `l`, one after the other, and `l'` is behind them. -/
inductive Framer.Frames {γ : Type u} {β : Type v} {α : Type w} {ε : Type z}
    (f : Framer γ β α ε) : γ → List β → List α → γ → List β → Prop
| nil : Frames f g l [] g l
| cons :
  f.cut g l = .ok (some (a, g', l')) ->
  Frames f g' l' as g'' l'' ->
  Frames f g l (a :: as) g'' l''

namespace Framer

variable {γ : Type u} {β : Type v} {α : Type w} {ε : Type z} {f : Framer γ β α ε}
  {g g' g'' : γ} {l l' l'' : List β} {as bs : List α} {a : α}

namespace Frames

theorem single (h : f.cut g l = .ok (some (a, g', l'))) : f.Frames g l [a] g' l' := .cons h .nil

theorem append (h : f.Frames g l as g' l') (h' : f.Frames g' l' bs g'' l'') :
    f.Frames g l (as ++ bs) g'' l'' := by
  induction h with
  | nil => exact h'
  | cons hc _ ih => exact .cons hc (ih h')

theorem grow (more : List β) (h : f.Frames g l as g' l') :
    f.Frames g (l ++ more) as g' (l' ++ more) := by
  induction h with
  | nil => exact .nil
  | cons hc _ ih => exact .cons (f.grows more hc) ih

theorem cons_inv (h : f.Frames g l (a :: as) g'' l'') :
    ∃ g' l', f.cut g l = .ok (some (a, g', l')) ∧ f.Frames g' l' as g'' l'' := by
  cases h with
  | cons hc hf => exact ⟨_, _, hc, hf⟩

theorem split (h : f.Frames g l (as ++ bs) g'' l'') :
    ∃ g' l', f.Frames g l as g' l' ∧ f.Frames g' l' bs g'' l'' := by
  induction as generalizing g l with
  | nil => exact ⟨g, l, .nil, h⟩
  | cons a as ih =>
    obtain ⟨g₁, l₁, hc, hf⟩ := h.cons_inv
    obtain ⟨g', l', has, hbs⟩ := ih hf
    exact ⟨g', l', .cons hc has, hbs⟩

/-- Of two runs over one stream the shorter is the beginning of the longer. -/
theorem beginning (h : f.Frames g l as g' l') (h' : f.Frames g l bs g'' l'')
    (hle : as.length ≤ bs.length) : ∃ cs, bs = as ++ cs ∧ f.Frames g' l' cs g'' l'' := by
  induction h generalizing bs with
  | nil => exact ⟨bs, rfl, h'⟩
  | cons hc _ ih =>
    cases h' with
    | nil => exact absurd hle (Nat.not_succ_le_zero _)
    | cons hc' hf' =>
      cases hc.symm.trans hc'
      obtain ⟨cs, rfl, hcs⟩ := ih hf' (Nat.le_of_succ_le_succ hle)
      exact ⟨cs, rfl, hcs⟩

theorem unique (h : f.Frames g l as g' l') (h' : f.Frames g l bs g'' l'')
    (hlen : as.length = bs.length) : as = bs ∧ g' = g'' ∧ l' = l'' := by
  obtain ⟨cs, rfl, hcs⟩ := h.beginning h' (Nat.le_of_eq hlen)
  obtain rfl : cs = [] := by
    rw [List.length_append] at hlen
    exact List.eq_nil_of_length_eq_zero (by omega)
  cases hcs with
  | nil => exact ⟨(List.append_nil _).symm, rfl, rfl⟩

/-- A run to where the framer cuts no more goes as far as any. -/
theorem of_stops (h : f.Frames g l as g' l') (hstops : ∀ found, f.cut g' l' ≠ .ok (some found))
    (h' : f.Frames g l bs g'' l'') : ∃ cs, as = bs ++ cs ∧ f.Frames g'' l'' cs g' l' := by
  rcases Nat.le_total bs.length as.length with hle | hle
  · exact h'.beginning h hle
  · obtain ⟨cs, rfl, hcs⟩ := h.beginning h' hle
    cases hcs with
    | nil => exact ⟨[], by rw [List.append_nil, List.append_nil], .nil⟩
    | cons hc _ => exact absurd hc (hstops _)

/-- So does one to where it waits. -/
theorem of_waits (h : f.Frames g l as g' l') (hwaits : f.cut g' l' = .ok none)
    (h' : f.Frames g l bs g'' l'') : ∃ cs, as = bs ++ cs ∧ f.Frames g'' l'' cs g' l' :=
  h.of_stops (fun found hc => by cases hwaits.symm.trans hc) h'

end Frames

/-! ## Frames between arrivals -/

/-- What happens to the items at hand: some arrive, or a frame is asked for. -/
inductive Event (β : Type v) where
  | arrive (items : List β)
  | take

/-- All that arrives. -/
def Event.arrived : List (Event β) → List β
  | [] => []
  | .arrive items :: events => items ++ arrived events
  | .take :: events => arrived events

/-- The frames that were cut by the way, and what there is in the end. -/
def feed (f : Framer γ β α ε) : List (Event β) → γ → List β → Except ε (List α × γ × List β)
  | [], g, l => .ok ([], g, l)
  | .arrive items :: events, g, l => f.feed events g (l ++ items)
  | .take :: events, g, l =>
      match f.cut g l with
      | .error e => .error e
      | .ok none => f.feed events g l
      | .ok (some (a, g', l')) =>
          match f.feed events g' l' with
          | .error e => .error e
          | .ok (as, r) => .ok (a :: as, r)

theorem feed_frames {events : List (Event β)} (h : f.Frames g (l ++ Event.arrived events) as g' []) :
    ∃ bs cs g₁ l₁, f.feed events g l = .ok (bs, g₁, l₁) ∧ as = bs ++ cs ∧
      f.Frames g₁ l₁ cs g' [] := by
  induction events generalizing g l as with
  | nil =>
    rw [Event.arrived, List.append_nil] at h
    exact ⟨[], as, g, l, rfl, rfl, h⟩
  | cons event events ih =>
    cases event with
    | arrive items =>
      rw [Event.arrived, ← List.append_assoc] at h
      exact ih h
    | take =>
      rw [Event.arrived] at h
      have hnil : l ++ Event.arrived events = [] → f.cut g l = .ok none := by
        intro hl
        rw [(List.append_eq_nil_iff.mp hl).1]
        exact f.waits g
      generalize htotal : l ++ Event.arrived events = total at h hnil
      rw [feed]
      cases hc : f.cut g l with
      | error e =>
        cases h with
        | nil => cases hc.symm.trans (hnil rfl)
        | cons hc' _ =>
          rw [← htotal, f.fails _ hc] at hc'
          cases hc'
      | ok c =>
        rcases c with _ | ⟨a, g₁, l₁⟩
        · exact ih (htotal ▸ h)
        · cases h with
          | nil => cases hc.symm.trans (hnil rfl)
          | cons hc' hf =>
            rw [← htotal, f.grows _ hc] at hc'
            cases hc'
            obtain ⟨bs, cs, g₂, l₂, hfeed, rfl, hcs⟩ := ih hf
            simp only [hfeed]
            exact ⟨a :: bs, cs, g₂, l₂, rfl, rfl, hcs⟩

/-- Requests for as many frames as there are take them all. -/
theorem feed_take (h : f.Frames g l as g' l') :
    f.feed (List.replicate as.length .take) g l = .ok (as, g', l') := by
  induction h with
  | nil => rfl
  | cons hc _ ih =>
    rw [List.length_cons, List.replicate_succ, feed]
    simp only [hc, ih]

end Framer
