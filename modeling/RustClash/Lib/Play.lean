import RustClash.Lib.Script

/-!
# Scripts over a connection

`play` does a script on the state of a connection: `perform` is what an act does, and `take`
reads.  `reading` is what the script makes of its input alone, when all its acts are taken, and
what it leaves of it.  If a connection keeps an account of what is still to be read (`Plays`),
a script that is played there leaves what its reading leaves, however its input arrives.
-/

namespace Script

variable {A B ε σ : Type} {α β : Type}

def play (perform : A → σ → Except ε Unit × σ) (take : Nat → σ → Except ε (List B) × σ) :
    Script A B ε α → σ → Except ε α × σ
  | done r, s => (r, s)
  | act a k, s =>
      match perform a s with
      | (.error e, s) => (.error e, s)
      | (.ok (), s) => k.play perform take s
  | read n k, s =>
      match take n s with
      | (.error e, s) => (.error e, s)
      | (.ok bs, s) => (k bs).play perform take s

/-- The result over an input, and the rest of it; `none` where the input is too short. -/
def reading : Script A B ε α → List B → Option (Except ε α × List B)
  | done r, bs => some (r, bs)
  | act _ k, bs => k.reading bs
  | read n k, bs => if bs.length < n then none else (k (bs.take n)).reading (bs.drop n)

section

variable {s : Script A B ε α} {f : α → Script A B ε β} {bs rest : List B} {a : α} {e : ε}

@[simp] theorem reading_perform {x : A} :
    (perform x : Script A B ε Unit).reading bs = some (.ok (), bs) := rfl

theorem reading_readExact {n : Nat} : (readExact n : Script A B ε (List B)).reading bs =
    if bs.length < n then none else some (.ok (bs.take n), bs.drop n) := rfl

/-- A read of what the input begins with. -/
theorem reading_readExact_append (front : List B) :
    (readExact front.length : Script A B ε (List B)).reading (front ++ rest) =
      some (.ok front, rest) := by
  rw [reading_readExact, if_neg (by rw [List.length_append]; omega), List.take_left,
    List.drop_left]

theorem reading_bind : ∀ {s : Script A B ε α} {bs : List B}, (s >>= f).reading bs =
    match s.reading bs with
    | some (.ok a, rest) => (f a).reading rest
    | some (.error e, rest) => some (.error e, rest)
    | none => none
  | done (.ok _), _ => rfl
  | done (.error _), _ => rfl
  | act _ k, _ => reading_bind (s := k)
  | read n k, bs => by
      show (if bs.length < n then none else ((k (bs.take n)).bind f).reading (bs.drop n)) = _
      rw [reading]
      split
      · rfl
      · exact reading_bind (s := k (bs.take n))

/-- A script goes on with what the part before it leaves. -/
theorem reading_bind_ok (h : s.reading bs = some (.ok a, rest)) :
    (s >>= f).reading bs = (f a).reading rest := by
  rw [reading_bind, h]

/-- A success goes through both parts. -/
theorem reading_bind_eq_ok {b : β} {rest' : List B}
    (h : (s >>= f).reading bs = some (.ok b, rest')) :
    ∃ a rest, s.reading bs = some (.ok a, rest) ∧ (f a).reading rest = some (.ok b, rest') := by
  rw [reading_bind] at h
  split at h
  · next a rest hs => exact ⟨a, rest, hs, h⟩
  · cases h
  · cases h

theorem reading_readExact_eq_ok {n : Nat} {front : List B}
    (h : (readExact n : Script A B ε (List B)).reading bs = some (.ok front, rest)) :
    front.length = n ∧ bs = front ++ rest := by
  rw [reading_readExact] at h
  split at h
  · cases h
  · next hn =>
      cases h
      exact ⟨List.length_take_of_le (Nat.le_of_not_lt hn), (List.take_append_drop n bs).symm⟩

end

/-! ## Connections that keep account -/

/-- What an act does leaves the input alone, and a read takes the front of it.  `J` is kept. -/
structure Plays (perform : A → σ → Except ε Unit × σ) (take : Nat → σ → Except ε (List B) × σ)
    (input : σ → List B) (J : σ → Prop) : Prop where
  acts : ∀ a s, J s → input (perform a s).2 = input s ∧ J (perform a s).2
  reads : ∀ n s, J s → n ≤ (input s).length →
    ∃ s', take n s = (.ok ((input s).take n), s') ∧ input s' = (input s).drop n ∧ J s'
  short : ∀ n s, J s → (input s).length < n → ∃ e, (take n s).1 = .error e

variable {perform : A → σ → Except ε Unit × σ} {take : Nat → σ → Except ε (List B) × σ}
  {input : σ → List B} {J : σ → Prop} {a : α}

/-- A script that succeeds has read what its reading takes. -/
theorem reading_of_play (h : Plays perform take input J) : ∀ {s : Script A B ε α} {t t' : σ},
    J t → s.play perform take t = (.ok a, t') →
      s.reading (input t) = some (.ok a, input t') ∧ J t'
  | done _, t, t', hJ, hplay => by
      cases hplay
      exact ⟨rfl, hJ⟩
  | act x k, t, t', hJ, hplay => by
      obtain ⟨hinput, hJ'⟩ := h.acts x t hJ
      rw [play] at hplay
      split at hplay
      · cases hplay
      · next t₁ hx =>
          rw [hx] at hinput hJ'
          dsimp only at hinput hJ'
          rw [reading, ← hinput]
          exact reading_of_play h hJ' hplay
  | read n k, t, t', hJ, hplay => by
      rw [reading]
      rw [play] at hplay
      by_cases hn : (input t).length < n
      · obtain ⟨e, he⟩ := h.short n t hJ hn
        split at hplay
        · cases hplay
        · next hok =>
            rw [hok] at he
            cases he
      · obtain ⟨t₁, htake, hinput, hJ'⟩ := h.reads n t hJ (Nat.le_of_not_lt hn)
        rw [htake] at hplay
        rw [if_neg hn, ← hinput]
        exact reading_of_play h hJ' hplay

/-- Where every act is taken, a script comes to what its reading says. -/
theorem play_of_reading (h : Plays perform take input J)
    (hacts : ∀ x t, J t → (perform x t).1 = .ok ()) :
    ∀ {s : Script A B ε α} {t : σ} {r : Except ε α} {rest : List B}, J t →
      s.reading (input t) = some (r, rest) →
        ∃ t', s.play perform take t = (r, t') ∧ input t' = rest ∧ J t'
  | done _, t, _, _, hJ, hreading => by
      cases hreading
      exact ⟨t, rfl, rfl, hJ⟩
  | act x k, t, r, rest, hJ, hreading => by
      obtain ⟨hinput, hJ'⟩ := h.acts x t hJ
      have hok := hacts x t hJ
      rw [play]
      rcases hx : perform x t with ⟨_ | _, t₁⟩
      · rw [hx] at hok
        cases hok
      · rw [hx] at hinput hJ'
        rw [reading, ← hinput] at hreading
        exact play_of_reading h hacts hJ' hreading
  | read n k, t, r, rest, hJ, hreading => by
      rw [reading] at hreading
      split at hreading
      · cases hreading
      · next hn =>
          obtain ⟨t₁, htake, hinput, hJ'⟩ := h.reads n t hJ (Nat.le_of_not_lt hn)
          rw [play, htake]
          rw [← hinput] at hreading
          exact play_of_reading h hacts hJ' hreading

end Script
