import Mathlib.Data.List.Basic

/-!
# Lists in which the last item alone is unfinished

Tasks that are started one after the other, each when the one before it is done, are kept in
the order of their start.  `Latest done` says that all but the last are done.
-/

universe u

variable {α : Type u} {done : α → Prop} {l : List α} {i : Nat} {a b : α}

/-- Every item but the last is done. -/
def Latest (done : α → Prop) (l : List α) : Prop :=
  ∀ (i : Nat) (a : α), l[i]? = some a → i + 1 < l.length → done a

namespace Latest

theorem nil : Latest done [] := by
  intro i a hi
  cases hi

/-- An item may be added when all others are done. -/
theorem concat (h : ∀ a ∈ l, done a) : Latest done (l ++ [b]) := by
  intro i a hi hlt
  rw [List.length_append, List.length_singleton, Nat.succ_lt_succ_iff] at hlt
  rw [List.getElem?_append_left hlt] at hi
  exact h a (List.mem_of_getElem? hi)

theorem set (h : Latest done l) (hi : l[i]? = some a) (hab : done a → done b) :
    Latest done (l.set i b) := by
  intro k c hk hlt
  rw [List.length_set] at hlt
  rw [List.getElem?_set] at hk
  split at hk
  · next hik =>
      subst hik
      split at hk
      · cases hk
        exact hab (h i a hi hlt)
      · cases hk
  · exact h k c hk hlt

/-- What is not done stands at the end. -/
theorem length_eq (h : Latest done l) (hi : l[i]? = some a) (ha : ¬ done a) :
    i + 1 = l.length := by
  obtain ⟨hlt, -⟩ := List.getElem?_eq_some_iff.mp hi
  refine Nat.le_antisymm hlt (Nat.not_lt.mp fun hlt' => ?_)
  exact ha (h i a hi hlt')

theorem getLast? (h : Latest done l) (hi : l[i]? = some a) (ha : ¬ done a) :
    l.getLast? = some a := by
  rw [List.getLast?_eq_getElem?, ← h.length_eq hi ha, Nat.add_sub_cancel, hi]

/-- What is not done is replaced at the end. -/
theorem getLast?_set (h : Latest done l) (hi : l[i]? = some a) (ha : ¬ done a) :
    (l.set i b).getLast? = some b := by
  obtain ⟨hlt, -⟩ := List.getElem?_eq_some_iff.mp hi
  rw [List.getLast?_eq_getElem?, List.length_set, ← h.length_eq hi ha, Nat.add_sub_cancel,
    List.getElem?_set_self hlt]

/-- If the last item is done, all are. -/
theorem forall_done (h : Latest done l) (hlast : ∀ a, l.getLast? = some a → done a) :
    ∀ a ∈ l, done a := by
  intro a ha
  obtain ⟨i, hi⟩ := List.mem_iff_getElem?.mp ha
  by_contra hn
  exact hn (hlast a (h.getLast? hi hn))

end Latest

/-- The last item after one of the list was replaced: the new one, or the one that was. -/
theorem getLast?_of_set (h : (l.set i b).getLast? = some a) :
    a = b ∧ i + 1 = l.length ∨ l.getLast? = some a := by
  rw [List.getLast?_eq_getElem?, List.length_set, List.getElem?_set] at h
  split at h
  · next hi =>
      split at h
      · next hlt => exact .inl ⟨(Option.some.inj h).symm, by omega⟩
      · cases h
  · rw [List.getLast?_eq_getElem?]
    exact .inr h
