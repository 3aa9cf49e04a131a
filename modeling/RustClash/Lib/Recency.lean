import Mathlib.Data.List.Basic

/-!
# Recency lists

A recency list keeps its elements in order of their last use, most recent
first.  `uses` is the sequence of all uses so far, most recent first, so that
`uses.idxOf a` counts the uses since the last one of `a`.  `Recent uses l` says
that `l` is in that order.  The last element of such a list is the one whose
last use is the oldest.
-/

namespace Recency

variable {α : Type*} [DecidableEq α]

/-- A use of `a`: it moves to the front, if it is listed at all. -/
def touch (a : α) (l : List α) : List α := if a ∈ l then a :: l.erase a else l

theorem touch_perm (a : α) (l : List α) : (touch a l).Perm l := by
  simp only [touch]
  split
  · exact (List.perm_cons_erase ‹_›).symm
  · exact .refl _

/-- The elements of `l` stand in order of their last use. -/
def Recent (uses l : List α) : Prop := l.Pairwise fun a b => uses.idxOf a < uses.idxOf b

theorem Recent.nil (uses : List α) : Recent uses [] := List.Pairwise.nil

theorem Recent.sublist {uses l l' : List α} (h : Recent uses l) (hs : l'.Sublist l) :
    Recent uses l' := List.Pairwise.sublist hs h

/-- A use of an element that is not listed keeps the order. -/
theorem Recent.use_of_notMem {uses l : List α} {a : α} (h : Recent uses l) (ha : a ∉ l) :
    Recent (a :: uses) l := by
  refine List.Pairwise.imp_of_mem ?_ h
  intro b c hb hc hbc
  have hab : a ≠ b := fun e => ha (e ▸ hb)
  have hac : a ≠ c := fun e => ha (e ▸ hc)
  rw [List.idxOf_cons_ne _ hab, List.idxOf_cons_ne _ hac]
  omega

/-- The element used last may be put in front. -/
theorem Recent.cons {uses l : List α} {a : α} (h : Recent uses l) (ha : a ∉ l) :
    Recent (a :: uses) (a :: l) := by
  refine List.Pairwise.cons ?_ (h.use_of_notMem ha)
  intro b hb
  have hab : a ≠ b := fun e => ha (e ▸ hb)
  rw [List.idxOf_cons_self, List.idxOf_cons_ne _ hab]
  omega

theorem Recent.nodup {uses l : List α} (h : Recent uses l) : l.Nodup :=
  List.Pairwise.imp (fun hab e => by subst e; exact Nat.lt_irrefl _ hab) h

theorem Recent.touch {uses l : List α} (h : Recent uses l) (a : α) :
    Recent (a :: uses) (touch a l) := by
  simp only [Recency.touch]
  split
  · exact (h.sublist List.erase_sublist).cons h.nodup.not_mem_erase
  · exact h.use_of_notMem ‹_›

/-- The last element is the one whose last use is the oldest. -/
theorem Recent.getLast {uses l : List α} (h : Recent uses l) {a : α} (hl : l.getLast? = some a) :
    ∀ b ∈ l, b ≠ a → uses.idxOf b < uses.idxOf a := by
  intro b hb hba
  obtain ⟨init, rfl⟩ := List.getLast?_eq_some_iff.mp hl
  have hb' : b ∈ init := by
    rcases List.mem_append.mp hb with hb | hb
    · exact hb
    · exact absurd (List.mem_singleton.mp hb) hba
  exact (List.pairwise_append.mp h).2.2 b hb' a (List.mem_singleton.mpr rfl)

end Recency
