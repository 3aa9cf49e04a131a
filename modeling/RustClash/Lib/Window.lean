import Mathlib.Data.List.Basic

/-!
# A window into a fixed buffer

`Window β cap` is a buffer of `cap` items with a start and an end cursor: the
items between the cursors, where they begin, and that they fit.  Items are
consumed at the start and pushed at the end; `compact` moves them to the front
when the room behind them is too small.
-/

universe u

structure Window (β : Type u) (cap : Nat) where
  start : Nat
  data : List β
  bound : start + data.length ≤ cap

namespace Window

variable {β : Type u} {cap : Nat} (w : Window β cap)

def empty : Window β cap := ⟨0, [], Nat.zero_le _⟩

def length : Nat := w.data.length

/-- The room behind the data. -/
def room : Nat := cap - (w.start + w.data.length)

def compact (need : Nat) : Window β cap :=
  if w.data.isEmpty then empty
  else if w.start + w.data.length + need ≤ cap then w
  else ⟨0, w.data, by have := w.bound; omega⟩

def push (d : List β) (h : d.length ≤ w.room) : Window β cap :=
  ⟨w.start, w.data ++ d, by
    have := w.bound
    rw [List.length_append]
    simp only [room] at h
    omega⟩

/-- Drop the first `n` items. -/
def consume (n : Nat) : Window β cap :=
  ⟨w.start + min n w.data.length, w.data.drop n, by
    have := w.bound
    rw [List.length_drop]
    omega⟩

@[simp] theorem push_data (d : List β) (h : d.length ≤ w.room) :
    (w.push d h).data = w.data ++ d := rfl

@[simp] theorem consume_data (n : Nat) : (w.consume n).data = w.data.drop n := rfl

@[simp] theorem compact_data (need : Nat) : (w.compact need).data = w.data := by
  simp only [compact]
  split
  · next h => rw [List.isEmpty_iff.mp h]; rfl
  · split <;> rfl

/-- A window that is not full has room for an item once it is compacted. -/
theorem room_compact_pos (h : w.data.length < cap) : 0 < (w.compact 1).room := by
  simp only [compact, room]
  split
  · simp only [empty, List.length_nil]
    omega
  · split
    · omega
    · simp only
      omega

end Window
