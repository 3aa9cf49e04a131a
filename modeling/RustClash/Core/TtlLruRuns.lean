import Mathlib.Data.List.Induction
import RustClash.Core.TtlLru

/-!
# What the cache returns

A cache between any calls of `get` and `set`, whatever the clock says, however long the
values are to live, and in whatever order the hash map is gone through.
-/

namespace RustClash

namespace TtlLru

variable {τ : Type}

/-- An order in which a hash map may be gone through. -/
structure HashOrder where
  order : List String → List String
  perm : ∀ keys, (order keys).Perm keys

/-- A call, with what it reads of the clock and of the order. -/
inductive Call (τ : Type) where
  | get (now : Nat) (key : String)
  | set (start now : Nat) (order : HashOrder) (key : String) (value : τ) (ttl : Option Nat)

/-- When the value of a `set` expires. -/
def expiry (start : Nat) (ttl : Option Nat) : Nat := start + ttl.getD (secs 600)

/-- `last` is the last instant there is: a `set` that would expire later stops before it locks the
map. -/
def perform (last : Nat) (c : TtlLru τ) : Call τ → TtlLru τ
  | .get now key => (c.get now key).2
  | .set start now order key value ttl =>
      if last < expiry start ttl then c else c.set start now order.order key value ttl

def run (last capacity : Nat) (calls : List (Call τ)) : TtlLru τ :=
  calls.foldl (perform last) (new capacity)

/-- What a call writes under a key, and when that expires. -/
def Call.written (last : Nat) (key : String) : Call τ → Option (τ × Nat)
  | .get _ _ => none
  | .set start _ _ k value ttl =>
      if k = key ∧ expiry start ttl ≤ last then some (value, expiry start ttl) else none

/-- What the most recent `set` of a key wrote. -/
def latest (last : Nat) (calls : List (Call τ)) (key : String) : Option (τ × Nat) :=
  calls.reverse.findSome? (Call.written last key)

theorem latest_append (last : Nat) (calls : List (Call τ)) (call : Call τ) (key : String) :
    latest last (calls ++ [call]) key =
      (call.written last key).or (latest last calls key) := by
  rw [latest, List.reverse_append, List.reverse_singleton, List.singleton_append,
    List.findSome?_cons]
  cases call.written last key <;> rfl

/-! ## Capacity -/

theorem capacity_get (c : TtlLru τ) (now : Nat) (key : String) :
    (c.get now key).2.capacity = c.capacity := by
  rw [get]
  split
  · rfl
  · split <;> rfl

theorem size_get_le (c : TtlLru τ) (now : Nat) (key : String) :
    FinMap.size (c.get now key).2.inner ≤ FinMap.size c.inner := by
  rw [get]
  split
  · exact Nat.le_refl _
  · next hl =>
      split
      · have hone := FinMap.size_erase_of_mem (FinMap.mem_of_lookup hl)
        dsimp only
        omega
      · exact Nat.le_refl _

theorem capacity_set (c : TtlLru τ) (start now : Nat) (order : List String → List String)
    (key : String) (value : τ) (ttl : Option Nat) :
    (c.set start now order key value ttl).capacity = c.capacity := by
  rw [set]
  dsimp only
  split
  · split <;> rfl
  · rfl

/-- As many entries are dropped as there are too many, whatever their order. -/
theorem size_set_le (c : TtlLru τ) (start now : Nat) (order : HashOrder) (key : String) (value : τ)
    (ttl : Option Nat) :
    FinMap.size (c.set start now order.order key value ttl).inner ≤ c.capacity := by
  rw [set]
  dsimp only
  split
  · generalize FinMap.retain _ _ = map
    split
    · next hmany =>
        have hperm := order.perm map.keys
        have hnodup : ((order.order map.keys).take (FinMap.size map - c.capacity)).Nodup :=
          (hperm.nodup_iff.mpr map.keys_nodup).sublist (List.take_sublist _ _)
        have hmem : ∀ k ∈ (order.order map.keys).take (FinMap.size map - c.capacity), k ∈ map :=
          fun k hk => AList.mem_keys.mpr (hperm.mem_iff.mp (List.mem_of_mem_take hk))
        have hlen : ((order.order map.keys).take (FinMap.size map - c.capacity)).length =
            FinMap.size map - c.capacity := by
          rw [List.length_take, hperm.length_eq]
          exact Nat.min_eq_left (Nat.sub_le _ _)
        have hsize := FinMap.size_foldl_erase hnodup hmem
        dsimp only
        omega
    · next hfew => exact Nat.not_lt.mp hfew
  · next hfew => exact Nat.not_lt.mp hfew

/-! ## Runs -/

theorem run_append (last capacity : Nat) (calls : List (Call τ)) (call : Call τ) :
    run last capacity (calls ++ [call]) = (run last capacity calls).perform last call := by
  rw [run, List.foldl_append]
  rfl

theorem capacity_run (last capacity : Nat) (calls : List (Call τ)) :
    (run last capacity calls).capacity = max capacity 16 := by
  induction calls using List.reverseRecOn with
  | nil => rfl
  | append_singleton calls call ih =>
      rw [run_append, ← ih]
      cases call with
      | get now key => exact capacity_get _ now key
      | set start now order key value ttl =>
          rw [perform]
          split
          · rfl
          · exact capacity_set _ start now order.order key value ttl

theorem size_run_le (last capacity : Nat) (calls : List (Call τ)) :
    FinMap.size (run last capacity calls).inner ≤ max capacity 16 := by
  induction calls using List.reverseRecOn with
  | nil => exact Nat.zero_le _
  | append_singleton calls call ih =>
      rw [run_append]
      cases call with
      | get now key => exact Nat.le_trans (size_get_le _ now key) ih
      | set start now order key value ttl =>
          rw [perform]
          split
          · exact ih
          · exact Nat.le_trans (size_set_le _ start now order key value ttl)
              (Nat.le_of_eq (capacity_run last capacity calls))

/-- Every entry is what the most recent `set` of its key wrote. -/
theorem entries_run (last capacity : Nat) (calls : List (Call τ)) :
    (run last capacity calls).All fun key value expire =>
      latest last calls key = some (value, expire) := by
  induction calls using List.reverseRecOn with
  | nil => exact All.new capacity
  | append_singleton calls call ih =>
      rw [run_append]
      intro key v expire hl
      rw [latest_append]
      cases call with
      | get now k => exact ih.get now k key v expire hl
      | set start now order k value ttl =>
          rw [perform] at hl
          rw [Call.written]
          split at hl
          · next hlate =>
              rw [if_neg fun h => absurd h.2 (Nat.not_le.mpr hlate)]
              exact ih key v expire hl
          · next hintime =>
              rcases lookup_set hl with ⟨rfl, rfl, rfl⟩ | ⟨hkey, hold⟩
              · rw [if_pos ⟨rfl, Nat.not_lt.mp hintime⟩]
                rfl
              · rw [if_neg fun h => hkey h.1.symm]
                exact ih key v expire hold

/-- After any calls the map is no larger than the capacity, and a `get` returns only what the most
recent `set` of its key wrote, before that has expired. -/
theorem gets_latest (last capacity : Nat) (calls : List (Call τ)) :
    FinMap.size (run last capacity calls).inner ≤ max capacity 16 ∧
      ∀ now key value, ((run last capacity calls).get now key).1 = some value →
        ∃ expire, latest last calls key = some (value, expire) ∧ now ≤ expire := by
  refine ⟨size_run_le last capacity calls, fun now key value h => ?_⟩
  obtain ⟨expire, hlive, hset⟩ := (entries_run last capacity calls).get_some h
  exact ⟨expire, hset, hlive⟩

end TtlLru

end RustClash
