import RustClash.Lib.FinMap

/-!
# The expiring cache

`TtlLru` of `utils.rs`.  An entry is returned until its expiry time has passed.
A `set` that leaves more entries than the capacity first drops the expired ones
and then, if there still are too many, the first ones in iteration order.  The
clock readings and the iteration order of the hash map are arguments.
-/

namespace RustClash

/-- `Duration::from_secs`, in nanoseconds. -/
def secs (n : Nat) : Nat := n * 1000000000

structure TtlLru (τ : Type) where
  inner : FinMap String (τ × Nat)
  capacity : Nat

namespace TtlLru

variable {τ : Type}

def new (capacity : Nat) : TtlLru τ := ⟨∅, max capacity 16⟩

def get (c : TtlLru τ) (now : Nat) (key : String) : Option τ × TtlLru τ :=
  match c.inner.lookup key with
  | none => (none, c)
  | some (value, expire) =>
      if now > expire then (none, { c with inner := c.inner.erase key })
      else (some value, c)

/-- `set`.  The clock is read once for the expiry time and once more, at `now`,
when the map has to shrink. -/
def set (c : TtlLru τ) (start now : Nat) (order : List String → List String)
    (key : String) (value : τ) (ttl : Option Nat) : TtlLru τ :=
  let expire := start + ttl.getD (secs 600)
  let map := c.inner.insert key (value, expire)
  if FinMap.size map > c.capacity then
    let map := FinMap.retain (fun _ e => now ≤ e.2) map
    if FinMap.size map > c.capacity then
      let extra := FinMap.size map - c.capacity
      let keys := (order map.keys).take extra
      { c with inner := keys.foldl (fun m k => m.erase k) map }
    else { c with inner := map }
  else { c with inner := map }

/-! ## What the entries are -/

/-- Every entry, by its key, value and expiry time. -/
def All (P : String → τ → Nat → Prop) (c : TtlLru τ) : Prop :=
  ∀ key value expire, c.inner.lookup key = some (value, expire) → P key value expire

variable {P : String → τ → Nat → Prop} {c : TtlLru τ}

theorem All.new (capacity : Nat) : (TtlLru.new capacity).All P := by
  intro key value expire h
  cases h

/-- What is returned is the value of an entry that did not expire. -/
theorem All.get_some (h : c.All P) {now : Nat} {key : String} {value : τ}
    (hv : (c.get now key).1 = some value) : ∃ expire, now ≤ expire ∧ P key value expire := by
  rw [get] at hv
  split at hv
  · cases hv
  · next value' expire hl =>
      split at hv
      · cases hv
      · next hlive =>
          cases hv
          exact ⟨expire, Nat.not_lt.mp hlive, h key _ expire hl⟩

theorem All.get (h : c.All P) (now : Nat) (key : String) : (c.get now key).2.All P := by
  rw [TtlLru.get]
  split
  · exact h
  · split
    · intro key' value expire hl
      rw [FinMap.lookup_erase_eq] at hl
      exact h key' value expire (Option.ite_none_left_eq_some.mp hl).2
    · exact h

/-- An entry after a `set` is the new one, or was there under another key. -/
theorem lookup_set {start now : Nat} {order : List String → List String} {key k : String}
    {value v : τ} {ttl : Option Nat} {expire : Nat}
    (h : (c.set start now order key value ttl).inner.lookup k = some (v, expire)) :
    (k = key ∧ v = value ∧ expire = start + ttl.getD (secs 600)) ∨
      (k ≠ key ∧ c.inner.lookup k = some (v, expire)) := by
  have hinsert : (c.inner.insert key (value, start + ttl.getD (secs 600))).lookup k =
      some (v, expire) := by
    rw [TtlLru.set] at h
    split at h
    · dsimp only at h
      split at h
      · exact FinMap.lookup_of_retain (FinMap.lookup_of_foldl_erase h)
      · exact FinMap.lookup_of_retain h
    · exact h
  rw [FinMap.lookup_insert_eq] at hinsert
  split at hinsert
  · next hkey =>
      cases hinsert
      exact .inl ⟨hkey, rfl, rfl⟩
  · next hkey => exact .inr ⟨hkey, hinsert⟩

theorem All.set (h : c.All P) {start : Nat} {key : String} {value : τ} {ttl : Option Nat}
    (hnew : P key value (start + ttl.getD (secs 600))) (now : Nat)
    (order : List String → List String) : (c.set start now order key value ttl).All P := by
  intro k v expire hl
  rcases lookup_set hl with ⟨rfl, rfl, rfl⟩ | ⟨-, hold⟩
  · exact hnew
  · exact h k v expire hold

end TtlLru

end RustClash
