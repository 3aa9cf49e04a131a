import Mathlib.Data.List.AList

/-!
# Finite maps and mutually inverse pairs of them

A `FinMap` is an association list without repeated keys.  Two tables that index
one set of records from both ends are related by `Inverse`: the forward map
takes a record's owner to its slot, the backward map takes the slot to the
record.  The lemmas say which pairs of updates keep the relation: a fresh owner
may take a fresh slot, a slot may be rewritten by a record of the same owner,
and both ends of one record may be removed together.
-/

universe u v w

/-- A finite map from `α` to `β`. -/
abbrev FinMap (α : Type u) (β : Type v) := AList fun _ : α => β

namespace FinMap

variable {α : Type u} {β : Type v}

/-! ## Size -/

/-- The number of keys. -/
def size (m : FinMap α β) : Nat := m.keys.length

/-- The entries that meet a condition. -/
def retain (p : α → β → Bool) (m : FinMap α β) : FinMap α β where
  entries := m.entries.filter fun e => p e.1 e.2
  nodupKeys := m.nodupKeys.sublist List.filter_sublist

section DecidableKeys

variable [DecidableEq α]

theorem lookup_insert_eq (m : FinMap α β) (a c : α) (b : β) :
    (m.insert a b).lookup c = if c = a then some b else m.lookup c := by
  by_cases h : c = a
  · subst h
    simp
  · rw [AList.lookup_insert_ne h, if_neg h]

theorem lookup_erase_eq (m : FinMap α β) (a c : α) :
    (m.erase a).lookup c = if c = a then none else m.lookup c := by
  by_cases h : c = a
  · subst h
    simp
  · rw [AList.lookup_erase_ne h, if_neg h]

theorem mem_of_lookup {m : FinMap α β} {a : α} {b : β} (h : m.lookup a = some b) : a ∈ m :=
  AList.lookup_isSome.mp (by rw [h]; rfl)

theorem exists_lookup_of_mem {m : FinMap α β} {a : α} (h : a ∈ m) :
    ∃ b, m.lookup a = some b :=
  Option.isSome_iff_exists.mp (AList.lookup_isSome.mpr h)

theorem size_insert_of_notMem {m : FinMap α β} {a : α} (b : β) (h : a ∉ m) :
    size (m.insert a b) = size m + 1 := by
  rw [size, AList.keys_insert, List.erase_of_not_mem (by simpa [AList.mem_keys] using h)]
  rfl

theorem size_erase_of_mem {m : FinMap α β} {a : α} (h : a ∈ m) :
    size (m.erase a) + 1 = size m := by
  have hm : a ∈ m.keys := AList.mem_keys.mp h
  have hpos : 0 < m.keys.length := List.length_pos_of_mem hm
  rw [size, AList.keys_erase, List.length_erase_of_mem hm, size]
  omega

/-- An entry of the list is what looking its key up finds. -/
theorem lookup_of_mem_entries {m : FinMap α β} {e : (_ : α) × β} (h : e ∈ m.entries) :
    m.lookup e.1 = some e.2 :=
  AList.mem_lookup_iff.mpr (by simpa using h)

theorem mem_entries_of_lookup {m : FinMap α β} {a : α} {b : β} (h : m.lookup a = some b) :
    ⟨a, b⟩ ∈ m.entries :=
  AList.mem_lookup_iff.mp h

/-- What is retained was there before. -/
theorem lookup_of_retain {p : α → β → Bool} {m : FinMap α β} {a : α} {b : β}
    (h : (retain p m).lookup a = some b) : m.lookup a = some b :=
  lookup_of_mem_entries (List.mem_filter.mp (mem_entries_of_lookup h)).1

/-- Keys that are there are erased one by one. -/
theorem size_foldl_erase {keys : List α} {m : FinMap α β} (hnodup : keys.Nodup)
    (hmem : ∀ k ∈ keys, k ∈ m) :
    size (keys.foldl (fun m k => m.erase k) m) + keys.length = size m := by
  induction keys generalizing m with
  | nil => rfl
  | cons key keys ih =>
      obtain ⟨hnot, hnodup⟩ := List.nodup_cons.mp hnodup
      obtain ⟨hkey, hkeys⟩ := List.forall_mem_cons.mp hmem
      have hrest : ∀ k ∈ keys, k ∈ m.erase key := by
        intro k hk
        exact AList.mem_erase.mpr ⟨fun h => hnot (h ▸ hk), hkeys k hk⟩
      have hone := size_erase_of_mem hkey
      have hall := ih hnodup hrest
      rw [List.foldl_cons, List.length_cons]
      omega

/-- What is left when keys are erased was there before. -/
theorem lookup_of_foldl_erase {a : α} {b : β} : ∀ {keys : List α} {m : FinMap α β},
    (keys.foldl (fun m k => m.erase k) m).lookup a = some b → m.lookup a = some b
  | [], _, h => h
  | key :: keys, m, h => by
      have hkey : (m.erase key).lookup a = some b := lookup_of_foldl_erase h
      rw [lookup_erase_eq] at hkey
      exact (Option.ite_none_left_eq_some.mp hkey).2

end DecidableKeys

/-! ## Two tables of one set of records -/

section Inverse

variable {γ : Type w} [DecidableEq α] [DecidableEq γ]

/-- The two tables hold the same records: `fwd` takes an owner to a slot exactly
when `bwd` keeps a record of that owner in the slot. -/
def Inverse (owner : β → α) (fwd : FinMap α γ) (bwd : FinMap γ β) : Prop :=
  ∀ a c, fwd.lookup a = some c ↔ ∃ b, bwd.lookup c = some b ∧ owner b = a

namespace Inverse

variable {owner : β → α} {fwd : FinMap α γ} {bwd : FinMap γ β}

theorem empty : Inverse owner (∅ : FinMap α γ) (∅ : FinMap γ β) := by
  intro a c
  simp

theorem of_bwd (h : Inverse owner fwd bwd) {c : γ} {b : β} (hb : bwd.lookup c = some b) :
    fwd.lookup (owner b) = some c :=
  (h _ _).mpr ⟨b, hb, rfl⟩

/-- Two slots never hold records of one owner. -/
theorem slot_unique (h : Inverse owner fwd bwd) {c c' : γ} {b b' : β}
    (hb : bwd.lookup c = some b) (hb' : bwd.lookup c' = some b') (ho : owner b = owner b') :
    c = c' := by
  have h1 := h.of_bwd hb
  have h2 := h.of_bwd hb'
  rw [ho, h2] at h1
  exact (Option.some.inj h1).symm

/-- A new owner takes a free slot. -/
theorem insert (h : Inverse owner fwd bwd) {c : γ} {b : β}
    (ha : fwd.lookup (owner b) = none) (hc : bwd.lookup c = none) :
    Inverse owner (fwd.insert (owner b) c) (bwd.insert c b) := by
  intro a c'
  rw [lookup_insert_eq, lookup_insert_eq]
  by_cases hac : a = owner b
  · subst hac
    rw [if_pos rfl]
    constructor
    · intro hcc
      cases hcc
      exact ⟨b, by simp, rfl⟩
    · rintro ⟨b', hb', ho⟩
      by_cases hcc : c' = c
      · rw [hcc]
      · rw [if_neg hcc] at hb'
        have := h.of_bwd hb'
        rw [ho, ha] at this
        cases this
  · rw [if_neg hac, h a c']
    by_cases hcc : c' = c
    · subst hcc
      simp only [hc, if_true]
      constructor
      · rintro ⟨_, hn, _⟩
        cases hn
      · rintro ⟨b', hb', ho⟩
        cases hb'
        exact absurd ho.symm hac
    · rw [if_neg hcc]

/-- A slot is rewritten by another record of its owner. -/
theorem update (h : Inverse owner fwd bwd) {c : γ} {b b' : β}
    (hc : bwd.lookup c = some b) (ho : owner b' = owner b) :
    Inverse owner fwd (bwd.insert c b') := by
  intro a c'
  rw [lookup_insert_eq, h a c']
  by_cases hcc : c' = c
  · subst hcc
    rw [if_pos rfl, hc]
    constructor
    · rintro ⟨_, hb, ha⟩
      cases hb
      exact ⟨b', rfl, ho.trans ha⟩
    · rintro ⟨_, hb, ha⟩
      cases hb
      exact ⟨b, rfl, ho.symm.trans ha⟩
  · rw [if_neg hcc]

/-- Both ends of one record are removed. -/
theorem erase (h : Inverse owner fwd bwd) {c : γ} {b : β} (hc : bwd.lookup c = some b) :
    Inverse owner (fwd.erase (owner b)) (bwd.erase c) := by
  intro a c'
  rw [lookup_erase_eq, lookup_erase_eq]
  by_cases hac : a = owner b
  · subst hac
    rw [if_pos rfl]
    constructor
    · intro hn
      cases hn
    · rintro ⟨b', hb', ho⟩
      by_cases hcc : c' = c
      · rw [if_pos hcc] at hb'
        cases hb'
      · rw [if_neg hcc] at hb'
        exact absurd (h.slot_unique hb' hc ho) hcc
  · rw [if_neg hac, h a c']
    by_cases hcc : c' = c
    · subst hcc
      rw [if_pos rfl, hc]
      constructor
      · rintro ⟨_, hb, ha⟩
        cases hb
        exact absurd ha.symm hac
      · rintro ⟨_, hn, _⟩
        cases hn
    · rw [if_neg hcc]

end Inverse

end Inverse

end FinMap
