import RustClash.Lib.FinMap

/-!
# Maps by content

A map may keep each content under a key that is computed from it, so that equal contents
share an entry.  `Holds` says that the entries are those of some contents: what is put
there unless its key is taken is held then, and what is no longer referred to may go.
-/

universe u v

namespace FinMap

variable {α : Type u} {β : Type v} [DecidableEq α] {key : β → α} {m : FinMap α β}
  {contents contents' : List β} {b : β}

/-- The map has the contents, each under its key, and nothing else. -/
def Holds (key : β → α) (m : FinMap α β) (contents : List β) : Prop :=
  ∀ a b, m.lookup a = some b ↔ b ∈ contents ∧ key b = a

namespace Holds

theorem empty : Holds key ∅ [] := by
  intro a b
  simp

theorem lookup (h : Holds key m contents) (hb : b ∈ contents) : m.lookup (key b) = some b :=
  (h _ _).mpr ⟨hb, rfl⟩

/-- Contents with one key are the same. -/
theorem eq_of_key (h : Holds key m contents) {c : β} (hb : b ∈ contents) (hc : c ∈ contents)
    (hkey : key b = key c) : b = c := by
  have hlookup := h.lookup hb
  rw [hkey, h.lookup hc] at hlookup
  exact (Option.some.inj hlookup).symm

theorem mem_iff (h : Holds key m contents) {a : α} : a ∈ m ↔ a ∈ contents.map key := by
  rw [List.mem_map]
  constructor
  · intro ha
    obtain ⟨b, hb⟩ := exists_lookup_of_mem ha
    exact ⟨b, (h a b).mp hb⟩
  · rintro ⟨b, hb⟩
    exact mem_of_lookup ((h a b).mpr hb)

/-- Which contents there are matters, and not how often or in which order. -/
theorem congr (h : Holds key m contents) (hsame : ∀ c, c ∈ contents ↔ c ∈ contents') :
    Holds key m contents' := by
  intro a c
  rw [h a c, hsame]

/-- A content is put under its key, unless there is one. -/
theorem put (h : Holds key m contents) (hkeys : ∀ c ∈ contents, key c = key b → c = b) :
    Holds key (if key b ∈ m then m else m.insert (key b) b) (b :: contents) := by
  split
  · next hmem =>
      obtain ⟨c, hc, hkey⟩ := List.mem_map.mp (h.mem_iff.mp hmem)
      cases hkeys c hc hkey
      refine h.congr fun d => ?_
      rw [List.mem_cons]
      constructor
      · exact Or.inr
      · rintro (rfl | hd)
        · exact hc
        · exact hd
  · next hnot =>
      intro a c
      rw [lookup_insert_eq, List.mem_cons]
      split
      · next ha =>
          subst ha
          constructor
          · rintro ⟨⟩
            exact ⟨Or.inl rfl, rfl⟩
          · rintro ⟨rfl | hc, hkey⟩
            · rfl
            · exact absurd (h.mem_iff.mpr (List.mem_map.mpr ⟨c, hc, hkey⟩)) hnot
      · next ha =>
          rw [h a c]
          constructor
          · rintro ⟨hc, hkey⟩
            exact ⟨Or.inr hc, hkey⟩
          · rintro ⟨rfl | hc, hkey⟩
            · exact absurd hkey.symm ha
            · exact ⟨hc, hkey⟩

/-- A content that another one shares its key with is still there. -/
theorem shared (h : Holds key m (b :: contents)) (hmem : key b ∈ contents.map key) :
    Holds key m contents := by
  obtain ⟨c, hc, hkey⟩ := List.mem_map.mp hmem
  cases h.eq_of_key (List.mem_cons_of_mem _ hc) List.mem_cons_self hkey
  refine h.congr fun d => ?_
  rw [List.mem_cons]
  constructor
  · rintro (rfl | hd)
    · exact hc
    · exact hd
  · exact Or.inr

/-- A content that no other one shares its key with may go. -/
theorem drop (h : Holds key m (b :: contents)) (hnot : key b ∉ contents.map key) :
    Holds key (m.erase (key b)) contents := by
  intro a c
  rw [lookup_erase_eq]
  split
  · next ha =>
      subst ha
      constructor
      · intro hnone
        cases hnone
      · rintro ⟨hc, hkey⟩
        exact absurd (List.mem_map.mpr ⟨c, hc, hkey⟩) hnot
  · next ha =>
      rw [h a c, List.mem_cons]
      constructor
      · rintro ⟨rfl | hc, hkey⟩
        · exact absurd hkey.symm ha
        · exact ⟨hc, hkey⟩
      · rintro ⟨hc, hkey⟩
        exact ⟨Or.inr hc, hkey⟩

end Holds

end FinMap
