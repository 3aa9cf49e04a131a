import RustClash.Proxynet.HttpObfs

/-!
# What an HTTP obfs reader delivers

A reader that waits for the end of the response header has a part of it at hand, in
which it has not ended yet.  The read that brings the end may bring more, which is read
first.
-/

namespace RustClash

open HttpObfs

namespace HttpObfs

theorem findHeaderEnd_eq : ∀ bs : Bytes,
    findHeaderEnd bs = (Http.splitHead bs).map fun r => r.1.length + 4
  | [] => rfl
  | b :: bs => by
      rw [findHeaderEnd, Http.splitHead]
      split
      · rfl
      · rw [findHeaderEnd_eq bs, Option.map_map, Option.map_map]
        cases Http.splitHead bs with
        | none => rfl
        | some r => exact congrArg some (by simp)

/-- A header section with the empty line that ends it. -/
def HeaderBlock (block : Bytes) : Prop := ∃ head, Http.splitHead block = some (head, [])

variable {block : Bytes}

theorem HeaderBlock.findHeaderEnd (h : HeaderBlock block) (more : Bytes) :
    findHeaderEnd (block ++ more) = some block.length := by
  obtain ⟨head, h⟩ := h
  rw [findHeaderEnd_eq, Http.splitHead_append more h, Http.splitHead_eq_some h]
  simp

/-- A part of a block has no end in it. -/
theorem HeaderBlock.findHeaderEnd_part (h : HeaderBlock block) {acc more : Bytes}
    (hblock : acc ++ more = block) (hne : more ≠ []) : HttpObfs.findHeaderEnd acc = none := by
  obtain ⟨head, h⟩ := h
  rw [findHeaderEnd_eq]
  cases hs : Http.splitHead acc with
  | none => rfl
  | some r =>
      have happ := Http.splitHead_append more hs
      rw [hblock, h] at happ
      have hnil := (Prod.mk.inj (Option.some.inj happ)).2
      exact absurd (List.append_eq_nil_iff.mp hnil.symm).2 hne

end HttpObfs

namespace HttpObfsStream

variable {b : Base64} {σ : Type} [AsyncRead σ] {spec : ReadSpec (pollRead : ReadFn σ UInt8 IoError)}
  {st : HttpObfsStream b σ} {items rest : Bytes} {o : End IoError} {cap : Nat}

/-- Where a reader stands over a source that yields `rest`. -/
inductive Ahead : HttpRead → Bytes → Bytes → Prop
| header {acc block items rest : Bytes} :
  HeaderBlock block ->
  block.length ≤ maxHeader ->
  acc.length < block.length ->
  acc ++ rest = block ++ items ->
  Ahead (.header acc) rest items
| leftover {data : Cursor} {rest : Bytes} :
  Ahead (.leftover data) rest (data.remaining ++ rest)
| transfer {rest : Bytes} :
  Ahead .transfer rest rest

def Yields (spec : ReadSpec (pollRead : ReadFn σ UInt8 IoError)) (st : HttpObfsStream b σ)
    (items : Bytes) (o : End IoError) : Prop :=
  ∃ rest, spec.Yields st.inner rest o ∧ Ahead st.read rest items

/-- What has come goes to the part of the header at hand, and all of it may be there then. -/
theorem Ahead.arrived {acc d : Bytes} (h : Ahead (.header acc) (d ++ rest) items) :
    (∃ pos, findHeaderEnd (acc ++ d) = some pos ∧ items = (acc ++ d).drop pos ++ rest) ∨
      findHeaderEnd (acc ++ d) = none ∧ Ahead (.header (acc ++ d)) rest items := by
  cases h with
  | @header _ block _ _ hblock hmax hlen heq =>
      rw [← List.append_assoc] at heq
      rcases Nat.lt_or_ge (acc ++ d).length block.length with hlt | hge
      · refine Or.inr ⟨?_, .header hblock hmax hlt heq⟩
        obtain ⟨more, hmore⟩ : acc ++ d <+: block :=
          List.prefix_of_prefix_length_le (heq ▸ List.prefix_append _ _) (List.prefix_append _ _)
            (Nat.le_of_lt hlt)
        refine hblock.findHeaderEnd_part hmore ?_
        rintro rfl
        rw [← hmore, List.append_nil] at hlt
        exact absurd hlt (Nat.lt_irrefl _)
      · obtain ⟨more, hmore⟩ : block <+: acc ++ d :=
          List.prefix_of_prefix_length_le (List.prefix_append _ _) (heq ▸ List.prefix_append _ _) hge
        refine Or.inl ⟨block.length, ?_, ?_⟩
        · rw [← hmore]
          exact hblock.findHeaderEnd more
        · rw [← hmore, List.append_assoc] at heq
          rw [← hmore, List.drop_left]
          exact (List.append_cancel_left heq).symm

/-- A reader that waits for the header has not come to the end of the source. -/
theorem Ahead.rest_ne_nil {acc : Bytes} (h : Ahead (.header acc) rest items) : rest ≠ [] := by
  cases h with
  | header _ _ hlen heq =>
      rintro rfl
      rw [List.append_nil] at heq
      rw [heq, List.length_append] at hlen
      omega

theorem passHeader_leaves {acc : Bytes} (hread : st.read = .header acc)
    (hy : spec.Yields st.inner rest o) (h : Ahead (.header acc) rest items) :
    PassLeaves (Yields spec) (fun st => spec.stalls st.inner) st items o (st.readPass cap) := by
  have hacc : ¬ maxHeader < acc.length := by
    cases h with
    | header _ hmax hlen _ => omega
  have hleaves := spec.leaves hy (by decide : 0 < 256)
  simp only [readPass, hread]
  rw [if_neg hacc]
  generalize pollRead st.inner 256 = r at hleaves ⊢
  rcases r with ⟨_ | e | d, inner⟩
  · exact ⟨⟨rest, hleaves.1, h⟩, hleaves.2⟩
  · exact absurd hleaves.1 h.rest_ne_nil
  · by_cases hd : d.items = []
    · exact absurd ((leaves_eof_iff hd).mp hleaves).1 h.rest_ne_nil
    · obtain ⟨rest', rfl, hy', hle⟩ := (leaves_data_iff hd).mp hleaves
      dsimp only
      rw [if_neg fun h => hd (List.isEmpty_iff.mp h)]
      rcases h.arrived with ⟨pos, hpos, rfl⟩ | ⟨hnone, h'⟩
      · rw [hpos]
        refine ⟨⟨rest', hy', ?_⟩, hle⟩
        exact .leftover
      · rw [hnone]
        exact ⟨⟨rest', hy', h'⟩, hle⟩

theorem pass_leaves (h : Yields spec st items o) (hcap : 0 < cap) :
    PassLeaves (Yields spec) (fun st => spec.stalls st.inner) st items o (st.readPass cap) := by
  obtain ⟨rest, hy, h⟩ := h
  generalize hread : st.read = read at h
  cases h with
  | header hblock hmax hlen heq =>
      exact passHeader_leaves hread hy (.header hblock hmax hlen heq)
  | @leftover data _ =>
      simp only [readPass, hread]
      split
      · next hempty =>
          rw [List.isEmpty_iff.mp hempty, List.nil_append]
          exact ⟨⟨rest, hy, .transfer⟩, Nat.le_refl _⟩
      · next hsome =>
          have hne : data.remaining ≠ [] := fun h => hsome (List.isEmpty_iff.mpr h)
          refine passLeaves_fill hne hcap ⟨rest, hy, ?_⟩ (Nat.le_refl _)
          rw [List.drop_eq_drop_min, Nat.min_comm, ← Cursor.remaining_advance]
          dsimp only
          split
          · next hend =>
              rw [Cursor.remaining_eq_nil.mpr (Nat.le_of_eq hend.symm), List.nil_append]
              exact .transfer
          · exact .leftover
  | transfer =>
      simp only [readPass, hread]
      refine (spec.leaves hy hcap).handOn ?_ rfl rfl
      intro items o h
      exact ⟨items, h, .transfer⟩

/-- What a reader yields over a specified source. -/
def readSpec (b : Base64) (spec : ReadSpec (pollRead : ReadFn σ UInt8 IoError)) :
    ReadSpec (pollRead : ReadFn (HttpObfsStream b σ) UInt8 IoError) :=
  .ofLoop (readLoop b σ) (Yields spec) (fun st => spec.stalls st.inner) pass_leaves

end HttpObfsStream

end RustClash
