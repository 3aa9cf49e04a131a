import RustClash.Config.Catalog
import RustClash.Config.YamlSlices

/-!
# When the catalog returns

Share links, JSON and base64 are sliced at the offsets of ASCII characters that were
found there.  So a body is read to its end unless a flow map of a text that is read
as YAML is cut inside a character.
-/

namespace RustClash

namespace Config

open Str Checked

variable (crates : Crates)

/-! ## Share links -/

theorem runs_ssParts (body : Str) : Runs (ssParts crates body) := by
  rw [ssParts]
  cases hi : rfind '@' body with
  | none => exact runs_ok _
  | some i =>
      obtain ⟨a, b, rfl, rfl⟩ := eq_append_of_rfind hi
      have hright : Runs (sliceFrom ('@' :: b) 1) :=
        runs_sliceFrom.mpr (isBoundary_after [] b rfl)
      show Runs (splitAt (a ++ '@' :: b) (byteLen a) >>= _)
      rw [splitAt_append]
      exact hright.bind fun _ => runs_pure _

theorem runs_parseSs (url : Str) : Runs (parseSs crates url) := by
  rw [parseSs]
  have hparts (s : Str) {f : Option (Str × Str × Str) → Option ProxyNode} :
      Runs (ssParts crates s >>= fun parts => pure (f parts)) :=
    (runs_ssParts crates s).bind fun _ => runs_pure _
  cases hi : find '#' url with
  | none => exact hparts _
  | some i =>
      obtain ⟨a, b, rfl, rfl⟩ := eq_append_of_find hi
      have hfrom : Runs (sliceFrom (a ++ '#' :: b) (byteLen a + 1)) :=
        runs_sliceFrom.mpr (isBoundary_after a b rfl)
      exact (runs_map.mpr hfrom).bind fun _ => hparts _

theorem runs_parseShareLink (line : Str) : Runs (parseShareLink crates line) := by
  rw [parseShareLink]
  repeat' split
  all_goals first | exact runs_ok _ | exact runs_parseSs crates _

theorem runs_parseUriList (text : Str) : Runs (parseUriList crates text) :=
  (Runs.mapM (fun link : Str × Nat => runs_parseShareLink (crates.after link.2) link.1) _).bind
    fun _ => runs_pure _

/-! ## Texts -/

/-- Neither the blanks nor the marks around a text are in `proxies:`. -/
theorem contains_stripText (text : Str) :
    contains "proxies:".toList (stripText text) ↔ contains "proxies:".toList text := by
  rw [contains_iff, contains_iff, stripText, trim]
  show 'p' :: "roxies:".toList <:+: _ ↔ _
  rw [infix_dropWhile (by decide)]
  show "proxies".toList ++ [':'] <:+: _ ↔ _
  rw [infix_rdropWhile (by decide)]
  show 'p' :: "roxies:".toList <:+: _ ↔ _
  rw [infix_dropWhile (by decide)]
  rfl

theorem contains_of_yaml {text : Str} (h : formatOf crates text = .yaml) :
    contains "proxies:".toList text := by
  rw [formatOf] at h
  repeat' split at h
  all_goals first | assumption | cases h

theorem not_contains_of_ne_yaml {text : Str} (h : formatOf crates text ≠ .yaml) :
    ¬ contains "proxies:".toList text := by
  intro hc
  rw [formatOf] at h
  split at h
  · next he =>
      rw [List.isEmpty_iff.mp he] at hc
      revert hc
      decide
  · exact h rfl

/-- `parse_text` reads a text. -/
theorem runs_parseTextWith {encoded : Str → Checked (List ProxyNode)} (text : Str) :
    Runs (parseTextWith crates encoded text) ↔
      (formatOf crates (stripText text) = .yaml →
        ∀ flow ∈ flowItems (stripText text), ¬ Cut flow) ∧
      (formatOf crates (stripText text) = .other → Runs (encoded (stripText text))) := by
  simp only [parseTextWith]
  cases formatOf crates (stripText text) with
  | empty => simp
  | yaml => simp [runs_loadProxiesYaml]
  | json nodes => simp
  | links => simp [runs_parseUriList]
  | other => simp

/-- The texts of a body that are read as YAML: the body itself, what it encodes, and that once
more with the blanks around it if no node was found and no link is in it. -/
inductive ReadAsYaml (raw : Bytes) : Str → Prop where
  | body : formatOf crates (stripText (decodeUtf8 raw)) = .yaml →
      ReadAsYaml raw (stripText (decodeUtf8 raw))
  | encoded {decoded : Str} : formatOf crates (stripText (decodeUtf8 raw)) = .other →
      tryDecodeB64 crates (stripText (decodeUtf8 raw)) = some decoded →
      formatOf crates (stripText decoded) = .yaml → ReadAsYaml raw (stripText decoded)
  | again {decoded : Str} : formatOf crates (stripText (decodeUtf8 raw)) = .other →
      tryDecodeB64 crates (stripText (decodeUtf8 raw)) = some decoded →
      formatOf crates (stripText decoded) = .yaml →
      filterAll <$> loadProxiesYaml (stripText decoded) = .ok [] →
      ¬ looksLikeUriList decoded → ReadAsYaml raw decoded

theorem runs_parseInner (text : Str) : Runs (parseInner crates text) ↔
    (formatOf crates (stripText text) = .yaml →
      ∀ flow ∈ flowItems (stripText text), ¬ Cut flow) := by
  rw [parseInner, runs_parseTextWith]
  simp

theorem parseInner_yaml {text : Str} (h : formatOf crates (stripText text) = .yaml) :
    parseInner crates text = filterAll <$> loadProxiesYaml (stripText text) := by
  simp only [parseInner, parseTextWith, h]

/-- What happens to a text that was encoded. -/
theorem runs_parseEncoded {text decoded : Str} (h : tryDecodeB64 crates text = some decoded) :
    Runs (parseEncoded crates text) ↔
      (formatOf crates (stripText decoded) = .yaml →
        (∀ flow ∈ flowItems (stripText decoded), ¬ Cut flow) ∧
        (filterAll <$> loadProxiesYaml (stripText decoded) = .ok [] → ¬ looksLikeUriList decoded →
          ∀ flow ∈ flowItems decoded, ¬ Cut flow)) := by
  rw [parseEncoded, h]
  show Runs (parseInner crates decoded >>= _) ↔ _
  by_cases hy : formatOf crates (stripText decoded) = .yaml
  · have hc := (contains_stripText decoded).mp (contains_of_yaml crates hy)
    rw [runs_bind]
    simp only [hy, true_implies]
    constructor
    · rintro ⟨inner, hinner, hrest⟩
      refine ⟨(runs_parseInner crates decoded).mp ⟨inner, hinner⟩ hy, fun hnone hlinks => ?_⟩
      rw [parseInner_yaml crates hy, hnone] at hinner
      cases hinner
      rw [if_neg (by simp), if_neg hlinks, if_pos hc, runs_map, runs_loadProxiesYaml] at hrest
      exact hrest
    · rintro ⟨htrim, hagain⟩
      obtain ⟨inner, hinner⟩ := (runs_parseInner crates decoded).mpr fun _ => htrim
      refine ⟨inner, hinner, ?_⟩
      cases inner with
      | cons n ns => exact runs_pure _
      | nil =>
          rw [if_neg (by simp)]
          split
          · exact runs_map.mpr (runs_parseUriList _ decoded)
          · next hlinks =>
              rw [runs_map, runs_loadProxiesYaml]
              exact hagain (parseInner_yaml crates hy ▸ hinner) hlinks
  · have hc : ¬ contains "proxies:".toList decoded :=
      (contains_stripText decoded).not.mp (not_contains_of_ne_yaml crates hy)
    refine iff_of_true ?_ fun h => absurd h hy
    refine ((runs_parseInner crates decoded).mpr fun h => absurd h hy).bind fun inner => ?_
    split
    · exact runs_pure _
    · split
      · exact runs_map.mpr (runs_parseUriList _ decoded)
      · exact runs_pure _

/-- A body is read to its end exactly when no flow map among the items of the texts that are
read as YAML is cut inside a character. -/
theorem NodeCatalog.runs_parse_iff (raw : Bytes) : Runs (NodeCatalog.parse crates raw) ↔
    ∀ text, ReadAsYaml crates raw text → ∀ flow ∈ flowItems text, ¬ Cut flow := by
  rw [NodeCatalog.parse, runs_parseTextWith]
  constructor
  · rintro ⟨hbody, hencoded⟩ text ⟨hy⟩
    · exact hbody hy
    · next ho hd hy =>
        exact ((runs_parseEncoded crates hd).mp (hencoded ho) hy).1
    · next ho hd hy hnone hlinks =>
        exact ((runs_parseEncoded crates hd).mp (hencoded ho) hy).2 hnone hlinks
  · intro h
    refine ⟨fun hy => h _ (.body hy), fun ho => ?_⟩
    cases hd : tryDecodeB64 crates (stripText (decodeUtf8 raw)) with
    | none =>
        rw [parseEncoded, hd]
        exact runs_ok _
    | some decoded =>
        exact (runs_parseEncoded crates hd).mpr fun hy =>
          ⟨h _ (.encoded ho hd hy), fun hnone hlinks => h _ (.again ho hd hy hnone hlinks)⟩

/-- Crates that read nothing. -/
def noCrates : Crates where
  parseUrl _ := none
  decodeBase64 _ := none
  parseJson _ := none
  orderOf _ qs := qs.entries.map fun e => (e.1, e.2)
  mapKey := 0

/-- A key of one character that takes three bytes. -/
theorem NodeCatalog.not_runs_parse : ¬ ∀ raw, Runs (NodeCatalog.parse noCrates raw) := by
  intro h
  have hcut : NodeCatalog.parse noCrates (bytes "proxies:\n- \x7b名: x\x7d".toList) = .error .boundary := by
    decide +kernel
  have := h (bytes "proxies:\n- \x7b名: x\x7d".toList)
  rw [hcut] at this
  exact not_runs_error _ this

end Config

end RustClash
