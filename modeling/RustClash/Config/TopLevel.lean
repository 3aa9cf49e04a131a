import RustClash.Config.YamlLines
import RustClash.Core.Text

/-!
# Other top-level keys

A Clash configuration has more at its margin than the `proxies` block.  What stands in
front of the block is never read.  Behind it the reader goes on up to the first line at
the margin that ends with a colon, and takes the lines before it for lines of the block:
a key with its text in its line becomes a pair of the last proxy.
-/

namespace RustClash

namespace Config

open Str Checked BlockYaml

/-! ## Documents -/

/-- The line breaks of a text are none of its own. -/
def Unbroken (raw : Str) : Prop := '\n' ∉ raw ∧ '\r' ∉ raw

/-- The line belongs to the entry above it: it is blank or a comment, stands to the right of the
margin, or is an item. -/
def Continues (raw : Str) : Prop := trim raw = [] ∨ ∃ c ∈ ['#', ' ', '\t', '-'], startsWith c raw = true

/-- A key at the margin with the lines that belong to it. -/
structure TopEntry where
  head : Str
  body : List Str

namespace TopEntry

def lines (e : TopEntry) : List Str := e.head :: e.body

structure Ok (e : TopEntry) : Prop where
  margin : ∃ c, startsWith c e.head = true ∧ isWhiteSpace c = false ∧ c ∉ ['#', '-']
  colon : ':' ∈ e.head
  continues : ∀ raw ∈ e.body, Continues raw
  unbroken : ∀ raw ∈ e.lines, Unbroken raw

def IsProxies (e : TopEntry) : Prop := trimEnd e.head = "proxies:".toList

end TopEntry

/-- With the entries before and behind it, every `proxies` block is read as it is alone. -/
def Framed (before after : List TopEntry) : Prop :=
  ∀ block : TopEntry, block.Ok → block.IsProxies → ∀ doc alone,
    yamlLines doc = before.flatMap TopEntry.lines ++ (block.lines ++ after.flatMap TopEntry.lines) →
      yamlLines alone = block.lines → loadProxiesYaml doc = loadProxiesYaml alone

/-- The keys that a node is made of. -/
def nodeKeys : List String :=
  ["type", "network", "name", "server", "port", "tls", "plugin", "plugin-opts", "plugin-opts.mode",
    "plugin-opts.obfs", "plugin-opts.host", "plugin-opts.obfs-host", "plugin-opts.path",
    "plugin-opts.tls", "plugin-opts.mux", "ws-opts.path", "http-opts.path", "ws-opts.headers.Host",
    "ws-opts.headers.host", "reality-opts.public-key", "reality-opts.short-id", "uuid", "id",
    "password", "servername", "sni", "flow", "client-fingerprint", "skip-cert-verify", "cipher",
    "method", "username", "alterId", "alter-id"]

/-- What is read of the lines behind a block does no harm: the pairs set no key that a node is made
of, and the items are no nodes. -/
structure Harmless (lines : List Str) : Prop where
  pairs : ∀ e ∈ setsOf [] (pairLines (taken lines)), ∀ key ∈ nodeKeys, e.1 ≠ key.toList
  items : ∃ maps, Section.maps <$> readLines (itemLinesOf (taken lines)) {} = .ok maps ∧
    maps.filterMap yamlToNode = []

/-! ## What a node is made of -/

theorem pluginOptsFromYaml_congr {p q : YamlMap} (h : ∀ key ∈ nodeKeys, get p key = get q key) :
    pluginOptsFromYaml p = pluginOptsFromYaml q := by
  simp only [nodeKeys, List.forall_mem_cons] at h
  have hparts : ∀ short ∈ ["mode", "obfs", "host", "obfs-host", "path", "tls", "mux"],
      get p ("plugin-opts." ++ short) = get q ("plugin-opts." ++ short) := by
    simp only [List.forall_mem_cons, String.reduceAppend, h]
    simp
  have hfilter := List.filterMap_congr fun short hs => congrArg (Option.map fun v : Str =>
    (if short = "mode" then "obfs" else if short = "host" then "obfs-host" else short).toList ++
      '=' :: v) (hparts short hs)
  rw [pluginOptsFromYaml, pluginOptsFromYaml]
  simp only [h]
  rw [hfilter]

theorem yamlToNode_congr {p q : YamlMap} (h : ∀ key ∈ nodeKeys, get p key = get q key) :
    yamlToNode p = yamlToNode q := by
  have hplugin := pluginOptsFromYaml_congr h
  simp only [nodeKeys, List.forall_mem_cons] at h
  unfold yamlToNode
  simp only [hplugin, h]

/-! ## Lines -/

theorem trimStart_eq_self {c : Char} {s : Str} (h : startsWith c s = true)
    (hc : isWhiteSpace c = false) : trimStart s = s := by
  cases s with
  | nil => rfl
  | cons d ds =>
      have hd : d = c := Option.some.inj (of_decide_eq_true h)
      rw [trimStart, List.dropWhile_cons_of_neg (by simp [hd, hc])]

theorem Continues.stays {raw : Str} (h : Continues raw) : Stays raw := by
  rcases h with hblank | ⟨c, hc, hstart⟩
  · left
    rw [isComment, hblank]
    rfl
  · simp only [List.mem_cons, List.not_mem_nil, or_false] at hc
    rcases hc with rfl | rfl | rfl | rfl
    · left
      rw [isComment, trimStart_eq_self hstart rfl, hstart, Bool.or_true]
    · right
      rw [endsSection, hstart, Bool.true_or, Bool.not_true, Bool.and_false, Bool.false_and,
        Bool.false_and]
    · right
      rw [endsSection, hstart, Bool.or_true, Bool.not_true, Bool.and_false, Bool.false_and,
        Bool.false_and]
    · right
      rw [endsSection, trimStart_eq_self hstart rfl, hstart, Bool.not_true, Bool.and_false]

/-- Such a line is no `proxies:`. -/
theorem Continues.trimEnd_ne {raw : Str} (h : Continues raw) : trimEnd raw ≠ "proxies:".toList := by
  intro heq
  have hstart : startsWith 'p' raw = true := by
    obtain ⟨t, ht⟩ : "proxies:".toList <+: raw := heq ▸ List.rdropWhile_prefix _ raw
    rw [← ht]
    rfl
  rcases h with hblank | ⟨c, hc, hother⟩
  · have htrim : trim raw = trimEnd raw := congrArg trimEnd (trimStart_eq_self hstart rfl)
    rw [htrim, heq] at hblank
    cases hblank
  · rw [startsWith, decide_eq_true_eq] at hstart hother
    have hp : c = 'p' := Option.some.inj (hother.symm.trans hstart)
    rw [hp] at hc
    simp at hc

theorem mem_trim_of_visible {c : Char} {s : Str} (h : c ∈ s) (hc : isWhiteSpace c = false) :
    c ∈ trim s := by
  have hdrop {s : Str} (h : c ∈ s) : c ∈ s.dropWhile isWhiteSpace := by
    rw [← List.takeWhile_append_dropWhile (p := isWhiteSpace) (l := s)] at h
    refine (List.mem_append.mp h).resolve_left fun htake => ?_
    rw [List.mem_takeWhile_imp htake] at hc
    cases hc
  rw [trim, List.rdropWhile, List.mem_reverse]
  exact hdrop (List.mem_reverse.mpr (hdrop h))

namespace TopEntry.Ok

variable {e : TopEntry} (h : e.Ok)

include h

theorem trim_head : startsWith '#' (trimStart e.head) = false ∧
    startsWith '-' (trimStart e.head) = false ∧ indentOf e.head = 0 := by
  obtain ⟨c, hstart, hblank, hc⟩ := h.margin
  simp only [List.mem_cons, List.not_mem_nil, or_false, not_or] at hc
  rw [trimStart_eq_self hstart hblank, indentOf]
  rw [startsWith, decide_eq_true_eq] at hstart
  cases hhead : e.head with
  | nil => simp [startsWith]
  | cons d ds =>
      have hd : d = c := by simpa [hhead] using hstart
      have hspace : d ≠ ' ' := by
        rintro rfl
        rw [← hd] at hblank
        cases hblank
      subst hd
      simp [startsWith, hc.1, hc.2, hspace]

theorem colon_trim : ':' ∈ trim e.head := mem_trim_of_visible h.colon rfl

theorem isComment_head : isComment e.head = false := by
  rw [isComment, h.trim_head.1, Bool.or_false]
  exact List.isEmpty_eq_false_iff.mpr (List.ne_nil_of_mem h.colon_trim)

theorem isItem_head : isItem e.head = false := by
  rw [Bool.eq_false_iff]
  intro hitem
  exact absurd (dash_of_isItem hitem).2 (by rw [h.trim_head.2.1]; exact Bool.false_ne_true)

/-- What the lines of an entry set does not depend on those before them. -/
theorem setsOf_taken (nest : Nest) (rest : List Str) :
    setsOf nest (pairLines (taken (e.head :: rest))) = setsOf [] (pairLines (taken (e.head :: rest))) := by
  rw [taken, List.takeWhile_cons, h.isComment_head, Bool.false_or]
  cases endsSection e.head with
  | true => rfl
  | false =>
      rw [Bool.not_false, if_pos rfl, pairLines, List.takeWhile_cons, h.isItem_head, Bool.not_false,
        if_pos rfl]
      exact setsOf_margin h.isComment_head h.trim_head.2.2 h.colon_trim nest _

end TopEntry.Ok

theorem setsOf_entries {es : List TopEntry} (h : ∀ e ∈ es, e.Ok) (nest : Nest) :
    setsOf nest (pairLines (taken (es.flatMap TopEntry.lines))) =
      setsOf [] (pairLines (taken (es.flatMap TopEntry.lines))) := by
  cases es with
  | nil => rfl
  | cons e es => exact (h e List.mem_cons_self).setsOf_taken nest _

/-! ## Reading a document -/

theorem trimEnd_ne_of_mem {es : List TopEntry} (h : ∀ e ∈ es, e.Ok ∧ ¬ e.IsProxies) :
    ∀ raw ∈ es.flatMap TopEntry.lines, trimEnd raw ≠ "proxies:".toList := by
  intro raw hraw
  obtain ⟨e, he, hmem⟩ := List.mem_flatMap.mp hraw
  obtain ⟨hok, hother⟩ := h e he
  rcases List.mem_cons.mp hmem with rfl | hbody
  · exact hother
  · exact (hok.continues raw hbody).trimEnd_ne

theorem sectionLines_doc {before : List TopEntry} (h : ∀ e ∈ before, e.Ok ∧ ¬ e.IsProxies)
    {block : TopEntry} (hblock : block.IsProxies) (rest : List Str) :
    sectionLines (before.flatMap TopEntry.lines ++ (block.lines ++ rest)) = block.body ++ rest := by
  have hskip : ∀ raw ∈ before.flatMap TopEntry.lines,
      decide (trimEnd raw ≠ "proxies:".toList) = true :=
    fun raw hraw => decide_eq_true (trimEnd_ne_of_mem h raw hraw)
  have hstop : ¬ decide (trimEnd block.head ≠ "proxies:".toList) = true := fun hne =>
    of_decide_eq_true hne hblock
  rw [sectionLines, List.dropWhile_append_of_pos hskip, TopEntry.lines, List.cons_append,
    List.dropWhile_cons, if_neg hstop]
  rfl

theorem loadProxiesYaml_eq (text : Str) : loadProxiesYaml text =
    (List.filterMap yamlToNode ∘ Section.maps) <$> readLines (sectionLines (yamlLines text)) {} := by
  show (parseProxiesSection _ >>= _) = _
  rw [parseProxiesSection_eq]
  cases readLines (sectionLines (yamlLines text)) {} <;> rfl

/-- The document is read like its block, and then the lines behind it. -/
theorem loadProxiesYaml_doc {before after : List TopEntry}
    (hbefore : ∀ e ∈ before, e.Ok ∧ ¬ e.IsProxies) {block : TopEntry} (hok : block.Ok)
    (hblock : block.IsProxies) {doc : Str} (hdoc : yamlLines doc =
      before.flatMap TopEntry.lines ++ (block.lines ++ after.flatMap TopEntry.lines)) :
    loadProxiesYaml doc = readLines block.body {} >>= fun st =>
      List.filterMap yamlToNode <$> (Section.maps <$>
        readLines (taken (after.flatMap TopEntry.lines)) st) := by
  rw [loadProxiesYaml_eq, hdoc, sectionLines_doc hbefore hblock,
    readLines_append fun raw hraw => (hok.continues raw hraw).stays, map_bind]
  refine congrArg _ (funext fun st => ?_)
  rw [readLines_taken, Functor.map_map]
  rfl

theorem loadProxiesYaml_alone {block : TopEntry} (hblock : block.IsProxies) {alone : Str}
    (halone : yamlLines alone = block.lines) : loadProxiesYaml alone =
      readLines block.body {} >>= fun st => .ok (st.maps.filterMap yamlToNode) := by
  have hlines := sectionLines_doc (List.forall_mem_nil _) hblock []
  rw [List.append_nil, List.append_nil] at hlines
  rw [loadProxiesYaml_eq, halone]
  rw [show sectionLines block.lines = block.body from hlines]
  cases readLines block.body {} <;> rfl

/-! ## What does no harm -/

/-- Keys that are set are found with what was set last. -/
theorem lookup_setAll {key : Str} {sets : List (Str × Str)} {p q : YamlMap}
    (h : p.lookup key = q.lookup key ∨ ∃ e ∈ sets, e.1 = key) :
    (setAll p sets).lookup key = (setAll q sets).lookup key := by
  induction sets generalizing p q with
  | nil => exact h.resolve_right fun ⟨_, he, _⟩ => absurd he List.not_mem_nil
  | cons e sets ih =>
      refine ih ?_
      rw [FinMap.lookup_insert_eq, FinMap.lookup_insert_eq]
      by_cases hkey : key = e.1
      · rw [if_pos hkey, if_pos hkey]
        exact .inl rfl
      · rw [if_neg hkey, if_neg hkey]
        refine h.imp id fun ⟨e', he', heq⟩ => ⟨e', ?_, heq⟩
        exact (List.mem_cons.mp he').resolve_left fun hne => hkey (hne ▸ heq.symm)

theorem lookup_setAll_of_ne {key : Str} {sets : List (Str × Str)} (h : ∀ e ∈ sets, e.1 ≠ key)
    (map : YamlMap) : (setAll map sets).lookup key = map.lookup key := by
  induction sets generalizing map with
  | nil => rfl
  | cons e sets ih =>
      obtain ⟨hne, hsets⟩ := List.forall_mem_cons.mp h
      exact (ih hsets (map.insert e.1 e.2)).trans
        ((FinMap.lookup_insert_eq map e.1 key e.2).trans (if_neg (Ne.symm hne)))

theorem framed_of_harmless {before after : List TopEntry}
    (hbefore : ∀ e ∈ before, e.Ok ∧ ¬ e.IsProxies) (hafter : ∀ e ∈ after, e.Ok ∧ ¬ e.IsProxies)
    (h : Harmless (after.flatMap TopEntry.lines)) : Framed before after := by
  intro block hok hblock doc alone hdoc halone
  obtain ⟨maps, hread, hnone⟩ := h.items
  have hnode (map : YamlMap) :
      yamlToNode (setAll map (setsOf [] (pairLines (taken (after.flatMap TopEntry.lines))))) =
        yamlToNode map :=
    yamlToNode_congr fun key hkey => lookup_setAll_of_ne (fun e he => h.pairs e he key hkey) map
  rw [loadProxiesYaml_doc hbefore hok hblock hdoc, loadProxiesYaml_alone hblock halone]
  refine congrArg _ (funext fun st => ?_)
  rw [maps_readLines stays_taken, setsOf_entries fun e he => (hafter e he).1, hread]
  refine congrArg Except.ok ?_
  rw [List.filterMap_append, List.filterMap_append, hnone, List.append_nil, Section.maps,
    List.filterMap_append]
  cases st.current with
  | none => rfl
  | some map =>
      simp only [Option.map_some, Option.toList_some, List.filterMap_cons, List.filterMap_nil, hnode]

/-! ## What does harm -/

theorem replaceAll_of_notMem {c : Char} {pat new s : Str} (hpat : c ∈ pat) (h : c ∉ s) :
    replaceAll pat new s = s :=
  replace_of_not_infix _ fun hin => h (hin.subset hpat)

/-- Lines are those of the text that they are joined to. -/
theorem yamlLines_join {lines : List Str} (hne : lines ≠ []) (h : ∀ raw ∈ lines, Unbroken raw) :
    yamlLines (join ['\n'] lines) = lines := by
  have hcr : '\r' ∉ join ['\n'] lines := by
    induction lines with
    | nil => exact absurd rfl hne
    | cons raw lines ih =>
        obtain ⟨hraw, hlines⟩ := List.forall_mem_cons.mp h
        cases lines with
        | nil => exact hraw.2
        | cons raw' lines =>
            show '\r' ∉ raw ++ ['\n'] ++ join ['\n'] (raw' :: lines)
            rw [List.mem_append, List.mem_append]
            rintro ((hr | hr) | hr)
            · exact hraw.2 hr
            · cases List.mem_singleton.mp hr
            · exact ih (by simp) hlines hr
  rw [yamlLines, replaceAll_of_notMem (c := '\r') (by simp) hcr,
    replaceAll_of_notMem (c := '\r') (by simp) hcr]
  exact split_join hne fun raw hraw => (h raw hraw).1

/-! ## Blocks that show it -/

/-- The fields of a node, but for the one with the key. -/
def others (key : Str) : List (Str × Str) :=
  [("name".toList, "n".toList), ("type".toList, "vmess".toList), ("server".toList, "h".toList),
    ("port".toList, "1".toList)].filter fun e => e.1 ≠ key

def scalars : List (Str × Str) → Entries
  | [] => .nil
  | (key, text) :: es => .cons key (.scalar (.plain text)) (scalars es)

/-- A proxy with a text at the key. -/
def probe (key text : Str) : Proxy where
  key := key
  value := .scalar (.plain text)
  entries := scalars (others key)

/-- Two texts that make different nodes. -/
def texts (key : Str) : Str × Str :=
  if key = "type".toList then ("ss".toList, "http".toList) else ("1".toList, "2".toList)

def probeEntry (key text : Str) : TopEntry where
  head := "proxies:".toList
  body := (probe key text).lines 0

def probeMap (key text : Str) : YamlMap := setAll ∅ ((key, text) :: others key)

theorem probe_differs : ∀ key ∈ nodeKeys.map String.toList,
    yamlToNode (probeMap key (texts key).1) ≠ yamlToNode (probeMap key (texts key).2) := by
  -- The kernel is slow at taking literals apart.
  dsimp only [nodeKeys, List.map, yamlToNode, get, pluginOptsFromYaml, probeMap, others, texts,
    normalizeType, knownTypes, wsName, String.reduceToList]
  decide +kernel

theorem probe_keys : ∀ key ∈ nodeKeys.map String.toList, Key key ∧ Plain (texts key).1 ∧
    Plain (texts key).2 ∧ ∀ text ∈ [(texts key).1, (texts key).2],
      ((probeEntry key text).lines.all fun raw => raw.all fun c => c ≠ '\n' && c ≠ '\r') = true := by
  dsimp only [nodeKeys, List.map, probeEntry, TopEntry.lines, Proxy.lines, probe, others, texts,
    String.reduceToList]
  decide +kernel

theorem scalars_ok {es : List (Str × Str)} (h : ∀ e ∈ es, Key e.1 ∧ Plain e.2) :
    (scalars es).Ok ∧ (scalars es).items = [] := by
  induction es with
  | nil => exact ⟨trivial, rfl⟩
  | cons e es ih =>
      obtain ⟨⟨hkey, htext⟩, hes⟩ := List.forall_mem_cons.mp h
      exact ⟨⟨hkey, htext, (ih hes).1⟩, (ih hes).2⟩

theorem leaves_scalars (es : List (Str × Str)) :
    (scalars es).leaves [] = es.map fun e => (e.1, .plain e.2) := by
  induction es with
  | nil => rfl
  | cons e es ih => exact congrArg ((e.1, Scalar.plain e.2) :: ·) ih

theorem insertLeaves_plain {es : List (Str × Str)} (h : ∀ e ∈ es, Plain e.2) (map : YamlMap) :
    insertLeaves map (es.map fun e => (e.1, .plain e.2)) = setAll map es := by
  induction es generalizing map with
  | nil => rfl
  | cons e es ih =>
      obtain ⟨htext, hes⟩ := List.forall_mem_cons.mp h
      have hne : e.2.isEmpty = false := List.isEmpty_eq_false_iff.mpr htext.nonempty
      rw [List.map_cons, insertLeaves, List.foldl_cons]
      show insertLeaves (if e.2.isEmpty then map else map.insert e.1 e.2) _ = _
      rw [hne, if_neg Bool.false_ne_true]
      exact ih hes _

theorem continues_scalars {es : List (Str × Str)} (n : Nat) :
    ∀ raw ∈ (scalars es).lines (n + 1), Continues raw := by
  induction es with
  | nil => exact List.forall_mem_nil _
  | cons e es ih =>
      refine List.forall_mem_cons.mpr ⟨.inr ⟨' ', by simp, ?_⟩, ih⟩
      rfl

theorem others_ok (key : Str) : ∀ e ∈ others key, Key e.1 ∧ Plain e.2 := by
  intro e he
  have hmem := List.mem_of_mem_filter he
  simp only [List.mem_cons, List.not_mem_nil, or_false] at hmem
  rcases hmem with rfl | rfl | rfl | rfl <;> decide

theorem readLines_probe {key text : Str} (hkey : Key key) (htext : Plain text) : ∃ nest, readLines (probeEntry key text).body {} =
    .ok (BlockYaml.within [] (probeMap key text) nest) := by
  obtain ⟨hothers, hitems⟩ := scalars_ok (others_ok key)
  have hok : (probe key text).all.Ok := ⟨hkey, htext, hothers⟩
  obtain ⟨nest, hread⟩ := readLines_proxy hok hitems 0 {} []
  have hleaves : (probe key text).leaves =
      ((key, text) :: others key).map fun e => (e.1, Scalar.plain e.2) :=
    leaves_scalars ((key, text) :: others key)
  have hplain : ∀ e ∈ (key, text) :: others key, Plain e.2 :=
    List.forall_mem_cons.mpr ⟨htext, fun e he => (others_ok key e he).2⟩
  rw [List.append_nil, hleaves, insertLeaves_plain hplain] at hread
  exact ⟨nest, hread⟩

theorem unbroken_of_all {lines : List Str} (h : (lines.all fun raw =>
    raw.all fun c => c ≠ '\n' && c ≠ '\r') = true) : ∀ raw ∈ lines, Unbroken raw := by
  intro raw hraw
  have hall := List.all_eq_true.mp (List.all_eq_true.mp h raw hraw)
  exact ⟨fun h => by simpa using hall _ h, fun h => by simpa using hall _ h⟩

theorem isProxies_head : trimEnd "proxies:".toList = "proxies:".toList := by decide

theorem colon_head : ':' ∈ "proxies:".toList := by decide

theorem probeEntry_ok {key text : Str} (hlines : ((probeEntry key text).lines.all fun raw =>
    raw.all fun c => c ≠ '\n' && c ≠ '\r') = true) :
    (probeEntry key text).Ok ∧ (probeEntry key text).IsProxies := by
  refine ⟨⟨⟨'p', rfl, rfl, by simp⟩, colon_head, ?_, ?_⟩, isProxies_head⟩
  · exact List.forall_mem_cons.mpr ⟨.inr ⟨'-', by simp, rfl⟩, continues_scalars 1⟩
  · exact unbroken_of_all hlines

theorem loads_block {before after : List TopEntry} (hbefore : ∀ e ∈ before, e.Ok ∧ ¬ e.IsProxies)
    (hafter : ∀ e ∈ after, e.Ok ∧ ¬ e.IsProxies) (h : Framed before after) {block : TopEntry}
    (hok : block.Ok) (hblock : block.IsProxies) {st : Section}
    (hread : readLines block.body {} = .ok st) :
    List.filterMap yamlToNode <$> (Section.maps <$>
      readLines (taken (after.flatMap TopEntry.lines)) st) = .ok (st.maps.filterMap yamlToNode) := by
  have hlines : ∀ raw ∈ before.flatMap TopEntry.lines ++
      (block.lines ++ after.flatMap TopEntry.lines), Unbroken raw := by
    have hflat {es : List TopEntry} (hes : ∀ e ∈ es, e.Ok ∧ ¬ e.IsProxies) :
        ∀ raw ∈ es.flatMap TopEntry.lines, Unbroken raw := fun raw hraw =>
      let ⟨e, he, hmem⟩ := List.mem_flatMap.mp hraw
      (hes e he).1.unbroken raw hmem
    refine List.forall_mem_append.mpr ⟨hflat hbefore, List.forall_mem_append.mpr ⟨?_, hflat hafter⟩⟩
    exact hok.unbroken
  have hdoc := yamlLines_join (by simp [TopEntry.lines]) hlines
  have halone := yamlLines_join (List.cons_ne_nil _ _) hok.unbroken
  have hframed := h block hok hblock _ _ hdoc halone
  rw [loadProxiesYaml_doc hbefore hok hblock hdoc, loadProxiesYaml_alone hblock halone, hread] at hframed
  exact hframed

theorem harmless_of_framed {before after : List TopEntry}
    (hbefore : ∀ e ∈ before, e.Ok ∧ ¬ e.IsProxies) (hafter : ∀ e ∈ after, e.Ok ∧ ¬ e.IsProxies)
    (h : Framed before after) : Harmless (after.flatMap TopEntry.lines) := by
  obtain ⟨maps, hread, hnone⟩ : ∃ maps, Section.maps <$>
      readLines (itemLinesOf (taken (after.flatMap TopEntry.lines))) {} = .ok maps ∧
        maps.filterMap yamlToNode = [] := by
    -- A block without proxies shows the nodes that the items make.
    have hempty : (TopEntry.mk "proxies:".toList []).Ok := by
      refine ⟨⟨'p', rfl, rfl, by simp⟩, colon_head, List.forall_mem_nil _, fun raw hraw => ?_⟩
      rw [List.mem_singleton.mp hraw]
      exact ⟨by decide, by decide⟩
    have hload := loads_block hbefore hafter h hempty isProxies_head rfl
    rw [maps_readLines stays_taken] at hload
    cases hitems : Section.maps <$>
        readLines (itemLinesOf (taken (after.flatMap TopEntry.lines))) {} with
    | error e =>
        rw [hitems] at hload
        cases hload
    | ok maps =>
        rw [hitems] at hload
        exact ⟨maps, rfl, Except.ok.inj hload⟩
  refine ⟨?_, maps, hread, hnone⟩
  intro e he key hkey heq
  obtain ⟨hok, hfirst, hsecond, hlines⟩ := probe_keys _ (List.mem_map_of_mem hkey)
  obtain ⟨hlines1, hlines2⟩ := List.forall_mem_cons.mp hlines
  -- Both probes are read as the node of one map, the key being set anew.
  have hnode {text : Str} (htext : Plain text) (hunbroken : ((probeEntry key.toList text).lines.all
      fun raw => raw.all fun c => c ≠ '\n' && c ≠ '\r') = true) :
      yamlToNode (setAll (probeMap key.toList text)
        (setsOf [] (pairLines (taken (after.flatMap TopEntry.lines))))) =
        yamlToNode (probeMap key.toList text) := by
    obtain ⟨nest, hbody⟩ := readLines_probe hok htext
    obtain ⟨hentry, hproxies⟩ := probeEntry_ok hunbroken
    have hload := loads_block hbefore hafter h hentry hproxies hbody
    rw [maps_readLines stays_taken, setsOf_entries fun e he => (hafter e he).1, hread] at hload
    have hlist := Except.ok.inj hload
    rw [List.filterMap_append, hnone, List.append_nil] at hlist
    have hsingle (map : YamlMap) : [map].filterMap yamlToNode = (yamlToNode map).toList := by
      cases hm : yamlToNode map <;> simp [hm]
    have hhead (o : Option ProxyNode) : o.toList.head? = o := by cases o <;> rfl
    have htoList := (hsingle _).symm.trans (hlist.trans (hsingle _))
    rw [← hhead (yamlToNode (setAll _ _)), htoList, hhead]
  have hsame : yamlToNode (setAll (probeMap key.toList (texts key.toList).1)
      (setsOf [] (pairLines (taken (after.flatMap TopEntry.lines))))) =
      yamlToNode (setAll (probeMap key.toList (texts key.toList).2)
        (setsOf [] (pairLines (taken (after.flatMap TopEntry.lines))))) := by
    refine yamlToNode_congr fun other _ => lookup_setAll ?_
    by_cases hother : other.toList = key.toList
    · exact .inr ⟨e, he, heq.trans hother.symm⟩
    · refine .inl (@lookup_setAll _ (others key.toList) _ _ (.inl ?_))
      rw [FinMap.lookup_insert_eq, FinMap.lookup_insert_eq, if_neg hother, if_neg hother]
  exact probe_differs _ (List.mem_map_of_mem hkey)
    ((hnode hfirst hlines1).symm.trans (hsame.trans (hnode hsecond (by simpa using hlines2))))

/-- Other top-level entries leave every block as it is, if and only if what is read of those behind
it does no harm. -/
theorem framed_iff {before after : List TopEntry} (hbefore : ∀ e ∈ before, e.Ok ∧ ¬ e.IsProxies)
    (hafter : ∀ e ∈ after, e.Ok ∧ ¬ e.IsProxies) :
    Framed before after ↔ Harmless (after.flatMap TopEntry.lines) :=
  ⟨harmless_of_framed hbefore hafter, framed_of_harmless hbefore hafter⟩

/-- A key in front of a block, and a mapping behind it. -/
def modeEntry : TopEntry := ⟨"mode: rule".toList, []⟩

def dnsEntry : TopEntry := ⟨"dns:".toList, ["  enable: true".toList]⟩

/-- The port of the client itself. -/
def portEntry : TopEntry := ⟨"port: 7890".toList, []⟩

theorem modeEntry_ok : modeEntry.Ok ∧ ¬ modeEntry.IsProxies :=
  ⟨⟨⟨'m', rfl, rfl, by simp⟩, (by decide : ':' ∈ "mode: rule".toList), List.forall_mem_nil _,
    unbroken_of_all (by decide)⟩, (by decide : trimEnd "mode: rule".toList ≠ "proxies:".toList)⟩

theorem dnsEntry_ok : dnsEntry.Ok ∧ ¬ dnsEntry.IsProxies :=
  ⟨⟨⟨'d', rfl, rfl, by simp⟩, (by decide : ':' ∈ "dns:".toList),
    List.forall_mem_cons.mpr ⟨.inr ⟨' ', by simp, rfl⟩, List.forall_mem_nil _⟩,
    unbroken_of_all (by decide)⟩, (by decide : trimEnd "dns:".toList ≠ "proxies:".toList)⟩

theorem portEntry_ok : portEntry.Ok ∧ ¬ portEntry.IsProxies :=
  ⟨⟨⟨'p', rfl, rfl, by simp⟩, (by decide : ':' ∈ "port: 7890".toList), List.forall_mem_nil _,
    unbroken_of_all (by decide)⟩, (by decide : trimEnd "port: 7890".toList ≠ "proxies:".toList)⟩

theorem framed_iff_mode : Framed [modeEntry] [modeEntry, dnsEntry] := by
  have hmode : ∀ e ∈ [modeEntry], e.Ok ∧ ¬ e.IsProxies := by simpa using modeEntry_ok
  have hboth : ∀ e ∈ [modeEntry, dnsEntry], e.Ok ∧ ¬ e.IsProxies := by
    simpa using ⟨modeEntry_ok, dnsEntry_ok⟩
  refine (framed_iff hmode hboth).mpr ⟨?_, [], rfl, rfl⟩
  have hsets : setsOf [] (pairLines (taken ([modeEntry, dnsEntry].flatMap TopEntry.lines))) =
      [("mode".toList, "rule".toList)] := by decide
  rw [hsets]
  intro e he key hkey heq
  rw [List.mem_singleton.mp he] at heq
  have hmem : "mode" ∈ nodeKeys := String.toList_injective heq ▸ hkey
  exact absurd hmem (by decide)

/-- The last proxy gets the port of the client. -/
theorem not_framed : ¬ ∀ before after : List TopEntry, (∀ e ∈ before, e.Ok ∧ ¬ e.IsProxies) →
    (∀ e ∈ after, e.Ok ∧ ¬ e.IsProxies) → Framed before after := by
  intro h
  have hframed := h [] [portEntry] (List.forall_mem_nil _) (by simpa using portEntry_ok)
  have hharmless := harmless_of_framed (List.forall_mem_nil _) (by simpa using portEntry_ok) hframed
  exact hharmless.pairs ("port".toList, "7890".toList) (by decide) "port" (by simp [nodeKeys]) rfl

end Config

end RustClash
