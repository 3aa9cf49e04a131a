import RustClash.Config.BlockYamlRead
import RustClash.Config.ProfileContents
import RustClash.Config.YamlLines
import RustClash.Core.Text
import RustClash.Core.Utf8

/-!
# The text of the profiles

`save` writes the store as lines, and `load_or_migrate` reads them back.  Names and
addresses may be anything, so they are put between quotes where they have to be; what
is read back is `reread`, which is the text itself unless a line ends in it.
-/

namespace RustClash

namespace Config

open Str BlockYaml

/-! ## Writing -/

/-- What stands between the quotes. -/
def escapedText (s : Str) : Str :=
  replaceAll "\n".toList "\\n".toList (replaceAll "\r".toList "\\r".toList
    (replaceAll "\"".toList "\\\"".toList (replaceAll "\\".toList "\\\\".toList s)))

def yamlEscape (s : Str) : Str :=
  if s.isEmpty then "\"\"".toList
  else if ':' ∈ s ∨ '#' ∈ s ∨ '"' ∈ s ∨ '\'' ∈ s ∨ '\n' ∈ s ∨ '\r' ∈ s ∨ startsWith ' ' s ∨
      endsWith ' ' s then '"' :: (escapedText s ++ ['"'])
  else s

/-- `    key: val`, without the end of the line. -/
def savedPair (key val : Str) : Str := "    ".toList ++ (key ++ (": ".toList ++ val))

def ProfileKind.text : ProfileKind → Str
  | .cloud => "cloud".toList
  | .local => "local".toList

/-- The lines that only a profile from the cloud has. -/
def ProfileEntry.savedCloud (p : ProfileEntry) : List Str :=
  (p.url.map fun u => savedPair "url".toList (yamlEscape u)).toList ++
  (p.usedBytes.map fun used => savedPair "used".toList (ofInt used.toInt)).toList ++
  ((p.totalBytes.filter (0 < ·)).map fun total =>
    savedPair "total".toList (ofInt total.toInt)).toList ++
  ((p.expireUnix.filter (0 < ·)).map fun exp =>
    savedPair "expire".toList (ofInt exp.toInt)).toList

def ProfileEntry.saved (p : ProfileEntry) : List Str :=
  ["  - name: ".toList ++ yamlEscape p.name, savedPair "hash".toList p.hash,
    savedPair "type".toList p.kind.text] ++ if p.kind = .cloud then p.savedCloud else []

namespace ProfileStore

def saved (st : ProfileStore) : List Str :=
  (st.defaultName.map fun d => "default: ".toList ++ yamlEscape d).toList ++
    "profiles:".toList :: st.profiles.flatMap (·.saved)

/-- What is written to the file. -/
def save (st : ProfileStore) : Bytes := bytes (st.saved.flatMap (· ++ ['\n']))

end ProfileStore

/-! ## Reading -/

/-- What has been read of the file, with the profile that is being read. -/
structure Loading where
  defaultName : Option Str
  profiles : List ProfileEntry
  current : Option ProfileEntry

def ProfileEntry.setPair (c : ProfileEntry) (key val : Str) : ProfileEntry :=
  if key = "name".toList then { c with name := val }
  else if key = "hash".toList ∧ ContentStore.isSafe val then { c with hash := val }
  else if key = "type".toList then
    { c with kind := if eqIgnoreCase val "cloud".toList then .cloud else .local }
  else if key = "url".toList ∧ c.kind = .cloud then { c with url := some val }
  else if key = "used".toList ∧ c.kind = .cloud then { c with usedBytes := parseI64 val }
  else if key = "total".toList ∧ c.kind = .cloud then { c with totalBytes := parseI64 val }
  else if key = "expire".toList ∧ c.kind = .cloud then { c with expireUnix := parseI64 val }
  else c

namespace Loading

/-- The profile that is being read is done. -/
def push (s : Loading) : Loading where
  defaultName := s.defaultName
  profiles := s.profiles ++ (s.current.filter fun c => !c.name.isEmpty && !c.hash.isEmpty).toList
  current := none

def readLine (s : Loading) (raw : Str) : Loading :=
  if (trim raw).isEmpty ∨ startsWith '#' (trimStart raw) then s
  else
    let line := trimEnd raw
    match stripPrefix "default:".toList line with
    | some rest => { s with defaultName := some (unquoted (trim rest)) }
    | none =>
        if "- ".toList.isPrefixOf (trimStart line) then
          let rest := trim ((trimStart line).drop 2)
          let name := match stripPrefix "name:".toList rest with
            | some v => unquoted (trim v)
            | none => []
          { s.push with current := some { name, hash := [], kind := .local } }
        else
          match s.current, splitOnce ':' (trim line) with
          | some c, some (key, val) =>
              { s with current := some (c.setPair (trim key) (unquoted (trim val))) }
          | _, _ => s

end Loading

/-- What a local profile has. -/
def ProfileEntry.cleared (p : ProfileEntry) : ProfileEntry :=
  if p.kind = .local then
    { p with url := none, usedBytes := none, totalBytes := none, expireUnix := none }
  else p

/-- The store, and the error of loading it. -/
def loadFromFile (data : Bytes) : ProfileStore × Option String :=
  match fromUtf8 data with
  | none => (.new, some "配置读取失败")
  | some text =>
      let s := ((lines text).foldl Loading.readLine ⟨none, [], none⟩).push
      let profiles := s.profiles.map (·.cleared)
      (⟨profiles, s.defaultName <|> profiles.head?.map (·.name)⟩, none)

/-- `file` is what the file of the profiles has in it, if it is there. -/
def loadOrMigrate : Option Bytes → ProfileStore × Option String
  | none => (.new, none)
  | some data => loadFromFile data

/-! ## Escapes -/

/-- The text has no line break in it. -/
def SingleLine (s : Str) : Prop := '\n' ∉ s ∧ '\r' ∉ s

instance (s : Str) : Decidable (SingleLine s) := inferInstanceAs (Decidable (_ ∧ _))

theorem replace_char {c : Char} {new : Str} : ∀ {fuel : Nat} {s : Str}, s.length < fuel →
    replace [c] new fuel s = s.flatMap fun d => if d = c then new else [d]
  | 0, _, h => absurd h (Nat.not_lt_zero _)
  | _ + 1, [], _ => rfl
  | fuel + 1, d :: ds, h => by
      have ih := @replace_char c new fuel ds (Nat.lt_of_succ_lt_succ h)
      rw [replace, List.flatMap_cons, ← ih]
      by_cases hd : d = c
      · subst hd
        rw [if_pos (by simp [List.isPrefixOf]), if_pos rfl]
        rfl
      · rw [if_neg (by simp [List.isPrefixOf, Ne.symm hd]), if_neg hd]
        rfl

theorem replaceAll_char (c : Char) (new s : Str) :
    replaceAll [c] new s = s.flatMap fun d => if d = c then new else [d] :=
  replace_char (Nat.lt_succ_self _)

/-- A character that is replaced by others is gone. -/
theorem notMem_replaceAll_char {c : Char} {new : Str} (hnew : c ∉ new) (s : Str) :
    c ∉ replaceAll [c] new s := by
  rw [replaceAll_char, List.mem_flatMap]
  rintro ⟨d, -, hc⟩
  split at hc
  · exact hnew hc
  · next hd => exact hd (List.mem_singleton.mp hc).symm

theorem notMem_replace {c : Char} {pat new : Str} (hnew : c ∉ new) : ∀ (fuel : Nat) {s : Str},
    c ∉ s → c ∉ replace pat new fuel s
  | 0, _, h => h
  | _ + 1, [], _ => List.not_mem_nil
  | fuel + 1, d :: ds, h => by
      rw [replace]
      split
      · rw [List.mem_append, not_or]
        exact ⟨hnew, notMem_replace hnew fuel fun hmem => h (List.mem_of_mem_drop hmem)⟩
      · rw [List.mem_cons, not_or] at h ⊢
        exact ⟨h.1, notMem_replace hnew fuel h.2⟩

theorem notMem_replaceAll {c : Char} {pat new s : Str} (hnew : c ∉ new) (h : c ∉ s) :
    c ∉ replaceAll pat new s := notMem_replace hnew _ h

theorem replaceAll_ne_nil {pat new s : Str} (hnew : new ≠ []) (h : s ≠ []) :
    replaceAll pat new s ≠ [] := by
  obtain ⟨c, cs, rfl⟩ := List.exists_cons_of_ne_nil h
  rw [replaceAll, replace]
  split
  · exact List.append_ne_nil_of_left_ne_nil hnew _
  · exact List.cons_ne_nil _ _

/-- A text is written as it is, or between quotes. -/
theorem yamlEscape_cases (s : Str) :
    (yamlEscape s = s ∧ s ≠ [] ∧ SingleLine s ∧ '"' ∉ s ∧ '\'' ∉ s) ∨
      yamlEscape s = '"' :: (escapedText s ++ ['"']) := by
  rw [yamlEscape]
  split
  · next hnil =>
      rw [List.isEmpty_iff.mp hnil]
      exact .inr rfl
  · next hne =>
      split
      · exact .inr rfl
      · next hplain =>
          simp only [not_or] at hplain
          obtain ⟨-, -, hdouble, hsingle, hlf, hcr, -, -⟩ := hplain
          exact .inl ⟨rfl, fun hnil => hne (by rw [hnil]; rfl), ⟨hlf, hcr⟩, hdouble, hsingle⟩

theorem singleLine_escapedText (s : Str) : SingleLine (escapedText s) :=
  ⟨notMem_replaceAll_char (by decide) _,
    notMem_replaceAll (by decide) (notMem_replaceAll_char (by decide) _)⟩

/-- No line break is written in a text. -/
theorem singleLine_yamlEscape (s : Str) : SingleLine (yamlEscape s) := by
  rcases yamlEscape_cases s with ⟨heq, -, h, -, -⟩ | heq
  · rw [heq]
    exact h
  · obtain ⟨hlf, hcr⟩ := singleLine_escapedText s
    rw [heq]
    exact ⟨by simp [hlf], by simp [hcr]⟩

/-- Escaping the backslashes first and then the quotes escapes each character on its own. -/
theorem replaceAll_escaped (s : Str) :
    replaceAll "\"".toList "\\\"".toList (replaceAll "\\".toList "\\\\".toList s) =
      Scalar.escaped s := by
  show replaceAll ['"'] ['\\', '"'] (replaceAll ['\\'] ['\\', '\\'] s) = _
  rw [replaceAll_char, replaceAll_char]
  induction s with
  | nil => rfl
  | cons c cs ih =>
      rw [List.flatMap_cons, List.flatMap_append, ih, Scalar.escaped_cons]
      congr 1
      by_cases hb : c = '\\'
      · subst hb
        rfl
      · by_cases hq : c = '"'
        · subst hq
          rfl
        · simp [hb, hq]

theorem escapedText_of_singleLine {s : Str} (h : SingleLine s) :
    escapedText s = Scalar.escaped s := by
  have hkept : ∀ c ∈ ['\n', '\r'], c ∉ s → ¬ [c] <:+: Scalar.escaped s := by
    intro c hc hs hin
    have hmem : c ∈ Scalar.escaped s := hin.subset List.mem_cons_self
    rw [Scalar.escaped, List.mem_flatMap] at hmem
    obtain ⟨d, hd, hcd⟩ := hmem
    split at hcd
    · rcases List.mem_cons.mp hcd with rfl | hcd
      · simp at hc
      · exact hs (List.mem_singleton.mp hcd ▸ hd)
    · exact hs (List.mem_singleton.mp hcd ▸ hd)
  rw [escapedText, replaceAll_escaped]
  rw [show replaceAll "\r".toList "\\r".toList (Scalar.escaped s) = Scalar.escaped s from
    replace_of_not_infix _ (hkept '\r' (by decide) h.2)]
  exact replace_of_not_infix _ (hkept '\n' (by decide) h.1)

theorem unquoted_quoted (s : Str) : unquoted ('"' :: (s ++ ['"'])) =
    replaceAll "\\\\".toList "\\".toList (replaceAll "\\\"".toList "\"".toList s) :=
  Except.ok.inj ((unquote_eq _).symm.trans (Scalar.unquote_quoted (.inl rfl) s))

/-- A text that starts with no quote is what it stands for. -/
theorem unquoted_plain {s : Str} (h : ∀ c ∈ s.head?, c ≠ '"' ∧ c ≠ '\'') : unquoted s = s := by
  have hstart (q : Char) (hq : q = '"' ∨ q = '\'') : startsWith q s = false := by
    refine decide_eq_false fun hs => ?_
    obtain ⟨h1, h2⟩ := h q hs
    exact hq.elim h1 h2
  have hplain : unquote s = .ok s := by
    rw [unquote, hstart '"' (.inl rfl), hstart '\'' (.inr rfl), if_neg (by simp)]
  exact Except.ok.inj ((unquote_eq s).symm.trans hplain)

/-- What is read back of a text. -/
def reread (s : Str) : Str := unquoted (yamlEscape s)

theorem reread_cases (s : Str) : (reread s = s ∧ s ≠ [] ∧ SingleLine s) ∨
    reread s = replaceAll "\\\\".toList "\\".toList
      (replaceAll "\\\"".toList "\"".toList (escapedText s)) := by
  rw [reread]
  rcases yamlEscape_cases s with ⟨heq, hne, hs, hdouble, hsingle⟩ | heq
  · have hplain : unquoted s = s := by
      refine unquoted_plain fun c hc => ⟨?_, ?_⟩
      · rintro rfl
        exact hdouble (List.mem_of_mem_head? hc)
      · rintro rfl
        exact hsingle (List.mem_of_mem_head? hc)
    exact .inl ⟨by rw [heq, hplain], hne, hs⟩
  · rw [heq, unquoted_quoted]
    exact .inr rfl

/-- Exactly the texts without a line break are read back. -/
theorem reread_eq_iff {s : Str} : reread s = s ↔ SingleLine s := by
  rcases reread_cases s with ⟨heq, -, hs⟩ | heq
  · exact iff_of_true heq hs
  · rw [heq]
    constructor
    · intro h
      obtain ⟨hlf, hcr⟩ := singleLine_escapedText s
      rw [← h]
      exact ⟨notMem_replaceAll (by decide) (notMem_replaceAll (by decide) hlf),
        notMem_replaceAll (by decide) (notMem_replaceAll (by decide) hcr)⟩
    · intro h
      rw [escapedText_of_singleLine h, replaceAll, replaceAll,
        Scalar.replace_quote_escaped s (Nat.lt_succ_self _),
        Scalar.replace_backslash_halfEscaped s (Nat.lt_succ_self _)]

theorem reread_ne_nil {s : Str} (h : s ≠ []) : reread s ≠ [] := by
  rcases reread_cases s with ⟨heq, -, -⟩ | heq
  · rwa [heq]
  · have hne : ∀ {pat new t : Str}, new ≠ [] → t ≠ [] → replaceAll pat new t ≠ [] :=
      replaceAll_ne_nil
    rw [heq]
    refine hne (by decide) (hne (by decide) ?_)
    exact hne (by decide) (hne (by decide) (hne (by decide) (hne (by decide) h)))

/-! ## Lines -/

theorem yamlEscape_ne_nil (s : Str) : yamlEscape s ≠ [] := by
  rcases yamlEscape_cases s with ⟨heq, hne, -⟩ | heq
  · rwa [heq]
  · rw [heq]
    exact List.cons_ne_nil _ _

theorem tight_yamlEscape {s : Str} (h : Tight s) : Tight (yamlEscape s) := by
  rcases yamlEscape_cases s with ⟨heq, -⟩ | heq
  · rwa [heq]
  · rw [heq]
    exact (tight_singleton rfl).append (tight_singleton rfl) (List.cons_ne_nil _ _)
      (List.cons_ne_nil _ _) _

/-- Lines without line breaks in them are the lines of the text that they make. -/
theorem lines_flatMap {ls : List Str} (h : ∀ l ∈ ls, SingleLine l) :
    lines (ls.flatMap (· ++ ['\n'])) = ls := by
  induction ls with
  | nil => rfl
  | cons l ls ih =>
      obtain ⟨⟨hlf, hcr⟩, hls⟩ := List.forall_mem_cons.mp h
      rw [List.flatMap_cons, List.append_assoc, List.singleton_append, lines_append _ hlf,
        dropCr_of_notMem hcr, ih hls]

theorem trimEnd_eq_self {s : Str} (h : ∀ c ∈ s.getLast?, isWhiteSpace c = false) :
    trimEnd s = s := by
  rw [trimEnd, List.rdropWhile_eq_self_iff]
  intro hne
  rw [h _ (List.getLast_mem_getLast? hne)]
  exact Bool.false_ne_true

/-- A line `l` behind spaces. -/
structure Indented (n : Nat) (l raw : Str) : Prop where
  raw_eq : raw = spaces n ++ l
  nonempty : l ≠ []
  tight : Tight l
  noComment : startsWith '#' l = false

namespace Indented

variable {n : Nat} {l raw : Str} (h : Indented n l raw)
include h

theorem trim_eq : trim raw = l := by rw [h.raw_eq, trim_spaces n h.tight]

theorem trimStart_eq : trimStart raw = l := by
  obtain ⟨c, cs, hl⟩ := List.exists_cons_of_ne_nil h.nonempty
  have htight := h.tight
  rw [hl] at htight
  rw [h.raw_eq, hl, trimStart_spaces n htight]

theorem trimEnd_eq : trimEnd raw = raw := by
  refine trimEnd_eq_self ?_
  rw [h.raw_eq, List.getLast?_append_of_ne_nil _ h.nonempty]
  exact h.tight.last

theorem not_skipped : ¬ ((trim raw).isEmpty ∨ startsWith '#' (trimStart raw)) := by
  rw [h.trim_eq, h.trimStart_eq, h.noComment, List.isEmpty_iff]
  simp [h.nonempty]

end Indented

namespace Loading

variable {s : Loading} {v : Str}

theorem readLine_default (hv : Tight v) (hne : v ≠ []) :
    s.readLine ("default: ".toList ++ v) = { s with defaultName := some (unquoted v) } := by
  have htight : Tight ("default:".toList ++ ([' '] ++ v)) :=
    Tight.append (by decide) hv (by decide) hne [' ']
  have h : Indented 0 ("default:".toList ++ ([' '] ++ v)) ("default: ".toList ++ v) :=
    ⟨rfl, by simp, htight, rfl⟩
  have hrest : stripPrefix "default:".toList ("default: ".toList ++ v) = some (' ' :: v) := rfl
  rw [readLine, if_neg h.not_skipped, h.trimEnd_eq]
  dsimp only
  rw [hrest]
  dsimp only
  rw [trim_cons rfl, trim_eq_self hv]

theorem readLine_profiles (hs : s.current = none) : s.readLine "profiles:".toList = s := by
  have h : Indented 0 "profiles:".toList "profiles:".toList := ⟨rfl, by decide, by decide, rfl⟩
  have hno : stripPrefix "default:".toList "profiles:".toList = none := rfl
  have hitem : "- ".toList.isPrefixOf "profiles:".toList = false := rfl
  rw [readLine, if_neg h.not_skipped, h.trimEnd_eq]
  dsimp only
  rw [hno, h.trimStart_eq, hitem, hs]
  rfl

theorem readLine_name (hv : Tight v) (hne : v ≠ []) :
    s.readLine ("  - name: ".toList ++ v) =
      ⟨s.defaultName, s.push.profiles,
        some { name := unquoted v, hash := [], kind := .local }⟩ := by
  have htight : Tight ("- name:".toList ++ ([' '] ++ v)) :=
    Tight.append (by decide) hv (by decide) hne [' ']
  have hname : Tight ("name:".toList ++ ([' '] ++ v)) :=
    Tight.append (by decide) hv (by decide) hne [' ']
  have h : Indented 2 ("- name:".toList ++ ([' '] ++ v)) ("  - name: ".toList ++ v) :=
    ⟨rfl, by simp, htight, rfl⟩
  have hno : stripPrefix "default:".toList ("  - name: ".toList ++ v) = none := rfl
  have hitem : "- ".toList.isPrefixOf ("- name:".toList ++ ([' '] ++ v)) = true := rfl
  have hdrop : ("- name:".toList ++ ([' '] ++ v)).drop 2 = "name:".toList ++ ([' '] ++ v) := rfl
  have hrest : stripPrefix "name:".toList ("name:".toList ++ ([' '] ++ v)) = some (' ' :: v) := rfl
  rw [readLine, if_neg h.not_skipped, h.trimEnd_eq]
  dsimp only
  rw [hno, h.trimStart_eq, hitem, if_pos rfl, hdrop, trim_eq_self hname, hrest]
  dsimp only
  rw [trim_cons rfl, trim_eq_self hv]
  rfl

/-- A line `    key: v` of the profile that is being read. -/
theorem readLine_pair {d : Option Str} {ps : List ProfileEntry} {c c' : ProfileEntry} {key : Str}
    (hk : Key key) (hv : Tight v) (hne : v ≠ []) (hc : c.setPair key (unquoted v) = c') :
    readLine ⟨d, ps, some c⟩ (savedPair key v) = ⟨d, ps, some c'⟩ := by
  have hassoc : ": ".toList ++ v = [':', ' '] ++ v := rfl
  have htight : Tight (key ++ ([':', ' '] ++ v)) := hk.tight.append hv hk.nonempty hne _
  obtain ⟨k, ks, hkey⟩ := List.exists_cons_of_ne_nil hk.nonempty
  have hfirst : k ∉ '-' :: '?' :: indicators := hk.indicator k (by rw [hkey]; rfl)
  have hcomment : startsWith '#' (key ++ ([':', ' '] ++ v)) = false := by
    refine decide_eq_false fun hhead => hfirst ?_
    rw [hkey] at hhead
    cases hhead
    decide
  have h : Indented 4 (key ++ ([':', ' '] ++ v)) (savedPair key v) :=
    ⟨rfl, by simp, htight, hcomment⟩
  have hno : stripPrefix "default:".toList (savedPair key v) = none := rfl
  have hitem : "- ".toList.isPrefixOf (key ++ ([':', ' '] ++ v)) = false := by
    refine Bool.eq_false_iff.mpr fun hpre => hfirst ?_
    obtain ⟨t, ht⟩ := List.isPrefixOf_iff_prefix.mp hpre
    rw [hkey] at ht
    have heq : '-' :: (' ' :: t) = k :: (ks ++ ([':', ' '] ++ v)) := ht
    obtain ⟨rfl, -⟩ := List.cons.inj heq
    exact List.mem_cons_self
  have hsplit : splitOnce ':' (key ++ ([':', ' '] ++ v)) = some (key, ' ' :: v) :=
    splitOnce_append (' ' :: v) hk.noColon
  rw [readLine, if_neg h.not_skipped, h.trimEnd_eq]
  dsimp only
  rw [hno, h.trimStart_eq, hitem, h.trim_eq, hsplit]
  simp only [Bool.false_eq_true, if_false]
  rw [trim_eq_self hk.tight, trim_cons rfl, trim_eq_self hv, hc]

end Loading

/-! ## Profiles -/

theorem tight_of_visible {s : Str} (h : ∀ c ∈ s, isWhiteSpace c = false) : Tight s where
  first c hc := h c (List.mem_of_mem_head? hc)
  last c hc := h c (List.mem_of_getLast? hc)

theorem mem_ofInt {i : Int} {c : Char} (h : c ∈ ofInt i) : c = '-' ∨ '0' ≤ c ∧ c ≤ '9' := by
  cases i with
  | ofNat n => exact .inr (isDigit_of_mem_ofNat h)
  | negSucc n =>
      rcases List.mem_cons.mp h with rfl | h
      · exact .inl rfl
      · exact .inr (isDigit_of_mem_ofNat h)

theorem ofInt_ne_nil (i : Int) : ofInt i ≠ [] := by
  cases i with
  | ofNat n => exact ofNat_ne_nil
  | negSucc n => exact List.cons_ne_nil _ _

theorem tight_ofInt (i : Int) : Tight (ofInt i) := by
  refine tight_of_visible fun c hc => ?_
  rcases mem_ofInt hc with rfl | hdigit
  · rfl
  · exact isWhiteSpace_digit hdigit

/-- A text of visible characters without quotes, as a safe hash and a number are. -/
theorem unquoted_ofInt (i : Int) : unquoted (ofInt i) = ofInt i := by
  refine unquoted_plain fun c hc => ?_
  rcases mem_ofInt (List.mem_of_mem_head? hc) with rfl | hdigit
  · exact ⟨by decide, by decide⟩
  · constructor
    · rintro rfl
      exact absurd hdigit (by decide)
    · rintro rfl
      exact absurd hdigit (by decide)

theorem hexdigit_cases {c : Char} (h : ContentStore.isAsciiHexdigit c = true) :
    isWhiteSpace c = false ∧ c ≠ '"' ∧ c ≠ '\'' ∧ c ≠ '\n' ∧ c ≠ '\r' := by
  have hrange : 48 ≤ c.toNat ∧ c.toNat ≤ 102 ∧ c.toNat ≠ 39 := by
    simp only [ContentStore.isAsciiHexdigit, Bool.or_eq_true, Bool.and_eq_true,
      decide_eq_true_eq, char_le_iff] at h
    have h0 : '0'.toNat = 48 := rfl
    have h9 : '9'.toNat = 57 := rfl
    have ha : 'a'.toNat = 97 := rfl
    have hf : 'f'.toNat = 102 := rfl
    have hA : 'A'.toNat = 65 := rfl
    have hF : 'F'.toNat = 70 := rfl
    omega
  have hne (d : Char) (hd : d.toNat < 48) : c ≠ d := by
    rintro rfl
    omega
  refine ⟨?_, hne '"' (by decide), hne '\'' (by decide), hne '\n' (by decide), hne '\r' (by decide)⟩
  simp only [isWhiteSpace, Bool.or_eq_false_iff, Bool.and_eq_false_iff, decide_eq_false_iff_not,
    beq_eq_false_iff_ne]
  omega

theorem isSafe_chars {hash : Str} (h : ContentStore.isSafe hash = true) :
    hash ≠ [] ∧ ∀ c ∈ hash, ContentStore.isAsciiHexdigit c = true := by
  simp only [ContentStore.isSafe, Bool.and_eq_true, decide_eq_true_eq, List.all_eq_true] at h
  refine ⟨?_, h.2⟩
  rintro rfl
  exact absurd h.1.1.1.1.1 (by decide)

theorem SingleLine.append {s t : Str} (hs : SingleLine s) (ht : SingleLine t) :
    SingleLine (s ++ t) :=
  ⟨fun h => (List.mem_append.mp h).elim hs.1 ht.1, fun h => (List.mem_append.mp h).elim hs.2 ht.2⟩

theorem SingleLine.savedPair {key v : Str} (hk : SingleLine key) (hv : SingleLine v) :
    SingleLine (savedPair key v) :=
  have hspaces : SingleLine "    ".toList := by decide
  have hcolon : SingleLine ": ".toList := by decide
  hspaces.append (hk.append (hcolon.append hv))

theorem singleLine_ofInt (i : Int) : SingleLine (ofInt i) := by
  have hall {c : Char} (h : c ∈ ofInt i) : c ≠ '\n' ∧ c ≠ '\r' := by
    rcases mem_ofInt h with rfl | hdigit
    · exact ⟨by decide, by decide⟩
    · constructor
      · rintro rfl
        exact absurd hdigit (by decide)
      · rintro rfl
        exact absurd hdigit (by decide)
  exact ⟨fun h => (hall h).1 rfl, fun h => (hall h).2 rfl⟩

namespace ProfileEntry

/-- What is written of the profile can be read: an address goes with a kind that has one. -/
structure Savable (p : ProfileEntry) : Prop where
  name : Tight p.name ∧ p.name ≠ []
  hash : ContentStore.isSafe p.hash = true
  url : ∀ u, p.url = some u → Tight u ∧ u ≠ []
  cleared : p.cleared = p

/-- What is read back of a profile. -/
def reread (p : ProfileEntry) : ProfileEntry := { p with
  name := Config.reread p.name
  url := p.url.map Config.reread
  totalBytes := p.totalBytes.filter (0 < ·)
  expireUnix := p.expireUnix.filter (0 < ·) }

theorem Savable.reread_cleared {p : ProfileEntry} (h : p.Savable) :
    p.reread.cleared = p.reread := by
  have hp := h.cleared
  rw [ProfileEntry.cleared] at hp ⊢
  split
  · next hkind =>
      rw [if_pos (show p.kind = .local from hkind)] at hp
      rw [← hp]
      rfl
  · rfl

theorem Savable.singleLine {p : ProfileEntry} (h : p.Savable) : ∀ l ∈ p.saved, SingleLine l := by
  have hhash : SingleLine p.hash := by
    have hdigits := (isSafe_chars h.hash).2
    exact ⟨fun hm => (hexdigit_cases (hdigits _ hm)).2.2.2.1 rfl,
      fun hm => (hexdigit_cases (hdigits _ hm)).2.2.2.2 rfl⟩
  have hkind : SingleLine p.kind.text := by cases p.kind <;> decide
  have hlead : SingleLine "  - name: ".toList := by decide
  have hcloud : ∀ l ∈ p.savedCloud, SingleLine l := by
    intro l hl
    simp only [savedCloud, List.mem_append, Option.mem_toList, Option.map_eq_some_iff] at hl
    rcases hl with ((⟨u, -, rfl⟩ | ⟨n, -, rfl⟩) | ⟨n, -, rfl⟩) | ⟨n, -, rfl⟩
    · exact .savedPair (by decide) (singleLine_yamlEscape u)
    · exact .savedPair (by decide) (singleLine_ofInt _)
    · exact .savedPair (by decide) (singleLine_ofInt _)
    · exact .savedPair (by decide) (singleLine_ofInt _)
  intro l hl
  rw [saved, List.mem_append, List.mem_cons, List.mem_cons, List.mem_singleton] at hl
  rcases hl with (rfl | rfl | rfl) | hl
  · exact hlead.append (singleLine_yamlEscape p.name)
  · exact .savedPair (by decide) hhash
  · exact .savedPair (by decide) hkind
  · split at hl
    · exact hcloud l hl
    · cases hl

end ProfileEntry

namespace Loading

theorem foldl_option {α : Type} {o : Option α} {f : α → Str} {s t : Loading}
    (hnone : o = none → s = t) (hsome : ∀ a, o = some a → s.readLine (f a) = t) :
    (o.map f).toList.foldl readLine s = t := by
  cases o with
  | none => exact hnone rfl
  | some a => exact hsome a rfl

/-- A line of a number. -/
theorem readLine_number {d : Option Str} {ps : List ProfileEntry} {c c' : ProfileEntry} {key : Str}
    {n : Int64} (hk : Key key) (hc : c.setPair key (ofInt n.toInt) = c') :
    readLine ⟨d, ps, some c⟩ (savedPair key (ofInt n.toInt)) = ⟨d, ps, some c'⟩ :=
  readLine_pair hk (tight_ofInt _) (ofInt_ne_nil _) (by rw [unquoted_ofInt, hc])

/-- The lines that only a profile from the cloud has. -/
theorem foldl_cloud {p : ProfileEntry} {n : Str} {d : Option Str} {ps : List ProfileEntry}
    (hkind : p.kind = .cloud) (hurl : ∀ u, p.url = some u → Tight u ∧ u ≠ []) :
    p.savedCloud.foldl readLine ⟨d, ps, some { name := n, hash := p.hash, kind := .cloud }⟩ =
      ⟨d, ps, some { p.reread with name := n }⟩ := by
  obtain ⟨name, hash, kind, url, used, total, exp⟩ := p
  obtain rfl : kind = .cloud := hkind
  have hnumber {key : Str} {c c' : ProfileEntry} {o : Option Int64} (hk : Key key)
      (hnone : o = none → c = c') (hsome : ∀ m, o = some m → c.setPair key (ofInt m.toInt) = c') :
      (o.map fun m => savedPair key (ofInt m.toInt)).toList.foldl readLine ⟨d, ps, some c⟩ =
        ⟨d, ps, some c'⟩ :=
    foldl_option (fun ho => by rw [hnone ho]) fun m hm => readLine_number hk (hsome m hm)
  have hurls : (url.map fun u => savedPair "url".toList (yamlEscape u)).toList.foldl readLine
      ⟨d, ps, some ⟨n, hash, .cloud, none, none, none, none⟩⟩ =
        ⟨d, ps, some ⟨n, hash, .cloud, url.map Config.reread, none, none, none⟩⟩ := by
    refine foldl_option (fun hu => by rw [show url = none from hu]; rfl) fun u hu => ?_
    obtain ⟨hut, -⟩ := hurl u hu
    obtain rfl : url = some u := hu
    exact readLine_pair (by decide) (tight_yamlEscape hut) (yamlEscape_ne_nil u) rfl
  have hused : (used.map fun used => savedPair "used".toList (ofInt used.toInt)).toList.foldl
      readLine ⟨d, ps, some ⟨n, hash, .cloud, url.map Config.reread, none, none, none⟩⟩ =
        ⟨d, ps, some ⟨n, hash, .cloud, url.map Config.reread, used, none, none⟩⟩ :=
    hnumber (by decide) (fun h => by rw [h]) fun m hm => by
      rw [hm, ← parseI64_ofInt m]
      rfl
  have htotal : ((total.filter (0 < ·)).map fun total =>
      savedPair "total".toList (ofInt total.toInt)).toList.foldl readLine
        ⟨d, ps, some ⟨n, hash, .cloud, url.map Config.reread, used, none, none⟩⟩ =
        ⟨d, ps, some ⟨n, hash, .cloud, url.map Config.reread, used, total.filter (0 < ·), none⟩⟩ :=
    hnumber (by decide) (fun h => by rw [h]) fun m hm => by
      rw [hm, ← parseI64_ofInt m]
      rfl
  have hexpire : ((exp.filter (0 < ·)).map fun exp =>
      savedPair "expire".toList (ofInt exp.toInt)).toList.foldl readLine
        ⟨d, ps, some ⟨n, hash, .cloud, url.map Config.reread, used, total.filter (0 < ·), none⟩⟩ =
        ⟨d, ps, some ⟨n, hash, .cloud, url.map Config.reread, used, total.filter (0 < ·),
          exp.filter (0 < ·)⟩⟩ :=
    hnumber (by decide) (fun h => by rw [h]) fun m hm => by
      rw [hm, ← parseI64_ofInt m]
      rfl
  rw [ProfileEntry.savedCloud, List.foldl_append, List.foldl_append, List.foldl_append]
  dsimp only
  rw [hurls, hused, htotal, hexpire]
  rfl

/-- The lines of a profile. -/
theorem foldl_saved {p : ProfileEntry} (h : p.Savable) (s : Loading) :
    p.saved.foldl readLine s = ⟨s.defaultName, s.push.profiles, some p.reread⟩ := by
  obtain ⟨⟨htight, hne⟩, hsafe, hurl, hcleared⟩ := h
  obtain ⟨hnil, hdigits⟩ := isSafe_chars hsafe
  have hplain : unquoted p.hash = p.hash := by
    refine unquoted_plain fun c hc => ?_
    obtain ⟨-, hdouble, hsingle, -⟩ := hexdigit_cases (hdigits c (List.mem_of_mem_head? hc))
    exact ⟨hdouble, hsingle⟩
  have hhash : Tight p.hash := tight_of_visible fun c hc => (hexdigit_cases (hdigits c hc)).1
  have hhashLine : readLine ⟨s.defaultName, s.push.profiles,
      some { name := Config.reread p.name, hash := [], kind := .local }⟩
      (savedPair "hash".toList p.hash) = ⟨s.defaultName, s.push.profiles,
        some { name := Config.reread p.name, hash := p.hash, kind := .local }⟩ :=
    readLine_pair (by decide) hhash hnil (by
      rw [hplain, ProfileEntry.setPair, if_neg (by decide), if_pos ⟨rfl, hsafe⟩])
  have htype : readLine ⟨s.defaultName, s.push.profiles,
      some { name := Config.reread p.name, hash := p.hash, kind := .local }⟩
      (savedPair "type".toList p.kind.text) = ⟨s.defaultName, s.push.profiles,
        some { name := Config.reread p.name, hash := p.hash, kind := p.kind }⟩ := by
    cases p.kind with
    | cloud => exact readLine_pair (by decide) (by decide) (by decide) rfl
    | «local» => exact readLine_pair (by decide) (by decide) (by decide) rfl
  rw [ProfileEntry.saved, List.foldl_append, List.foldl_cons, List.foldl_cons, List.foldl_cons,
    List.foldl_nil, readLine_name (tight_yamlEscape htight) (yamlEscape_ne_nil p.name),
    show unquoted (yamlEscape p.name) = Config.reread p.name from rfl, hhashLine, htype]
  cases hkind : p.kind with
  | «local» =>
      have hp : { p with url := none, usedBytes := none, totalBytes := none, expireUnix := none } =
          p := by
        rwa [ProfileEntry.cleared, if_pos hkind] at hcleared
      rw [if_neg (by decide), List.foldl_nil, ← hp, ← hkind]
      rfl
  | cloud =>
      rw [if_pos rfl, foldl_cloud hkind hurl]
      rfl

end Loading

/-! ## The file -/

namespace Loading

/-- The lines of a list of profiles. -/
theorem foldl_profiles {ps : List ProfileEntry} (h : ∀ p ∈ ps, p.Savable) (s : Loading) :
    ((ps.flatMap (·.saved)).foldl readLine s).push =
      ⟨s.defaultName, s.push.profiles ++ ps.map (·.reread), none⟩ := by
  induction ps generalizing s with
  | nil =>
      rw [List.map_nil, List.append_nil]
      rfl
  | cons p ps ih =>
      obtain ⟨hp, hps⟩ := List.forall_mem_cons.mp h
      have hname : (Config.reread p.name).isEmpty = false := by
        rw [Bool.eq_false_iff, ne_eq, List.isEmpty_iff]
        exact reread_ne_nil hp.name.2
      have hhash : p.hash.isEmpty = false := by
        rw [Bool.eq_false_iff, ne_eq, List.isEmpty_iff]
        exact (isSafe_chars hp.hash).1
      have hkept : (some p.reread).filter (fun c => !c.name.isEmpty && !c.hash.isEmpty) =
          some p.reread := by
        rw [Option.filter_some, if_pos]
        rw [show p.reread.name = Config.reread p.name from rfl, hname,
          show p.reread.hash = p.hash from rfl, hhash]
        rfl
      rw [List.flatMap_cons, List.foldl_append, foldl_saved hp, ih hps]
      have hpush : (push ⟨s.defaultName, s.push.profiles, some p.reread⟩).profiles =
          s.push.profiles ++ [p.reread] := by
        rw [push, hkept]
        rfl
      rw [hpush, List.append_assoc]
      rfl

end Loading

namespace ProfileStore

/-- What is written of the store can be read. -/
structure Savable (st : ProfileStore) : Prop where
  profiles : ∀ p ∈ st.profiles, p.Savable
  default_mem : ∀ n, st.defaultName = some n → n ∈ st.names
  default_isSome : st.profiles ≠ [] → st.defaultName.isSome

variable {st : ProfileStore}

/-- No line of the file has a line break in it. -/
theorem Savable.singleLine (h : st.Savable) : ∀ l ∈ st.saved, Config.SingleLine l := by
  have hlead : Config.SingleLine "default: ".toList := by decide
  intro l hl
  rw [saved, List.mem_append, List.mem_cons, Option.mem_toList, Option.map_eq_some_iff,
    List.mem_flatMap] at hl
  rcases hl with ⟨d, -, rfl⟩ | rfl | ⟨p, hp, hl⟩
  · exact hlead.append (singleLine_yamlEscape d)
  · decide
  · exact (h.profiles p hp).singleLine l hl

/-- What is read back of a store. -/
def reread (st : ProfileStore) : ProfileStore :=
  ⟨st.profiles.map (·.reread), st.defaultName.map Config.reread⟩

theorem load_save (h : st.Savable) : loadOrMigrate (some st.save) = (st.reread, none) := by
  have htight : ∀ n, st.defaultName = some n → Tight n := by
    intro n hn
    obtain ⟨p, hp, rfl⟩ := List.mem_map.mp (h.default_mem n hn)
    exact (h.profiles p hp).name.1
  have hdefault : (st.defaultName.map fun d => "default: ".toList ++ yamlEscape d).toList.foldl
      Loading.readLine ⟨none, [], none⟩ = ⟨st.defaultName.map Config.reread, [], none⟩ := by
    refine Loading.foldl_option (fun hn => by rw [hn]; rfl) fun d hd => ?_
    rw [Loading.readLine_default (tight_yamlEscape (htight d hd)) (yamlEscape_ne_nil d), hd]
    rfl
  have hlines : (st.saved.foldl Loading.readLine ⟨none, [], none⟩).push =
      ⟨st.defaultName.map Config.reread, st.profiles.map (·.reread), none⟩ := by
    rw [saved, List.foldl_append, hdefault, List.foldl_cons, Loading.readLine_profiles rfl,
      Loading.foldl_profiles h.profiles]
    rfl
  have hcleared : (st.profiles.map (·.reread)).map (·.cleared) = st.profiles.map (·.reread) := by
    rw [List.map_map]
    exact List.map_congr_left fun p hp => (h.profiles p hp).reread_cleared
  rw [loadOrMigrate, loadFromFile, save, fromUtf8_bytes]
  dsimp only
  rw [lines_flatMap h.singleLine, hlines, hcleared, reread]
  cases hd : st.defaultName with
  | some d => rfl
  | none =>
      have hnil : st.profiles = [] := by
        by_contra hne
        have hsome := h.default_isSome hne
        rw [hd] at hsome
        cases hsome
      rw [hnil]
      rfl

/-- A store as it is to be read back: only positive totals and times of expiry are kept. -/
def kept (st : ProfileStore) : ProfileStore :=
  { st with profiles := st.profiles.map fun p => { p with
      totalBytes := p.totalBytes.filter (0 < ·)
      expireUnix := p.expireUnix.filter (0 < ·) } }

/-- No name and no address has a line break in it. -/
def SingleLine (st : ProfileStore) : Prop :=
  ∀ p ∈ st.profiles, Config.SingleLine p.name ∧ ∀ u, p.url = some u → Config.SingleLine u

theorem reread_eq_iff (h : st.Savable) : st.reread = st.kept ↔ st.SingleLine := by
  have hentry (p : ProfileEntry) : p.reread = { p with
      totalBytes := p.totalBytes.filter (0 < ·), expireUnix := p.expireUnix.filter (0 < ·) } ↔
        Config.SingleLine p.name ∧ ∀ u, p.url = some u → Config.SingleLine u := by
    obtain ⟨name, hash, kind, url, used, total, exp⟩ := p
    simp only [ProfileEntry.reread, ProfileEntry.mk.injEq, and_true, true_and,
      Config.reread_eq_iff]
    refine and_congr_right fun _ => ?_
    cases url with
    | none => exact iff_of_true rfl (by intro u hu; cases hu)
    | some u =>
        simp only [Option.map_some, Option.some.injEq, Config.reread_eq_iff, forall_eq']
  have hlist : st.profiles.map (·.reread) = (st.kept).profiles ↔ st.SingleLine :=
    List.map_inj_left.trans (forall₂_congr fun p _ => hentry p)
  constructor
  · intro heq
    exact hlist.mp (congrArg ProfileStore.profiles heq)
  · intro hst
    have hd : st.defaultName.map Config.reread = st.defaultName := by
      cases hn : st.defaultName with
      | none => rfl
      | some n =>
          obtain ⟨p, hp, rfl⟩ := List.mem_map.mp (h.default_mem n hn)
          exact congrArg some (Config.reread_eq_iff.mpr (hst p hp).1)
    rw [reread, hlist.mpr hst, hd]
    rfl

end ProfileStore

/-! ## Calls -/

/-- The text of a UUID without hyphens. -/
def IsUuid (uuid : Str) : Prop :=
  uuid.length = 32 ∧ ∀ c ∈ uuid, ContentStore.isAsciiHexdigit c = true

/-- The UUID that a call may need is one. -/
def ProfileOp.Drawn : ProfileOp → Prop
  | .addLocal uuid _ _ => IsUuid uuid
  | .addCloud uuid _ _ _ _ => IsUuid uuid
  | _ => True

theorem tight_trim (s : Str) : Tight (trim s) where
  first c hc := by
    have hpre : trim s <+: s.dropWhile isWhiteSpace := List.rdropWhile_prefix _ _
    obtain ⟨t, ht⟩ := hpre
    cases hs : trim s with
    | nil =>
        rw [hs] at hc
        cases hc
    | cons d ds =>
        rw [hs] at hc ht
        cases hc
        have hfirst := List.dropWhile_get_zero_not isWhiteSpace s (by rw [← ht]; simp)
        simpa [← ht] using hfirst
  last c hc := by
    have hne : trim s ≠ [] := by
      rintro hnil
      rw [hnil] at hc
      cases hc
    have hlast := List.rdropWhile_last_not isWhiteSpace (s.dropWhile isWhiteSpace) hne
    rw [List.getLast?_eq_getLast_of_ne_nil hne] at hc
    cases hc
    exact Bool.eq_false_iff.mpr hlast

namespace ProfileStore

variable {st : ProfileStore}

theorem allocateUniqueName_tight (st : ProfileStore) {uuid : Str} (h : IsUuid uuid)
    (preferred : Option Str) : Tight (st.allocateUniqueName uuid preferred) ∧
      st.allocateUniqueName uuid preferred ≠ [] := by
  have hbase : ∀ o : Option Str, Tight (((o.map trim).filter (!·.isEmpty)).getD "Proxy".toList) ∧
      ((o.map trim).filter (!·.isEmpty)).getD "Proxy".toList ≠ [] := by
    intro o
    cases o with
    | none => exact ⟨by decide, by decide⟩
    | some s =>
        rw [Option.map_some, Option.filter_some]
        split
        · next hne =>
            refine ⟨tight_trim s, fun hnil => ?_⟩
            rw [show trim s = [] from hnil] at hne
            cases hne
        · exact ⟨by decide, by decide⟩
  obtain ⟨htight, hne⟩ := hbase preferred
  have hvisible : ∀ c ∈ uuid, isWhiteSpace c = false := fun c hc => (hexdigit_cases (h.2 c hc)).1
  have huuid : uuid ≠ [] := by
    rintro rfl
    cases h.1
  simp only [allocateUniqueName]
  generalize ((preferred.map trim).filter (!·.isEmpty)).getD "Proxy".toList = base at htight hne ⊢
  split
  · exact ⟨htight, hne⟩
  · split
    · next i _ =>
        have hdigits : Tight (ofNat i) :=
          tight_of_visible fun c hc => isWhiteSpace_digit (isDigit_of_mem_ofNat hc)
        exact ⟨htight.append hdigits hne ofNat_ne_nil ['#'],
          List.append_ne_nil_of_left_ne_nil hne _⟩
    · exact ⟨htight.append (tight_of_visible hvisible) hne huuid ['#'],
        List.append_ne_nil_of_left_ne_nil hne _⟩

theorem Savable.new : Savable .new where
  profiles p hp := by cases hp
  default_mem n hn := by cases hn
  default_isSome hne := absurd rfl hne

theorem Savable.added (h : st.Savable) {p : ProfileEntry} (hp : p.Savable) :
    Savable ⟨st.profiles ++ [p], some p.name⟩ where
  profiles q hq := by
    rcases List.mem_append.mp hq with hq | hq
    · exact h.profiles q hq
    · rw [List.mem_singleton.mp hq]
      exact hp
  default_mem n hn := by
    cases hn
    simp [names]
  default_isSome _ := rfl

theorem Savable.updated (h : st.Savable) {i : Nat} {p p' : ProfileEntry}
    (hp : st.profiles[i]? = some p) (hname : p'.name = p.name) (hp' : p'.Savable) :
    Savable ⟨st.profiles.set i p', st.defaultName⟩ where
  profiles q hq := by
    rcases List.mem_or_eq_of_mem_set hq with hq | rfl
    · exact h.profiles q hq
    · exact hp'
  default_mem n hn := by
    rw [names, map_name_set hp hname]
    exact h.default_mem n hn
  default_isSome hne := h.default_isSome fun hnil => hne (by rw [hnil, List.set_nil])

/-- The default after a removal is the name of a profile. -/
theorem defaultAfter_mem {ps : List ProfileEntry} {i : Nat} {name n : Str} {old : Option Str}
    (h : Stored.defaultAfter ps i name old = some n) : n ∈ ps.map (·.name) := by
  rw [Stored.defaultAfter] at h
  split at h
  · cases h
  · split at h
    · split at h
      · obtain ⟨p, hp, rfl⟩ := Option.map_eq_some_iff.mp h
        exact List.mem_map_of_mem (List.mem_of_getElem? hp)
      · obtain ⟨p, hp, rfl⟩ := Option.map_eq_some_iff.mp h
        exact List.mem_map_of_mem (List.mem_of_getElem? hp)
    · next hkept =>
        subst h
        simp only [not_or, Option.all_some, List.all_eq_true, decide_eq_true_eq, not_forall,
          not_not] at hkept
        obtain ⟨-, p, hp, rfl⟩ := hkept
        exact List.mem_map_of_mem hp

theorem defaultAfter_isSome {ps : List ProfileEntry} (hne : ps ≠ []) (i : Nat) (name : Str)
    (old : Option Str) : (Stored.defaultAfter ps i name old).isSome := by
  have hpos : 0 < ps.length := List.length_pos_iff.mpr hne
  rw [Stored.defaultAfter, if_neg (by simpa using hne)]
  split
  · split
    · next hi =>
        rw [Option.isSome_map, List.getElem?_eq_getElem hi]
        rfl
    · rw [Option.isSome_map, List.getElem?_eq_getElem hpos]
      rfl
  · next hkept =>
      cases old with
      | none => exact absurd (.inr rfl) hkept
      | some d => rfl

theorem Savable.removed (h : st.Savable) (i : Nat) (name : Str) :
    Savable ⟨st.profiles.eraseIdx i,
      Stored.defaultAfter (st.profiles.eraseIdx i) i name st.defaultName⟩ := by
  exact ⟨fun q hq => h.profiles q (List.mem_of_mem_eraseIdx hq), fun _ => defaultAfter_mem,
    fun hne => defaultAfter_isSome hne i name _⟩

end ProfileStore

namespace Stored

variable {sha : Sha256} {st : Stored} {op : ProfileOp}

/-- A profile from the cloud stays one that can be read, whatever is known of its traffic. -/
theorem savable_applyUserInfo {p : ProfileEntry} (hp : p.Savable) (hkind : p.kind = .cloud)
    (info : Option SubscriptionUserInfo) : (applyUserInfo p info).Savable := by
  obtain ⟨hname, hhash, hkind', hurl⟩ := applyUserInfo_frame p info
  have hcloud : (applyUserInfo p info).kind ≠ .local := by
    rw [hkind', hkind]
    decide
  exact ⟨hname ▸ hp.name, hhash ▸ hp.hash, fun u hu => hp.url u (hurl ▸ hu), if_neg hcloud⟩

theorem savable_perform (h : st.store.Savable) (hop : op.Drawn) :
    (st.perform sha op).2.store.Savable := by
  have hhash (content : Bytes) := ContentStore.isSafe_sha256Hex sha content
  cases op with
  | addLocal uuid name content =>
      refine h.added (p := ⟨st.store.allocateUniqueName uuid name,
        ContentStore.sha256Hex sha content, .local, none, none, none, none⟩) ?_
      exact ⟨st.store.allocateUniqueName_tight hop name, hhash content,
        (by intro u hu; cases hu), rfl⟩
  | addCloud uuid name url content info =>
      rw [perform, addCloud]
      by_cases hblank : (trim url).isEmpty
      · rw [if_pos hblank]
        exact h
      · rw [if_neg hblank]
        refine h.added (savable_applyUserInfo (p := ⟨st.store.allocateUniqueName uuid name,
          ContentStore.sha256Hex sha content, .cloud, some (trim url), none, none, none⟩) ?_ rfl
          info)
        refine ⟨st.store.allocateUniqueName_tight hop name, hhash content, ?_, rfl⟩
        rintro u ⟨⟩
        exact ⟨tight_trim url, fun hnil => hblank (List.isEmpty_iff.mpr hnil)⟩
  | updateCloud name content info =>
      rw [perform]
      rcases updateCloud_cases sha st name content info with ⟨e, heq⟩ | ⟨i, p, hpos, hkind, heq⟩
      · rw [heq]
        exact h
      · obtain ⟨hp, -⟩ := ProfileStore.position_some hpos
        obtain ⟨hpname, -, hpurl, -⟩ := h.profiles p (List.mem_of_getElem? hp)
        have hp' : ProfileEntry.Savable { p with hash := ContentStore.sha256Hex sha content } := by
          refine ⟨hpname, hhash content, hpurl, if_neg ?_⟩
          rw [show ProfileEntry.kind _ = .cloud from hkind]
          decide
        rw [heq]
        exact h.updated hp (applyUserInfo_frame _ info).1 (savable_applyUserInfo hp' hkind info)
  | setDefault name =>
      rw [perform]
      simp only [ProfileStore.setDefault]
      split
      · next hexists =>
          refine ⟨h.profiles, ?_, fun _ => rfl⟩
          rintro n ⟨⟩
          exact ProfileStore.nameExists_iff.mp hexists
      · exact h
  | remove name =>
      rw [perform]
      rcases remove_cases st name with heq | ⟨i, p, -, heq⟩
      · rw [heq]
        exact h
      · rw [heq]
        exact h.removed i name

/-- A call, with a UUID that may be drawn. -/
def Calls (sha : Sha256) (st : Stored) (op : ProfileOp) (st' : Stored) : Prop :=
  op.Drawn ∧ (st.perform sha op).2 = st'

theorem savable_run {ops : List ProfileOp} (h : Run (Calls sha) .new ops st) :
    st.store.Savable := by
  refine h.invariant (I := fun st : Stored => st.store.Savable) ?_ .new
  rintro st op st' hst ⟨hop, rfl⟩
  exact savable_perform hst hop

/-- In every state that calls lead to, saving and loading yields the same profiles and the same
default, but for totals and times that are not positive, if and only if no name and no address has
a line break in it. -/
theorem load_save_iff {ops : List ProfileOp} (h : Run (Calls sha) .new ops st) :
    loadOrMigrate (some st.store.save) = (st.store.kept, none) ↔ st.store.SingleLine := by
  have hst := savable_run h
  rw [ProfileStore.load_save hst, Prod.mk.injEq, and_iff_left rfl, ProfileStore.reread_eq_iff hst]

theorem hexdigit_zeros : ∀ c ∈ List.replicate 32 '0', ContentStore.isAsciiHexdigit c := by
  intro c hc
  rw [List.eq_of_mem_replicate hc]
  rfl

/-- Two profiles, one of them with a name that is put between quotes. -/
theorem load_save_iff_quoted : ∃ sha ops st, Run (Calls sha) .new ops st ∧ st.store.names =
    ["a \\ \"b\": #1".toList, "Proxy".toList] ∧
      loadOrMigrate (some st.store.save) = (st.store.kept, none) := by
  let sha : Sha256 := fun _ => ⟨List.replicate 32 0, List.length_replicate⟩
  have hrun : Run (Calls sha) .new
      [.addLocal (List.replicate 32 '0') (some "a \\ \"b\": #1".toList) [],
      .addCloud (List.replicate 32 '0') none "https://h/p?q#f".toList [1] none] _ :=
    .cons ⟨⟨rfl, hexdigit_zeros⟩, rfl⟩ (.cons ⟨⟨rfl, hexdigit_zeros⟩, rfl⟩ .nil)
  refine ⟨sha, _, _, hrun, by decide, (load_save_iff hrun).mpr ?_⟩
  intro p hp
  rcases List.mem_cons.mp hp with rfl | hp
  · exact ⟨by decide, by intro u hu; cases hu⟩
  · obtain rfl := List.mem_singleton.mp hp
    refine ⟨by decide, fun u hu => ?_⟩
    cases hu
    decide

/-- A name with a line break in it, as a decoded name may have one, is not read back. -/
theorem not_load_save : ¬ ∀ sha ops st, Run (Calls sha) .new ops st →
    loadOrMigrate (some st.store.save) = (st.store.kept, none) := by
  intro h
  let sha : Sha256 := fun _ => ⟨List.replicate 32 0, List.length_replicate⟩
  have hrun : Run (Calls sha) .new [.addLocal (List.replicate 32 '0') (some "a\nb".toList) []] _ :=
    .single ⟨⟨rfl, hexdigit_zeros⟩, rfl⟩
  have hst := savable_run hrun
  have heq := h sha _ _ hrun
  rw [ProfileStore.load_save hst, Prod.mk.injEq, ProfileStore.reread_eq_iff hst] at heq
  have hname := (heq.1 _ List.mem_cons_self).1.1
  exact hname (by decide)

end Stored

end Config

end RustClash
