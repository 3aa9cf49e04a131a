import RustClash.Config.Encoded
import RustClash.Config.Percent
import RustClash.Config.YamlLines
import RustClash.Core.Text

/-!
# The grammar of Shadowsocks links

Links are written from the fields of a node, in either generation of the format and with
any of the encodings.  Reading one back yields the fields again, unless the address is
followed by a slash, the method has a separator in it, or a percent-encoded text is not
ASCII.
-/

namespace RustClash

namespace Config

open Str Checked Base64

/-! ## What is written -/

/-- The characters of a host: no blank, and none that ends it. -/
def isHostChar (c : Char) : Bool := !isWhiteSpace c && !"/?#@[]:".toList.contains c

/-- A host as it is written: a name or an IPv4 address as it is, an IPv6 address in brackets. -/
inductive SsHost where
  | name (s : Str) (chars : ∀ c ∈ s, isHostChar c)
  | v6 (s : Str) (chars : ∀ c ∈ s, isHostChar c ∨ c = ':')

namespace SsHost

def bare : SsHost → Str
  | name s _ => s
  | v6 s _ => s

def text : SsHost → Str
  | name s _ => s
  | v6 s _ => '[' :: (s ++ [']'])

end SsHost

/-- A plugin and its options. -/
structure SsPlugin where
  name : Str
  opts : Option Str
  name_free : ';' ∉ name

def SsPlugin.text (pl : SsPlugin) : Str := pl.name ++ pl.opts.elim [] (';' :: ·)

structure SsFields where
  method : Str
  password : Str
  host : SsHost
  port : UInt16
  plugin : Option SsPlugin
  tag : Option Str

namespace SsFields

def userinfo (f : SsFields) : Str := f.method ++ ':' :: f.password

def address (f : SsFields) : Str := f.host.text ++ ':' :: ofNat f.port.toNat

end SsFields

/-- The user information in base64, in either alphabet and padded or not, or percent-encoded. -/
inductive UserInfo (f : SsFields) : (percent : Bool) → Str → Prop where
  | base64 (forUrl padded : Bool) : UserInfo f false (encodeWith forUrl padded (bytes f.userinfo))
  | percent {e1 e2 : Str} : Encodes (bytes f.method) e1 → Encodes (bytes f.password) e2 →
      UserInfo f true (e1 ++ ':' :: e2)

inductive PluginText : Option SsPlugin → Str → Prop where
  | none : PluginText none []
  | some {pl : SsPlugin} {e : Str} : Encodes (bytes pl.text) e →
      PluginText (some pl) ("?plugin=".toList ++ e)

inductive TagText : Option Str → Str → Prop where
  | none : TagText none []
  | some {tag e : Str} : tag ≠ [] → IsAscii tag → Encodes (bytes tag) e →
      TagText (some tag) ('#' :: e)

/-- SIP002, with the user information and the slash as they may be, or the form before it. -/
inductive SsForm where
  | sip002 (percent slash : Bool)
  | legacy

/-- The text after the scheme and before the tag. -/
inductive SsBody (f : SsFields) : SsForm → Str → Prop where
  | sip002 {percent slash : Bool} {u q : Str} : UserInfo f percent u → PluginText f.plugin q →
      SsBody f (.sip002 percent slash)
        (u ++ '@' :: (f.address ++ (if slash then ['/'] else []) ++ q))
  | legacy (forUrl padded : Bool) : f.plugin = none → '@' ∉ f.password →
      SsBody f .legacy (encodeWith forUrl padded (bytes (f.userinfo ++ '@' :: f.address)))

/-- The links of the two formats. -/
inductive SsLink (f : SsFields) (form : SsForm) : Str → Prop where
  | of {body t : Str} : SsBody f form body → TagText f.tag t →
      SsLink f form ("ss://".toList ++ (body ++ t))

/-! ## What is read -/

/-- The node has the fields; without a tag it is named after its host. -/
structure SsFields.Same (f : SsFields) (node : ProxyNode) : Prop where
  cipher : node.cipher = some f.method
  password : node.password = some f.password
  server : node.server = f.host.bare
  port : node.port = f.port
  plugin : node.plugin = f.plugin.map (·.name)
  pluginOpts : node.pluginOpts = f.plugin.bind (·.opts)
  name : node.name = f.tag.getD f.host.bare

/-- The link is read as a node with the fields. -/
def ReadsAs (crates : Crates) (f : SsFields) (link : Str) : Prop :=
  ∃ node, parseSs crates link = .ok (some node) ∧ f.Same node

/-- The fields that a form can be read back with. -/
def SsForm.Readable (f : SsFields) : SsForm → Prop
  | sip002 percent slash => slash = false ∧ ':' ∉ f.method ∧
      (percent → IsAscii f.method ∧ IsAscii f.password) ∧ ∀ pl ∈ f.plugin, IsAscii pl.text
  | legacy => ':' ∉ f.method ∧ '@' ∉ f.method

/-! ## Searching -/

theorem find_append {c : Char} (r : Str) : ∀ {l : Str}, c ∉ l →
    find c (l ++ c :: r) = some (byteLen l)
  | [], _ => if_pos rfl
  | d :: l, h => by
      rw [List.mem_cons, not_or] at h
      rw [List.cons_append, find, if_neg (Ne.symm h.1), find_append r h.2]
      rfl

theorem rfind_none {c : Char} : ∀ {s : Str}, c ∉ s → rfind c s = none
  | [], _ => rfl
  | d :: s, h => by
      rw [List.mem_cons, not_or] at h
      rw [rfind, rfind_none h.2]
      exact if_neg (Ne.symm h.1)

theorem rfind_append {c : Char} {r : Str} (h : c ∉ r) : ∀ l : Str,
    rfind c (l ++ c :: r) = some (byteLen l)
  | [] => by
      rw [List.nil_append, rfind, rfind_none h]
      exact if_pos rfl
  | d :: l => by
      rw [List.cons_append, rfind, rfind_append h l]
      rfl

theorem eq_append_of_splitOnce {c : Char} : ∀ {s a b : Str}, splitOnce c s = some (a, b) →
    s = a ++ c :: b ∧ c ∉ a
  | [], _, _, h => by cases h
  | d :: ds, a, b, h => by
      rw [splitOnce] at h
      split at h
      · next hd =>
          cases h
          exact ⟨by rw [hd]; rfl, List.not_mem_nil⟩
      · next hd =>
          obtain ⟨⟨a', b'⟩, hsplit, heq⟩ := Option.map_eq_some_iff.mp h
          obtain ⟨rfl, rfl⟩ := Prod.mk.inj heq
          obtain ⟨rfl, hfree⟩ := eq_append_of_splitOnce hsplit
          exact ⟨rfl, fun hmem => (List.mem_cons.mp hmem).elim (fun h => hd h.symm) hfree⟩

theorem splitOnce_append_iff {c : Char} {l r : Str} :
    splitOnce c (l ++ c :: r) = some (l, r) ↔ c ∉ l :=
  ⟨fun h => (eq_append_of_splitOnce h).2, splitOnce_append r⟩

theorem splitOnce_of_notMem {c : Char} {s : Str} (h : c ∉ s) : splitOnce c s = none :=
  (splitOnce_none h).1

theorem stripPrefix_none {c : Char} {s : Str} (h : s.head? ≠ some c) :
    stripPrefix [c] s = none := by
  refine if_neg fun hpre => h ?_
  obtain ⟨rest, rfl⟩ := List.isPrefixOf_iff_prefix.mp hpre
  rfl

theorem trimStartMatches_of_not_prefix {pat s : Str} (h : ¬ pat <+: s) : ∀ fuel : Nat,
    trimStartMatches pat fuel s = s
  | 0 => rfl
  | _ + 1 => if_neg fun hpre => h (List.isPrefixOf_iff_prefix.mp hpre)

/-- A pattern without the separator is not found across it. -/
theorem prefix_of_prefix_append {c : Char} {pat u r : Str} (hc : c ∉ pat)
    (h : pat <+: u ++ c :: r) : pat <+: u := by
  have hu : u ++ [c] <+: u ++ c :: r := ⟨r, by rw [List.append_assoc]; rfl⟩
  rcases List.prefix_or_prefix_of_prefix h hu with hpre | hpre
  · rcases List.prefix_concat_iff.mp hpre with rfl | hpre
    · exact absurd (List.mem_append_right u List.mem_cons_self) hc
    · exact hpre
  · exact absurd (hpre.subset (List.mem_append_right u List.mem_cons_self)) hc

/-! ## The user information -/

section

variable {crates : Crates} {f : SsFields}

theorem UserInfo.notMem {percent : Bool} {u : Str} (h : UserInfo f percent u) {c : Char}
    (hc : c ∈ ['@', '#']) : c ∉ u := by
  have hall : ∀ d ∈ ['@', '#'], d ∈ ":/?#@&=".toList ∧ d ≠ ':' :=
    List.all_iff_forall_prop.mp rfl
  cases h with
  | base64 forUrl padded =>
      have hchar : ∀ d ∈ encodeWith forUrl padded (bytes f.userinfo), d ∉ ['@', '#'] :=
        forall_encodeWith (by decide) (by decide) forUrl padded _
      exact fun hmem => hchar c hmem hc
  | percent h1 h2 =>
      intro hmem
      rcases List.mem_append.mp hmem with hmem | hmem
      · exact h1.notMem (hall c hc).1 hmem
      · rcases List.mem_cons.mp hmem with heq | hmem
        · exact (hall c hc).2 heq
        · exact h2.notMem (hall c hc).1 hmem

/-- A scheme is not found again in front of the user information. -/
theorem UserInfo.not_prefix {percent : Bool} {u : Str} (h : UserInfo f percent u) {pat : Str}
    (hcolon : ':' ∈ pat) (hslash : '/' ∈ pat) (hat : '@' ∉ pat) (r : Str) :
    ¬ pat <+: u ++ '@' :: r := by
  intro hpre
  have hu : pat <+: u := prefix_of_prefix_append hat hpre
  cases h with
  | base64 forUrl padded =>
      have hchar : ∀ d ∈ encodeWith forUrl padded (bytes f.userinfo), d ≠ ':' :=
        forall_encodeWith (by decide) (by decide) forUrl padded _
      exact hchar _ (hu.subset hcolon) rfl
  | percent h1 h2 =>
      rcases List.mem_append.mp (hu.subset hslash) with hmem | hmem
      · exact h1.notMem (by decide) hmem
      · rcases List.mem_cons.mp hmem with heq | hmem
        · exact absurd heq (by decide)
        · exact h2.notMem (by decide) hmem

/-- The text is found under either alphabet, with its padding or without. -/
theorem decodeB64Url_encodeWith (hdec : Standard crates.decodeBase64) (forUrl padded : Bool)
    (s : Str) : decodeB64Url crates (encodeWith forUrl padded (bytes s)) = some s := by
  have hbytes : (crates.decodeBase64 (pad (encodeWith forUrl padded (bytes s))) <|>
      crates.decodeBase64 (pad (standardAlphabet (encodeWith forUrl padded (bytes s))))) =
        some (bytes s) := by
    rcases decode_pad_encodeWith hdec forUrl padded (bytes s) with h | h
    · rw [h]
      rfl
    · rw [h, standardAlphabet_encodeWith, pad_encodeWith, hdec.encoded]
      rfl
  rw [decodeB64Url, hbytes]
  exact fromUtf8_bytes s

theorem decodeSsUserinfo_percent {method password e1 e2 : Str} (h1 : Encodes (bytes method) e1)
    (h2 : Encodes (bytes password) e2) : decodeSsUserinfo crates (e1 ++ ':' :: e2) =
      some (byteChars method ++ ':' :: byteChars password) := by
  have hcolon : contains ":".toList (e1 ++ ':' :: e2) = true :=
    contains_iff.mpr ⟨e1, e2, by rw [List.append_assoc]; rfl⟩
  rw [decodeSsUserinfo, if_pos hcolon, urlDecode_append h1, urlDecode_cons (by decide) (by decide),
    urlDecode_of_encodes h2]
  rfl

/-- The method and the password are found in what the user information is decoded to, as long as
the method has no separator and what was percent-encoded is ASCII. -/
theorem UserInfo.decoded (hdec : Standard crates.decodeBase64) {percent : Bool} {u : Str}
    (h : UserInfo f percent u) : ∃ text, decodeSsUserinfo crates u = some text ∧
      (splitOnce ':' text = some (f.method, f.password) ↔
        ':' ∉ f.method ∧ (percent → IsAscii f.method ∧ IsAscii f.password)) := by
  cases h with
  | base64 forUrl padded =>
      have hchar : ∀ d ∈ encodeWith forUrl padded (bytes f.userinfo), d ≠ ':' :=
        forall_encodeWith (by decide) (by decide) forUrl padded _
      have hfree : ¬ contains ":".toList (encodeWith forUrl padded (bytes f.userinfo)) = true :=
        fun hc => hchar _ ((contains_iff.mp hc).subset List.mem_cons_self) rfl
      refine ⟨f.userinfo, ?_, ?_⟩
      · rw [decodeSsUserinfo, if_neg hfree]
        exact decodeB64Url_encodeWith hdec forUrl padded _
      · rw [SsFields.userinfo, splitOnce_append_iff]
        exact (and_iff_left fun hp => by cases hp).symm
  | percent h1 h2 =>
      refine ⟨_, decodeSsUserinfo_percent h1 h2, ?_⟩
      by_cases hm : ':' ∈ f.method
      · exact iff_of_false (fun h => (eq_append_of_splitOnce h).2 hm) fun h => h.1 hm
      · have hfree : ':' ∉ byteChars f.method := fun h => hm (mem_byteChars (by decide) h)
        rw [splitOnce_append _ hfree, Option.some_inj, Prod.mk.injEq, byteChars_eq_iff,
          byteChars_eq_iff]
        exact ⟨fun h => ⟨hm, fun _ => h⟩, fun h => h.2 rfl⟩

/-! ## The address -/

theorem isHostChar_visible {c : Char} (h : isHostChar c) : isWhiteSpace c = false := by
  rw [isHostChar, Bool.and_eq_true, Bool.not_eq_true'] at h
  exact h.1

theorem ne_of_isHostChar {c d : Char} (h : isHostChar c) (hd : d ∈ "/?#@[]:".toList) : c ≠ d := by
  rintro rfl
  rw [isHostChar, List.contains_iff_mem.mpr hd, Bool.not_true, Bool.and_false] at h
  cases h

/-- The characters of a host as it is written. -/
theorem SsHost.mem_text {host : SsHost} {c : Char} (h : c ∈ host.text) :
    isHostChar c ∨ c ∈ "[]:".toList := by
  cases host with
  | name s chars => exact .inl (chars c h)
  | v6 s chars =>
      rcases List.mem_cons.mp h with rfl | h
      · exact .inr (by decide)
      · rcases List.mem_append.mp h with h | h
        · rcases chars c h with h | rfl
          · exact .inl h
          · exact .inr (by decide)
        · rw [List.mem_singleton.mp h]
          exact .inr (by decide)

theorem SsHost.visible_text {host : SsHost} {c : Char} (h : c ∈ host.text) :
    isWhiteSpace c = false := by
  have hall : ∀ d ∈ "[]:".toList, isWhiteSpace d = false :=
    List.all_iff_forall_prop.mp rfl
  exact (SsHost.mem_text h).elim isHostChar_visible (hall c)

/-- The host and the port are told apart by the last colon or by the brackets. -/
theorem splitHostPortStr_text (host : SsHost) {s : Str} (hvisible : ∀ c ∈ s, isWhiteSpace c = false)
    (hcolon : ':' ∉ s) :
    splitHostPortStr (host.text ++ ':' :: s) = (parseU16 s).map fun port => (host.bare, port) := by
  have htrim : trim (host.text ++ ':' :: s) = host.text ++ ':' :: s := by
    refine trim_of_visible fun c hc => ?_
    rcases List.mem_append.mp hc with hc | hc
    · exact SsHost.visible_text hc
    · rcases List.mem_cons.mp hc with rfl | hc
      · rfl
      · exact hvisible c hc
  rw [splitHostPortStr, htrim]
  cases host with
  | name s' chars =>
      have hhead : (s' ++ ':' :: s).head? ≠ some '[' := by
        cases s' with
        | nil => exact fun h => by cases h
        | cons c cs =>
            intro h
            exact ne_of_isHostChar (chars c List.mem_cons_self) (by decide) (Option.some.inj h)
      have hbracket : stripPrefix "[".toList (s' ++ ':' :: s) = none := stripPrefix_none hhead
      simp only [SsHost.text, SsHost.bare, hbracket, rsplitOnce_append hcolon, Option.bind_eq_bind,
        Option.bind_some]
      cases parseU16 s <;> rfl
  | v6 s' chars =>
      have hclosing : ']' ∉ s' := by
        intro hmem
        rcases chars _ hmem with h | h
        · exact ne_of_isHostChar h (by decide) rfl
        · exact absurd h (by decide)
      have hbracket : stripPrefix "[".toList (('[' :: (s' ++ [']'])) ++ ':' :: s) =
          some (s' ++ ']' :: ':' :: s) := by
        rw [List.cons_append, List.append_assoc]
        exact if_pos (List.isPrefixOf_iff_prefix.mpr ⟨_, rfl⟩)
      have hdrop : (':' :: s).dropWhile (· = ':') = s := by
        rw [List.dropWhile_cons_of_pos (by decide)]
        cases hs : s with
        | nil => rfl
        | cons c cs =>
            refine List.dropWhile_cons_of_neg fun hc => ?_
            exact hcolon (hs ▸ List.mem_cons.mpr (.inl (of_decide_eq_true hc).symm))
      simp only [SsHost.text, SsHost.bare, hbracket, splitOnce_append _ hclosing, hdrop,
        Option.bind_eq_bind, Option.bind_some]
      cases parseU16 s <;> rfl

theorem parseU16_none {c : Char} (hc : ¬ ('0' ≤ c ∧ c ≤ '9') ∧ c ≠ '+') {s : Str} (h : c ∈ s) :
    parseU16 s = none := by
  have hdigits (t : Str) (ht : c ∈ t) : t.all (fun d => '0' ≤ d && d ≤ '9') = false := by
    refine List.all_eq_false.mpr ⟨c, ht, fun hd => hc.1 ?_⟩
    rwa [Bool.and_eq_true, decide_eq_true_eq, decide_eq_true_eq] at hd
  refine congrArg (Option.map UInt16.ofNat) (if_pos ?_)
  rw [hdigits _ ?_, Bool.not_false, Bool.or_true]
  split
  · next rest => exact (List.mem_cons.mp h).resolve_left hc.2
  · exact h

theorem splitHostPortStr_address (f : SsFields) :
    splitHostPortStr f.address = some (f.host.bare, f.port) := by
  rw [SsFields.address, splitHostPortStr_text f.host
    (fun c hc => isWhiteSpace_digit (isDigit_of_mem_ofNat hc)) (notMem_ofNat (by decide)), parseU16,
    parseNat_ofNat f.port.toNat_lt, Option.map_some, Option.map_some, UInt16.ofNat_toNat]

/-- A slash after the port is read as a digit of it. -/
theorem splitHostPortStr_slash (f : SsFields) : splitHostPortStr (f.address ++ ['/']) = none := by
  have hmem {c : Char} (hc : c ∈ ofNat f.port.toNat ++ ['/']) : ('0' ≤ c ∧ c ≤ '9') ∨ c = '/' :=
    (List.mem_append.mp hc).imp isDigit_of_mem_ofNat List.mem_singleton.mp
  rw [SsFields.address, List.append_assoc, List.cons_append, splitHostPortStr_text f.host,
    parseU16_none (c := '/') (by decide) (List.mem_append_right _ List.mem_cons_self)]
  · rfl
  · intro c hc
    rcases hmem hc with hc | rfl
    · exact isWhiteSpace_digit hc
    · rfl
  · intro hc
    rcases hmem hc with hc | hc
    · exact absurd hc (by decide)
    · exact absurd hc (by decide)

theorem SsFields.notMem_address {c : Char} (hc : c ∈ ['@', '#', '?']) : c ∉ f.address := by
  have hall : ∀ d ∈ ['@', '#', '?'], d ∈ "/?#@[]:".toList ∧ d ∉ "[]:".toList ∧
      ¬ ('0' ≤ d ∧ d ≤ '9') :=
    List.all_iff_forall_prop.mp rfl
  obtain ⟨hhost, hmark, hdigit⟩ := hall c hc
  intro hmem
  rcases List.mem_append.mp hmem with hmem | hmem
  · exact (SsHost.mem_text hmem).elim (fun h => ne_of_isHostChar h hhost rfl) hmark
  · rcases List.mem_cons.mp hmem with rfl | hmem
    · exact hmark (by decide)
    · exact hdigit (isDigit_of_mem_ofNat hmem)

end

/-! ## The plugin -/

section

variable {crates : Crates} {f : SsFields}

/-- What follows the question mark. -/
theorem parseQuery_plugin {bs : Bytes} {e : Str} (h : Encodes bs e) :
    parseQuery ("plugin=".toList ++ e) =
      (∅ : Query).insert "plugin".toList (bs.map charOfByte) := by
  have hquestion : stripPrefix "?".toList ("plugin=".toList ++ e) = none :=
    stripPrefix_none fun h => absurd (Option.some.inj h) (by decide)
  have hamp : '&' ∉ "plugin=".toList ++ e := fun hmem =>
    (List.mem_append.mp hmem).elim (by decide) (h.notMem (by decide))
  have hsplit : splitOnce '=' ("plugin=".toList ++ e) = some ("plugin".toList, e) :=
    splitOnce_append (l := "plugin".toList) e (by decide)
  have hkey : toLower (urlDecode "plugin".toList) = "plugin".toList := by decide +kernel
  rw [parseQuery, hquestion]
  simp only [Option.getD_none]
  rw [split_of_notMem hamp, List.filter_cons_of_pos rfl]
  simp only [List.filter_nil, List.foldl_cons, List.foldl_nil, hsplit]
  rw [hkey, urlDecode_of_encodes h]

/-- The plugin and its options as the text after `plugin=` has them. -/
def pluginParts (p : Str) : Option Str × Option Str :=
  match splitOnce ';' p with
  | some (name, opts) => (some name, some opts)
  | none => (some p, none)

theorem pluginParts_eq_iff {p : Str} {pl : SsPlugin} :
    pluginParts p = (some pl.name, pl.opts) ↔ p = pl.text := by
  rw [pluginParts, SsPlugin.text]
  constructor
  · intro h
    cases hs : splitOnce ';' p with
    | none =>
        rw [hs] at h
        obtain ⟨hname, hopts⟩ := Prod.mk.inj h
        rw [← hopts, Option.elim_none, List.append_nil]
        exact Option.some.inj hname
    | some r =>
        rw [hs] at h
        obtain ⟨hname, hopts⟩ := Prod.mk.inj h
        rw [← hopts, Option.elim_some, ← Option.some.inj hname]
        exact (eq_append_of_splitOnce hs).1
  · rintro rfl
    cases hopts : pl.opts with
    | none => rw [Option.elim_none, List.append_nil, splitOnce_of_notMem pl.name_free]
    | some opts => rw [Option.elim_some, splitOnce_append _ pl.name_free]

/-- The iteration over a map yields only what is in it. -/
def Iterates (order : FinMap Str Str → List (Str × Str)) : Prop :=
  ∀ m e, e ∈ order m → m.lookup e.1 = some e.2

theorem ssPlugin_insert (horder : Iterates crates.hashOrder) (p : Str) :
    ssPlugin crates ((∅ : Query).insert "plugin".toList p) = pluginParts p := by
  have hget : Query.get ((∅ : Query).insert "plugin".toList p) "plugin" = some p :=
    AList.lookup_insert _
  have hothers : (crates.hashOrder ((∅ : Query).insert "plugin".toList p)).filter
      (fun e => e.1 ≠ "plugin".toList) = [] := by
    refine List.filter_eq_nil_iff.mpr fun e he hne => ?_
    have hlookup := horder _ e he
    rw [FinMap.lookup_insert_eq, if_neg (of_decide_eq_true hne)] at hlookup
    cases hlookup
  rw [ssPlugin, hget, pluginParts]
  simp only [hothers]
  rfl

/-- The query of a link, and what is read of it. -/
theorem PluginText.read (horder : Iterates crates.hashOrder) {plugin : Option SsPlugin} {q : Str}
    (h : PluginText plugin q) : ∃ query, (∀ hp, '?' ∉ hp →
        (splitOnce '?' (hp ++ q)).getD (hp ++ q, []) = (hp, query)) ∧
      (ssPlugin crates (parseQuery query) = (plugin.map (·.name), plugin.bind (·.opts)) ↔
        ∀ pl ∈ plugin, IsAscii pl.text) := by
  cases h with
  | none =>
      refine ⟨[], fun hp hfree => ?_, iff_of_true rfl fun pl hpl => by cases hpl⟩
      rw [List.append_nil, splitOnce_of_notMem hfree, Option.getD_none]
  | @some pl e henc =>
      refine ⟨"plugin=".toList ++ e, fun hp hfree => ?_, ?_⟩
      · exact congrArg (Option.getD · _) (splitOnce_append _ hfree)
      · rw [parseQuery_plugin henc, ssPlugin_insert horder]
        refine pluginParts_eq_iff.trans (map_charOfByte_bytes.trans
          ⟨fun h pl' hpl => ?_, fun h => h pl rfl⟩)
        cases hpl
        exact h

theorem PluginText.notMem {plugin : Option SsPlugin} {q : Str} (h : PluginText plugin q) {c : Char}
    (hc : c ∈ ['@', '#']) : c ∉ q := by
  have hall : ∀ d ∈ ['@', '#'], d ∈ ":/?#@&=".toList ∧ d ∉ "?plugin=".toList :=
    List.all_iff_forall_prop.mp rfl
  cases h with
  | none => exact List.not_mem_nil
  | some henc =>
      exact fun hmem => (List.mem_append.mp hmem).elim (hall c hc).2 (henc.notMem (hall c hc).1)

/-! ## The link -/

/-- The scheme and the tag are taken off, whatever the tag is. -/
theorem parseSs_body (crates : Crates) {body t : Str} (ht : t = [] ∨ ∃ e, t = '#' :: e)
    (hhash : '#' ∉ body)
    (hbody : ∀ pat, ':' ∈ pat → '/' ∈ pat → '@' ∉ pat → ¬ pat <+: body) :
    parseSs crates ("ss://".toList ++ (body ++ t)) = ssParts crates body >>= fun parts =>
      .ok (parts.bind (ssNode crates (t.head?.map fun _ => urlDecode t.tail))) := by
  have hfree : '#' ∉ "ss://".toList ++ body := fun hmem =>
    (List.mem_append.mp hmem).elim (by decide) hhash
  have hscheme (fuel : Nat) :
      trimStartMatches "ss://".toList (fuel + 1) ("ss://".toList ++ body) = body := by
    have hpre : "ss://".toList.isPrefixOf ("ss://".toList ++ body) = true :=
      List.isPrefixOf_iff_prefix.mpr ⟨body, rfl⟩
    rw [trimStartMatches, if_pos hpre, List.drop_left]
    exact trimStartMatches_of_not_prefix (hbody _ (by decide) (by decide) (by decide)) fuel
  have hupper (fuel : Nat) : trimStartMatches "SS://".toList fuel body = body :=
    trimStartMatches_of_not_prefix (hbody _ (by decide) (by decide) (by decide)) fuel
  rcases ht with rfl | ⟨e, rfl⟩
  · have hlen : ("ss://".toList ++ (body ++ [])).length = (4 + body.length) + 1 := by
      rw [List.length_append, List.append_nil, Nat.add_right_comm]
      rfl
    rw [parseSs_eq, hlen, List.append_nil, (splitOnce_none hfree).2, split_of_notMem hfree]
    simp only [pure_bind, List.headD_cons, hscheme, hupper]
    rfl
  · have hlen : (("ss://".toList ++ body) ++ '#' :: e).length =
        (5 + body.length + e.length) + 1 := by
      rw [List.length_append, List.length_append]
      rfl
    have hslice : sliceFrom (("ss://".toList ++ body) ++ '#' :: e)
        (byteLen ("ss://".toList ++ body) + 1) = .ok e := by
      have h := sliceFrom_append (("ss://".toList ++ body) ++ ['#']) e
      rwa [List.append_assoc, byteLen_append] at h
    rw [← List.append_assoc, parseSs_eq, hlen, find_append e hfree, split_append e hfree]
    simp only [hslice, List.headD_cons, hscheme, hupper]
    rfl

theorem parseSs_link (crates : Crates) {tag : Option Str} {body t : Str} (ht : TagText tag t)
    (hhash : '#' ∉ body)
    (hbody : ∀ pat, ':' ∈ pat → '/' ∈ pat → '@' ∉ pat → ¬ pat <+: body) :
    ∃ hash, hash.filter (!·.isEmpty) = tag ∧ parseSs crates ("ss://".toList ++ (body ++ t)) =
      ssParts crates body >>= fun parts => .ok (parts.bind (ssNode crates hash)) := by
  cases ht with
  | none => exact ⟨none, rfl, parseSs_body crates (.inl rfl) hhash hbody⟩
  | @some tag e hne hascii henc =>
      have hempty : tag.isEmpty = false := by
        rw [Bool.eq_false_iff]
        exact fun h => hne (List.isEmpty_iff.mp h)
      refine ⟨some tag, by rw [Option.filter_some, hempty]; rfl, ?_⟩
      rw [parseSs_body crates (.inr ⟨e, rfl⟩) hhash hbody, ← (urlDecode_eq_iff henc).mpr hascii]
      rfl

end

/-! ## Reading back -/

section

variable {crates : Crates} {f : SsFields}

theorem same_ssNode_iff {hash : Option Str} (hhash : hash.filter (!·.isEmpty) = f.tag)
    {hostport : Str} (haddress : splitHostPortStr hostport = some (f.host.bare, f.port))
    (userinfo query : Str) :
    (∃ node, ssNode crates hash (userinfo, hostport, query) = some node ∧ f.Same node) ↔
      splitOnce ':' userinfo = some (f.method, f.password) ∧
        ssPlugin crates (parseQuery query) = (f.plugin.map (·.name), f.plugin.bind (·.opts)) := by
  simp only [ssNode, haddress, hhash, Option.bind_eq_bind]
  cases hsplit : splitOnce ':' userinfo with
  | none =>
      refine iff_of_false ?_ fun h => by cases h.1
      rintro ⟨node, hnode, _⟩
      cases hnode
  | some r =>
      obtain ⟨method, password⟩ := r
      simp only [Option.bind_some, Option.pure_def, Option.some.injEq, Prod.mk.injEq]
      constructor
      · rintro ⟨node, rfl, hsame⟩
        exact ⟨⟨Option.some.inj hsame.cipher, Option.some.inj hsame.password⟩,
          Prod.ext hsame.plugin hsame.pluginOpts⟩
      · rintro ⟨⟨rfl, rfl⟩, hplugin⟩
        refine ⟨_, rfl, ⟨rfl, rfl, rfl, rfl, ?_, ?_, rfl⟩⟩
        · exact congrArg Prod.fst hplugin
        · exact congrArg Prod.snd hplugin

theorem cipher_of_ssNode {hash : Option Str} {userinfo hostport query method : Str}
    {node : ProxyNode} (h : ssNode crates hash (userinfo, hostport, query) = some node)
    (hcipher : node.cipher = some method) :
    ∃ password, splitOnce ':' userinfo = some (method, password) := by
  obtain ⟨⟨a, b⟩, hsplit, h⟩ := Option.bind_eq_some_iff.mp h
  obtain ⟨⟨host, port⟩, _, h⟩ := Option.bind_eq_some_iff.mp h
  cases h
  exact ⟨b, by rw [hsplit, ← Option.some.inj hcipher]⟩

/-- A link of which the parts are known. -/
theorem readsAs_iff_of_parts {body t : Str} (ht : TagText f.tag t) (hhash : '#' ∉ body)
    (hbody : ∀ pat, ':' ∈ pat → '/' ∈ pat → '@' ∉ pat → ¬ pat <+: body)
    {parts : Option (Str × Str × Str)} (hparts : ssParts crates body = .ok parts) :
    ∃ hash, hash.filter (!·.isEmpty) = f.tag ∧ (ReadsAs crates f ("ss://".toList ++ (body ++ t)) ↔
      ∃ node, parts.bind (ssNode crates hash) = some node ∧ f.Same node) := by
  obtain ⟨hash, htag, hread⟩ := parseSs_link crates ht hhash hbody
  refine ⟨hash, htag, ?_⟩
  rw [ReadsAs, hread, hparts, ok_bind]
  simp only [Except.ok.injEq]

theorem readsAs_sip002 (hdec : Standard crates.decodeBase64) (horder : Iterates crates.hashOrder)
    {percent slash : Bool} {u q t : Str} (hu : UserInfo f percent u) (hq : PluginText f.plugin q)
    (ht : TagText f.tag t) :
    ReadsAs crates f ("ss://".toList ++
        (u ++ '@' :: (f.address ++ (if slash then ['/'] else []) ++ q) ++ t)) ↔
      (SsForm.sip002 percent slash).Readable f := by
  obtain ⟨userinfo, hdecoded, huserinfo⟩ := hu.decoded hdec
  obtain ⟨query, hquery, hplugin⟩ := hq.read horder
  have hslash : ∀ c ∈ ['@', '#', '?'], c ∉ f.address ++ (if slash then ['/'] else []) := by
    have hall : ∀ d ∈ ['@', '#', '?'], d ≠ '/' :=
      List.all_iff_forall_prop.mp rfl
    intro c hc hmem
    rcases List.mem_append.mp hmem with hmem | hmem
    · exact SsFields.notMem_address hc hmem
    · cases slash with
      | false => cases hmem
      | true => exact hall c hc (List.mem_singleton.mp hmem)
  have hright : ∀ c ∈ ['@', '#'], c ∉ f.address ++ (if slash then ['/'] else []) ++ q := by
    have hall : ∀ d ∈ ['@', '#'], d ∈ ['@', '#', '?'] :=
      List.all_iff_forall_prop.mp rfl
    exact fun c hc hmem => (List.mem_append.mp hmem).elim (hslash c (hall c hc)) (hq.notMem hc)
  have hhash : '#' ∉ u ++ '@' :: (f.address ++ (if slash then ['/'] else []) ++ q) := by
    intro hmem
    rcases List.mem_append.mp hmem with hmem | hmem
    · exact hu.notMem (by decide) hmem
    · rcases List.mem_cons.mp hmem with heq | hmem
      · exact absurd heq (by decide)
      · exact hright '#' (by decide) hmem
  have hparts : ssParts crates (u ++ '@' :: (f.address ++ (if slash then ['/'] else []) ++ q)) =
      .ok (some (userinfo, f.address ++ (if slash then ['/'] else []), query)) := by
    have hslice : sliceFrom ('@' :: (f.address ++ (if slash then ['/'] else []) ++ q)) 1 =
        .ok (f.address ++ (if slash then ['/'] else []) ++ q) :=
      sliceFrom_append ['@'] _
    rw [ssParts, rfind_append (hright '@' (by decide))]
    simp only [splitAt_append, ok_bind, hslice, hquery _ (hslash '?' (by decide)), hdecoded]
    rfl
  obtain ⟨hash, htag, hreads⟩ := readsAs_iff_of_parts ht hhash
    (fun pat hcolon hslash hat => hu.not_prefix hcolon hslash hat _) hparts
  rw [hreads, Option.bind_some]
  cases slash with
  | false =>
      have haddress : splitHostPortStr (f.address ++ (if false then ['/'] else [])) =
          some (f.host.bare, f.port) := by
        rw [if_neg Bool.false_ne_true, List.append_nil]
        exact splitHostPortStr_address f
      rw [same_ssNode_iff htag haddress, huserinfo, hplugin, SsForm.Readable, and_assoc]
      exact (and_iff_right rfl).symm
  | true =>
      refine iff_of_false ?_ fun h => by cases h.1
      rintro ⟨node, hnode, _⟩
      rw [ssNode, if_pos rfl, splitHostPortStr_slash] at hnode
      cases hsplit : splitOnce ':' userinfo with
      | none =>
          rw [hsplit] at hnode
          cases hnode
      | some r =>
          rw [hsplit] at hnode
          cases hnode

theorem readsAs_legacy (hdec : Standard crates.decodeBase64) {t : Str} (forUrl padded : Bool)
    (hplugin : f.plugin = none) (hpassword : '@' ∉ f.password) (ht : TagText f.tag t) :
    ReadsAs crates f ("ss://".toList ++
        (encodeWith forUrl padded (bytes (f.userinfo ++ '@' :: f.address)) ++ t)) ↔
      SsForm.legacy.Readable f := by
  have hchar : ∀ c ∈ encodeWith forUrl padded (bytes (f.userinfo ++ '@' :: f.address)),
      c ∉ ['#', '@', ':'] ∧ isWhiteSpace c = false :=
    forall_encodeWith (by decide +kernel) (by decide) forUrl padded _
  have hnotMem : ∀ c ∈ ['#', '@', ':'],
      c ∉ encodeWith forUrl padded (bytes (f.userinfo ++ '@' :: f.address)) :=
    fun c hc hmem => (hchar c hmem).1 hc
  have hparts : ssParts crates (encodeWith forUrl padded (bytes (f.userinfo ++ '@' :: f.address))) =
      .ok ((splitOnce '@' (f.userinfo ++ '@' :: f.address)).bind fun r => some (r.1, r.2, [])) := by
    have hcompact : (encodeWith forUrl padded (bytes (f.userinfo ++ '@' :: f.address))).filter
        (!isWhiteSpace ·) = encodeWith forUrl padded (bytes (f.userinfo ++ '@' :: f.address)) := by
      refine List.filter_eq_self.mpr fun c hc => ?_
      rw [(hchar c hc).2]
      rfl
    rw [ssParts, rfind_none (hnotMem '@' (by decide)), hcompact, decodeB64Url_encodeWith hdec]
    rfl
  obtain ⟨hash, htag, hreads⟩ := readsAs_iff_of_parts ht (hnotMem '#' (by decide))
    (fun pat hcolon _ _ hpre => hnotMem ':' (by decide) (hpre.subset hcolon)) hparts
  rw [hreads, SsForm.Readable]
  by_cases hat : '@' ∈ f.method
  · refine iff_of_false ?_ fun h => h.2 hat
    rintro ⟨node, hnode, hsame⟩
    obtain ⟨parts, hparts, hnode⟩ := Option.bind_eq_some_iff.mp hnode
    obtain ⟨⟨l, r⟩, hsplit, heq⟩ := Option.bind_eq_some_iff.mp hparts
    cases heq
    -- the method is a part of what stands before the first `@`
    obtain ⟨password, hl⟩ := cipher_of_ssNode hnode hsame.cipher
    refine (eq_append_of_splitOnce hsplit).2 ?_
    have hleft : l = f.method ++ ':' :: password := (eq_append_of_splitOnce hl).1
    rw [hleft]
    exact List.mem_append_left _ hat
  · have hfree : '@' ∉ f.userinfo := fun hmem => by
      rcases List.mem_append.mp hmem with hmem | hmem
      · exact hat hmem
      · rcases List.mem_cons.mp hmem with heq | hmem
        · exact absurd heq (by decide)
        · exact hpassword hmem
    rw [splitOnce_append _ hfree, Option.bind_some, Option.bind_some,
      same_ssNode_iff htag (splitHostPortStr_address f), SsFields.userinfo, splitOnce_append_iff,
      hplugin]
    exact ⟨fun h => ⟨h.1, hat⟩, fun h => ⟨h.1, rfl⟩⟩

/-- A link is read back as the fields it was written from, whatever separators they contain,
exactly if its form can be: there is no slash after the port, the method has no separator of the
form in it, and what is percent-encoded is ASCII. -/
theorem readsAs_iff (hdec : Standard crates.decodeBase64) (horder : Iterates crates.hashOrder)
    {form : SsForm} {link : Str} (hlink : SsLink f form link) :
    ReadsAs crates f link ↔ form.Readable f := by
  obtain ⟨hbody, ht⟩ := hlink
  cases hbody with
  | sip002 hu hq => exact readsAs_sip002 hdec horder hu hq ht
  | legacy forUrl padded hplugin hpassword =>
      exact readsAs_legacy hdec forUrl padded hplugin hpassword ht

end

/-- The fields of a link without a plugin and a tag. -/
def plainFields : SsFields where
  method := "rc4".toList
  password := "p@:".toList
  host := .v6 "::1".toList (List.all_iff_forall_prop.mp rfl)
  port := 80
  plugin := none
  tag := none

theorem plainFields_userinfo : UserInfo plainFields true "rc4:p%40%3A".toList := by
  have hmethod : Encodes (bytes plainFields.method) "rc4".toList :=
    .plain rfl (.plain rfl (.plain rfl .nil))
  have hpassword : Encodes (bytes plainFields.password) "p%40%3A".toList :=
    .plain rfl (.escape (by decide) (by decide) rfl rfl
      (.escape (by decide) (by decide) rfl rfl .nil))
  exact .percent hmethod hpassword

/-- Percent-encoded credentials that have separators in them, and an address in brackets. -/
theorem readsAs_iff_sample :
    let crates : Crates :=
      ⟨fun _ => none, decode, fun _ => none, fun _ m => m.entries.map fun e => (e.1, e.2), 0⟩
    ReadsAs crates plainFields "ss://rc4:p%40%3A@[::1]:80".toList := by
  intro crates
  have horder : Iterates crates.hashOrder := by
    intro m e he
    obtain ⟨entry, hentry, rfl⟩ := List.mem_map.mp he
    exact FinMap.lookup_of_mem_entries hentry
  have hbody : SsBody plainFields (.sip002 true false) _ := .sip002 plainFields_userinfo .none
  have hlink : SsLink plainFields (.sip002 true false) "ss://rc4:p%40%3A@[::1]:80".toList :=
    .of hbody .none
  exact (readsAs_iff standard_decode horder hlink).mpr
    ⟨rfl, by decide, fun _ => by decide, fun pl hpl => by cases hpl⟩

/-- With the slash that may follow the port, the same link is not read. -/
theorem not_readsAs :
    let crates : Crates :=
      ⟨fun _ => none, decode, fun _ => none, fun _ m => m.entries.map fun e => (e.1, e.2), 0⟩
    ¬ ∀ f form link, SsLink f form link → ReadsAs crates f link := by
  intro crates h
  have hbody : SsBody plainFields (.sip002 true true) _ := .sip002 plainFields_userinfo .none
  have hlink : SsLink plainFields (.sip002 true true) "ss://rc4:p%40%3A@[::1]:80/".toList :=
    .of hbody .none
  obtain ⟨node, hnode, _⟩ := h _ _ _ hlink
  have hnone : parseSs crates "ss://rc4:p%40%3A@[::1]:80/".toList = .ok none := by decide +kernel
  rw [hnone] at hnode
  cases hnode

end Config

end RustClash
