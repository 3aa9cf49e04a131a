import RustClash.Config.Catalog
import RustClash.Core.Utf8
import RustClash.Lib.Base64

/-!
# Encoded subscriptions

The base64 of a text has none of the marks that the other formats are told by, so that a
text is found under its encoding and read as it would have been without it.
-/

namespace RustClash

namespace Config

open Str Checked

/-! ## Replacing single characters -/

theorem replace_single (a b : Char) : ∀ {fuel : Nat} {s : Str}, s.length < fuel →
    replace [a] [b] fuel s = s.map fun c => if c = a then b else c
  | 0, _, h => absurd h (Nat.not_lt_zero _)
  | _ + 1, [], _ => rfl
  | fuel + 1, c :: cs, h => by
      have ih := replace_single a b (Nat.lt_of_succ_lt_succ h)
      rw [replace, List.map_cons]
      by_cases hc : c = a
      · subst hc
        rw [if_pos (by rw [List.isPrefixOf_cons_cons_self]; rfl), if_pos rfl]
        exact congrArg (b :: ·) ih
      · rw [if_neg (fun hpre => hc (List.cons_prefix_cons.mp (List.isPrefixOf_iff_prefix.mp hpre)).1.symm),
          if_neg hc, ih]

theorem replaceAll_single (a b : Char) (s : Str) :
    replaceAll [a] [b] s = s.map fun c => if c = a then b else c :=
  replace_single a b (Nat.lt_succ_self _)

/-! ## Encodings -/

open Base64

/-- A character of an encoding. -/
theorem forall_encodeWith {P : Char → Prop} (hdigit : ∀ n < 64, P (digit n) ∧ P (urlSafe (digit n)))
    (hpad : P '=') (forUrl padded : Bool) (bs : Bytes) : ∀ c ∈ encodeWith forUrl padded bs, P c := by
  have hall : ∀ c ∈ encode bs, P c ∧ P (urlSafe c) := forall_encode hdigit ⟨hpad, hpad⟩ bs
  have hpart : ∀ c ∈ (if padded then encode bs else (encode bs).filter (· ≠ '=')), c ∈ encode bs := by
    intro c hc
    split at hc
    · exact hc
    · exact (List.mem_filter.mp hc).1
  intro c hc
  rw [encodeWith] at hc
  split at hc
  · obtain ⟨d, hd, rfl⟩ := List.mem_map.mp hc
    exact (hall d (hpart d hd)).2
  · exact (hall c (hpart c hc)).1

theorem byteLen_ascii {s : Str} (h : ∀ c ∈ s, c.utf8Size = 1) : byteLen s = s.length := by
  induction s with
  | nil => rfl
  | cons c cs ih =>
      rw [byteLen, h c List.mem_cons_self, ih fun d hd => h d (List.mem_cons_of_mem _ hd),
        List.length_cons, Nat.add_comm]

theorem byteLen_encodeWith (forUrl padded : Bool) (bs : Bytes) :
    byteLen (encodeWith forUrl padded bs) = (encodeWith forUrl padded bs).length :=
  byteLen_ascii (forall_encodeWith (by decide) (by decide) forUrl padded bs)

/-- Digits for file names are turned into those of the standard alphabet. -/
theorem standardAlphabet_encodeWith (forUrl padded : Bool) (bs : Bytes) :
    standardAlphabet (encodeWith forUrl padded bs) = encodeWith false padded bs := by
  have hstandard (s : Str) : standardAlphabet s =
      s.map fun c => if c = '-' then '+' else if c = '_' then '/' else c := by
    refine (replaceAll_single '_' '/' _).trans ?_
    rw [show replaceAll "-".toList "+".toList s = _ from replaceAll_single '-' '+' s, List.map_map]
    refine List.map_congr_left fun c _ => ?_
    by_cases hc : c = '-'
    · subst hc
      rfl
    · simp only [Function.comp_apply, hc, if_false]
  have hback : ∀ c ∈ encode bs,
      ((if c = '-' then '+' else if c = '_' then '/' else c) = c) ∧
      ((if urlSafe c = '-' then '+' else if urlSafe c = '_' then '/' else urlSafe c) = c) :=
    forall_encode (by decide) (by decide) bs
  have hpart : ∀ c ∈ encodeWith false padded bs, c ∈ encode bs := by
    intro c hc
    cases padded with
    | true => exact hc
    | false => exact (List.mem_filter.mp hc).1
  cases forUrl with
  | false =>
      rw [hstandard]
      exact (List.map_congr_left fun c hc => (hback c (hpart c hc)).1).trans (List.map_id _)
  | true =>
      rw [hstandard, show encodeWith true padded bs = (encodeWith false padded bs).map urlSafe from rfl,
        List.map_map]
      exact (List.map_congr_left fun c hc => (hback c (hpart c hc)).2).trans (List.map_id _)

/-- The padding is put back. -/
theorem pad_encodeWith (padded : Bool) (bs : Bytes) : pad (encodeWith false padded bs) = encode bs := by
  have hlen := length_encode bs
  rw [pad, byteLen_encodeWith]
  cases padded with
  | true =>
      have hzero : (encodeWith false true bs).length % 4 = 0 := by
        rw [show encodeWith false true bs = encode bs from rfl, hlen]
        exact Nat.mul_mod_left _ _
      rw [if_pos hzero]
      rfl
  | false =>
      have hpadded := encode_eq_padded bs
      have hu : encodeWith false false bs = (encode bs).filter (· ≠ '=') := rfl
      have hcount := congrArg List.length hpadded
      rw [List.length_append, List.length_replicate, hlen, ← hu] at hcount
      rw [← hu] at hpadded
      split
      · next hzero =>
          have hk : (3 - bs.length % 3) % 3 = 0 := by omega
          rw [hk] at hpadded
          rw [hpadded]
          exact (List.append_nil _).symm
      · next hne =>
          have hk : 4 - (encodeWith false false bs).length % 4 = (3 - bs.length % 3) % 3 := by omega
          rw [hk]
          exact hpadded.symm

theorem mem_pad {c : Char} {s : Str} (h : c ∈ s) : c ∈ pad s := by
  rw [pad]
  split
  · exact h
  · exact List.mem_append_left _ h

/-- A decoder of the standard alphabet reads the encoding, or refuses a digit for file names. -/
theorem decode_pad_encodeWith {decode : Str → Option Bytes} (hdec : Standard decode)
    (forUrl padded : Bool) (bs : Bytes) :
    decode (pad (encodeWith forUrl padded bs)) = some bs ∨
      decode (pad (encodeWith forUrl padded bs)) = none := by
  by_cases hforeign : ∃ c ∈ encodeWith forUrl padded bs, value c = none ∧ c ≠ '='
  · obtain ⟨c, hc, hvalue⟩ := hforeign
    exact .inr (hdec.foreign _ ⟨c, mem_pad hc, hvalue⟩)
  · refine .inl ?_
    have hsame : encodeWith forUrl padded bs = encodeWith false padded bs := by
      cases forUrl with
      | false => rfl
      | true =>
          rw [show encodeWith true padded bs = (encodeWith false padded bs).map urlSafe from rfl]
          refine (List.map_congr_left fun c hc => ?_).trans (List.map_id _)
          have hu : urlSafe c ∈ encodeWith true padded bs := List.mem_map_of_mem hc
          by_contra hne
          have hsafe : urlSafe c = '-' ∨ urlSafe c = '_' := by
            simp only [urlSafe] at hne ⊢
            split
            · exact .inl rfl
            · next h1 =>
                split
                · exact .inr rfl
                · next h2 =>
                    rw [if_neg h1, if_neg h2] at hne
                    exact absurd rfl hne
          exact hforeign ⟨_, hu, by rcases hsafe with h | h <;> rw [h] <;> decide⟩
    rw [hsame, pad_encodeWith]
    exact hdec.encoded bs

/-! ## What is told of an encoding -/

theorem filter_dropWhile_not {α : Type} (p : α → Bool) (s : List α) :
    (s.dropWhile p).filter (!p ·) = s.filter (!p ·) := by
  induction s with
  | nil => rfl
  | cons c cs ih =>
      rw [List.dropWhile_cons]
      split
      · next hc => rw [ih, List.filter_cons_of_neg (by rw [hc]; exact Bool.false_ne_true)]
      · rfl

/-- Trimming takes only blanks away. -/
theorem filter_trim (s : Str) : (trim s).filter (!isWhiteSpace ·) = s.filter (!isWhiteSpace ·) := by
  rw [trim, List.rdropWhile, List.filter_reverse, filter_dropWhile_not, ← List.filter_reverse,
    List.reverse_reverse, filter_dropWhile_not]

theorem mem_trim {c : Char} {s : Str} (h : c ∈ trim s) : c ∈ s :=
  (List.dropWhile_sublist _).subset ((List.rdropWhile_prefix _ _).subset h)

theorem mem_of_mem_split {c : Char} {p : Char → Bool} : ∀ {s part : Str}, part ∈ split p s →
    c ∈ part → c ∈ s
  | [], part, hpart, hc => by
      rw [split, List.mem_singleton] at hpart
      rwa [hpart] at hc
  | d :: ds, part, hpart, hc => by
      rw [split] at hpart
      split at hpart
      · rcases List.mem_cons.mp hpart with rfl | hpart
        · cases hc
        · exact List.mem_cons_of_mem _ (mem_of_mem_split hpart hc)
      · split at hpart
        · rw [List.mem_singleton] at hpart
          rw [hpart] at hc
          exact List.mem_cons.mpr ((List.mem_cons.mp hc).imp_right fun h => by cases h)
        · next part' parts hsplit =>
            have hmem : part' ∈ split p ds := hsplit ▸ List.mem_cons_self
            rcases List.mem_cons.mp hpart with rfl | hpart
            · exact List.mem_cons.mpr ((List.mem_cons.mp hc).imp_right fun h => mem_of_mem_split hmem h)
            · exact List.mem_cons_of_mem _
                (mem_of_mem_split (hsplit ▸ List.mem_cons_of_mem _ hpart) hc)

/-- A text without a colon has no link in it. -/
theorem looksLikeUriList_of_notMem {s : Str} (h : ':' ∉ s) : looksLikeUriList s = false := by
  refine List.any_eq_false.mpr fun line hline hlink => h ?_
  obtain ⟨part, hpart, rfl⟩ := List.mem_map.mp (List.mem_filter.mp hline).1
  exact mem_of_mem_split hpart (mem_trim ((contains_iff.mp hlink).subset List.mem_cons_self))

/-- A text that is blanks between the characters of an encoding. -/
structure Spaced (e s : Str) : Prop where
  encoded : s.filter (!isWhiteSpace ·) = e

theorem Spaced.of_mem {e s : Str} (h : Spaced e s) {c : Char} (hc : c ∈ s) :
    isWhiteSpace c ∨ c ∈ e := by
  by_cases hw : isWhiteSpace c
  · exact .inl hw
  · refine .inr (h.encoded ▸ List.mem_filter.mpr ⟨hc, ?_⟩)
    rw [Bool.not_eq_true] at hw
    rw [hw]
    rfl

/-- No mark of a format and no byte order mark is in an encoding. -/
theorem Spaced.notMem {forUrl padded : Bool} {bs : Bytes} {s : Str}
    (h : Spaced (encodeWith forUrl padded bs) s) {c : Char} (hc : c ∈ [':', '{', '[', '\uFEFF']) :
    c ∉ s := by
  intro hmem
  have hchar : ∀ d ∈ encodeWith forUrl padded bs, d ∉ [':', '{', '[', '\uFEFF'] :=
    forall_encodeWith (by decide) (by decide) forUrl padded bs
  have hblank : ∀ d ∈ [':', '{', '[', '\uFEFF'], isWhiteSpace d = false := by
    simp only [List.mem_cons, List.not_mem_nil, or_false]
    rintro d (rfl | rfl | rfl | rfl) <;> rfl
  rcases h.of_mem hmem with hw | he
  · rw [hblank c hc] at hw
    cases hw
  · exact hchar c he hc

theorem Spaced.stripText {forUrl padded : Bool} {bs : Bytes} {s : Str}
    (h : Spaced (encodeWith forUrl padded bs) s) :
    Spaced (encodeWith forUrl padded bs) (Config.stripText s) := by
  have htrim : Spaced (encodeWith forUrl padded bs) (trim s) := ⟨(filter_trim s).trans h.encoded⟩
  have hsame : Config.stripText s = trim s := by
    have hmark : '\uFEFF' ∉ trim s := htrim.notMem (by decide)
    cases hs : trim s with
    | nil => rw [Config.stripText, hs, List.dropWhile_nil]
    | cons c cs =>
        rw [hs] at hmark
        rw [Config.stripText, hs, List.dropWhile_cons_of_neg]
        exact fun hc => hmark (List.mem_cons.mpr (.inl (of_decide_eq_true hc).symm))
  rw [hsame]
  exact htrim

theorem Spaced.formatOf (crates : Crates) {forUrl padded : Bool} {bs : Bytes} {s : Str}
    (h : Spaced (encodeWith forUrl padded bs) s) (hne : s ≠ []) :
    Config.formatOf crates s = .other := by
  have hcolon : ':' ∉ s := h.notMem (by decide)
  have hstart : ∀ c ∈ [':', '{', '[', '\uFEFF'], startsWith c (trimStart s) = false := fun c hc =>
    decide_eq_false fun heq =>
      h.notMem hc ((List.dropWhile_sublist _).subset (List.mem_of_mem_head? heq))
  have hyaml : contains "proxies:".toList s = false := by
    rw [Bool.eq_false_iff]
    exact fun hc => hcolon ((contains_iff.mp hc).subset (by decide))
  have hempty : s.isEmpty = false := by
    rw [Bool.eq_false_iff]
    exact fun he => hne (List.isEmpty_iff.mp he)
  simp only [Config.formatOf, hstart '{' (by decide), hstart '[' (by decide), hyaml, hempty,
    looksLikeUriList_of_notMem hcolon]
  rfl

/-- The text is found under its encoding. -/
theorem Spaced.tryDecodeB64 {crates : Crates} (hdec : Standard crates.decodeBase64)
    {forUrl padded : Bool} {text s : Str} (h : Spaced (encodeWith forUrl padded (bytes text)) s)
    (hlen : 12 ≤ (bytes text).length) : Config.tryDecodeB64 crates s = some text := by
  have hlong : ¬ byteLen (encodeWith forUrl padded (bytes text)) < 16 := by
    have hstandard : 16 ≤ (encodeWith false padded (bytes text)).length := by
      have hall := length_encode (bytes text)
      cases padded with
      | true =>
          rw [show encodeWith false true (bytes text) = encode (bytes text) from rfl]
          omega
      | false =>
          have hcount := congrArg List.length (encode_eq_padded (bytes text))
          rw [List.length_append, List.length_replicate, hall] at hcount
          rw [show encodeWith false false (bytes text) = (encode (bytes text)).filter (· ≠ '=') from rfl]
          omega
    have hsame : (encodeWith forUrl padded (bytes text)).length =
        (encodeWith false padded (bytes text)).length := by
      cases forUrl with
      | false => rfl
      | true => exact List.length_map _
    rw [byteLen_encodeWith]
    omega
  have hfirst : tryOne crates (encodeWith forUrl padded (bytes text)) = some text ∨
      tryOne crates (encodeWith forUrl padded (bytes text)) = none := by
    rw [tryOne]
    rcases decode_pad_encodeWith hdec forUrl padded (bytes text) with hd | hd
    · rw [hd]
      simp only [Option.bind_eq_bind, Option.bind_some, fromUtf8_bytes]
      split
      · exact .inl rfl
      · exact .inr rfl
    · rw [hd]
      exact .inr rfl
  have hne : text.isEmpty = false := by
    rw [Bool.eq_false_iff]
    intro he
    rw [List.isEmpty_iff.mp he] at hlen
    exact absurd hlen (by decide)
  have hsecond : (do
      let decoded ← fromUtf8 (← crates.decodeBase64
        (pad (standardAlphabet (encodeWith forUrl padded (bytes text)))))
      if decoded.isEmpty then none else some decoded) = some text := by
    rw [standardAlphabet_encodeWith, pad_encodeWith, hdec.encoded]
    simp only [Option.bind_eq_bind, Option.bind_some, fromUtf8_bytes, hne]
    rfl
  rw [Config.tryDecodeB64, h.encoded]
  simp only [if_neg hlong]
  rcases hfirst with h1 | h1
  · rw [h1]
    rfl
  · rw [h1]
    exact hsecond

/-! ## The catalog -/

/-- A text without a byte order mark is read from its bytes as it is. -/
theorem decodeUtf8_bytes {s : Str} (h : s.head? ≠ some '\uFEFF') : decodeUtf8 (bytes s) = s := by
  unfold decodeUtf8
  split
  · next rest hs =>
      refine absurd ?_ h
      have hmark : decodeHead 0xEF (0xBB :: 0xBF :: rest) = (some '\uFEFF', 3) :=
        decodeHead_three (a := 15) (b := 59) (c := 63) (by decide) (by decide) (by decide) (by decide)
          (by decide) rest
      rw [← fromUtf8Lossy_bytes s, hs, fromUtf8Lossy_cons, hmark]
      rfl
  · exact fromUtf8Lossy_bytes s

/-- A text of a known format is not decoded. -/
theorem parseTextWith_of_parseInner {crates : Crates} {text : Str} {nodes : List ProxyNode}
    (h : parseInner crates text = .ok nodes) (hne : nodes ≠ [])
    (encoded : Str → Checked (List ProxyNode)) : parseTextWith crates encoded text = .ok nodes := by
  rw [parseInner, parseTextWith] at h
  rw [parseTextWith]
  cases hf : formatOf crates (Config.stripText text) with
  | other =>
      simp only [hf] at h
      cases h
      exact absurd rfl hne
  | empty => simpa only [hf] using h
  | yaml => simpa only [hf] using h
  | json ns => simpa only [hf] using h
  | links => simpa only [hf] using h

/-! ## The order of the maps -/

/-- The node of the parts of a link. -/
def ssNode (crates : Crates) (hash : Option Str) (parts : Str × Str × Str) : Option ProxyNode := do
  let (userinfo, hostport, plugin) := parts
  let (method, password) ← splitOnce ':' userinfo
  let (host, port) ← splitHostPortStr hostport
  let (plugin, pluginOpts) := ssPlugin crates (parseQuery plugin)
  return {
    name := (hash.filter (!·.isEmpty)).getD host
    typeName := "ss".toList
    server := host
    port
    password := some password
    cipher := some method
    plugin
    pluginOpts }

theorem parseSs_eq {crates : Crates} (url : Str) : parseSs crates url = (do
    let hash ← match find '#' url with
      | some i => (some ∘ urlDecode) <$> sliceFrom url (i + 1)
      | none => pure none
    let body := trimStartMatches "ss://".toList url.length ((split (· = '#') url).headD url)
    let parts ← ssParts crates (trimStartMatches "SS://".toList url.length body)
    return parts.bind (ssNode crates hash)) := rfl

/-- The options are not taken from the map, or it has no more than one. -/
def Settled (qs : Query) : Prop :=
  ∀ p, qs.get "plugin" = some p →
    ';' ∈ p ∨ (qs.entries.filter fun e => e.1 ≠ "plugin".toList).length ≤ 1

/-- No Shadowsocks link of a text names a plugin without options beside two other values. -/
def OrderFree (crates : Crates) (text : Str) : Prop :=
  ∀ link ∈ linksOf text, "ss://".toList.isPrefixOf (toLower (trim link)) → ∀ userinfo hp q,
    ssParts crates (ssBody (trim link)) = .ok (some (userinfo, hp, q)) → Settled (parseQuery q)

/-- The same crates, where the next map has this key. -/
def withKey (crates : Crates) (key : Nat) : Crates := { crates with mapKey := key }

/-- An iteration yields each entry once. -/
def Permutes (crates : Crates) : Prop :=
  ∀ key m, (crates.orderOf key m).Perm (m.entries.map fun e => (e.1, e.2))

theorem perm_eq_of_length_le_one {α : Type} {l l' : List α} (h : l.Perm l') (hlen : l'.length ≤ 1) :
    l = l' :=
  match l', hlen with
  | [], _ => h.eq_nil
  | [_], _ => h.eq_singleton

theorem mapM_congr {α β : Type} {f g : α → Checked β} : ∀ {as : List α}, (∀ a ∈ as, f a = g a) →
    as.mapM f = as.mapM g
  | [], _ => rfl
  | a :: as, h => by
      obtain ⟨hhead, htail⟩ := List.forall_mem_cons.mp h
      rw [List.mapM_cons, List.mapM_cons, hhead, mapM_congr htail]

section

variable {crates : Crates} (horder : Permutes crates)

include horder

theorem ssPlugin_settled {qs : Query} (h : Settled qs) (k k' : Nat) :
    ssPlugin (withKey crates k) qs = ssPlugin (withKey crates k') qs := by
  rw [ssPlugin, ssPlugin]
  cases hplugin : qs.get "plugin" with
  | none => rfl
  | some p =>
      rcases h p hplugin with hopts | hone
      · obtain ⟨a, b, hsplit⟩ := splitOnce_of_mem hopts
        simp only [hsplit]
      · have hperm (key : Nat) : ((crates.orderOf key qs).filter fun e => e.1 ≠ "plugin".toList).Perm
            ((qs.entries.filter fun e => e.1 ≠ "plugin".toList).map fun e => (e.1, e.2)) := by
          have hfilter := (horder key qs).filter fun e => e.1 ≠ "plugin".toList
          rwa [List.filter_map] at hfilter
        have hall (key : Nat) := perm_eq_of_length_le_one (hperm key)
          (Nat.le_trans (Nat.le_of_eq (List.length_map _)) hone)
        have hsame : ((withKey crates k).hashOrder qs).filter (fun e => e.1 ≠ "plugin".toList) =
            ((withKey crates k').hashOrder qs).filter fun e => e.1 ≠ "plugin".toList :=
          (hall k).trans (hall k').symm
        simp only [hsame]

theorem parseSs_settled {url : Str} (h : ∀ userinfo hp q,
    ssParts crates (ssBody url) = .ok (some (userinfo, hp, q)) → Settled (parseQuery q))
    (k k' : Nat) : parseSs (withKey crates k) url = parseSs (withKey crates k') url := by
  have hnode (hash : Option Str) :
      (ssParts crates (ssBody url) >>= fun parts =>
        pure (parts.bind (ssNode (withKey crates k) hash))) =
      ssParts crates (ssBody url) >>= fun parts =>
        pure (parts.bind (ssNode (withKey crates k') hash)) := by
    cases hparts : ssParts crates (ssBody url) with
    | error e => rfl
    | ok parts =>
        cases parts with
        | none => rfl
        | some parts =>
            obtain ⟨userinfo, hp, q⟩ := parts
            have hplugin := ssPlugin_settled horder (h userinfo hp q hparts) k k'
            simp only [ok_bind, Option.bind_some, ssNode, hplugin]
  rw [parseSs_eq, parseSs_eq]
  cases find '#' url with
  | none => exact hnode none
  | some i =>
      exact congrArg (((some ∘ urlDecode) <$> sliceFrom url (i + 1)) >>= ·) (funext hnode)

/-- The list of such links does not depend on the keys of its maps. -/
theorem parseUriList_free {text : Str} (h : OrderFree crates text) (k k' : Nat) :
    parseUriList (withKey crates k) text = parseUriList (withKey crates k') text := by
  have hlink : ∀ link ∈ (linksOf text).zipIdx,
      parseShareLink ((withKey crates k).after link.2) link.1 =
        parseShareLink ((withKey crates k').after link.2) link.1 := by
    intro link hmem
    have hmem : link.1 ∈ linksOf text :=
      List.mem_of_getElem? (List.mk_mem_zipIdx_iff_getElem?.mp hmem)
    rw [parseShareLink, parseShareLink]
    dsimp only
    split
    · rfl
    split
    · rfl
    split
    · next hss => exact parseSs_settled horder (h link.1 hmem hss) (k + link.2) (k' + link.2)
    · rfl
  rw [parseUriList, parseUriList]
  exact congrArg (· >>= _) (mapM_congr hlink)

theorem parseInner_free {text : Str} (h : OrderFree crates (stripText text)) (k k' : Nat) :
    parseInner (withKey crates k) text = parseInner (withKey crates k') text := by
  have hlist := parseUriList_free horder h k k'
  have hformat (key : Nat) : formatOf (withKey crates key) (stripText text) =
      formatOf crates (stripText text) := rfl
  simp only [parseInner, parseTextWith, hformat, hlist]

end

/-- A text of a known format that has nodes in it is read from its encoding as it is without:
in either alphabet, padded or not, and with any blanks around and between its characters, if the
maps of the links yield their entries in the same orders; and whatever these are, unless a link
has more than one option that an order is made of. -/
theorem parse_encoded {crates : Crates} (hdec : Standard crates.decodeBase64) {text s : Str}
    (hlen : 12 ≤ (bytes text).length) (hmark : text.head? ≠ some '\uFEFF') {nodes : List ProxyNode}
    (htext : parseInner crates text = .ok nodes) (hne : nodes ≠ []) {forUrl padded : Bool}
    (hs : s.filter (!isWhiteSpace ·) = encodeWith forUrl padded (bytes text)) :
    NodeCatalog.parse crates (bytes s) = NodeCatalog.parse crates (bytes text) ∧
      (Permutes crates → OrderFree crates (stripText text) → ∀ key,
        NodeCatalog.parse (withKey crates key) (bytes s) =
          NodeCatalog.parse crates (bytes text)) := by
  have hspaced : Spaced (encodeWith forUrl padded (bytes text)) s := ⟨hs⟩
  have hhead : s.head? ≠ some '\uFEFF' := fun h =>
    hspaced.notMem (by decide) (List.mem_of_mem_head? h)
  have hdecoded := hspaced.stripText.tryDecodeB64 hdec hlen
  have hstrip : Config.stripText s ≠ [] := fun h => by
    rw [h, Config.tryDecodeB64] at hdecoded
    cases hdecoded
  have hread (key : Nat) (htext : parseInner (withKey crates key) text = .ok nodes) :
      NodeCatalog.parse (withKey crates key) (bytes s) = .ok nodes := by
    have hdecoded : Config.tryDecodeB64 (withKey crates key) (Config.stripText s) = some text :=
      hdecoded
    rw [NodeCatalog.parse, decodeUtf8_bytes hhead, parseTextWith]
    simp only [hspaced.stripText.formatOf (withKey crates key) hstrip, parseEncoded, hdecoded, htext]
    refine if_pos ?_
    rw [Bool.not_eq_true', Bool.eq_false_iff]
    exact fun h => hne (List.isEmpty_iff.mp h)
  have hplain : NodeCatalog.parse crates (bytes text) = .ok nodes := by
    rw [NodeCatalog.parse, decodeUtf8_bytes hmark, parseTextWith_of_parseInner htext hne]
  refine ⟨(hread crates.mapKey htext).trans hplain.symm, fun horder hfree key => ?_⟩
  exact (hread key ((parseInner_free horder hfree key crates.mapKey).trans htext)).trans hplain.symm

/-- Maps whose order depends on their key. -/
def turning : Crates :=
  ⟨fun _ => none, decode, fun _ => none, fun key m =>
    let entries := m.entries.map fun e => (e.1, e.2)
    if key = 0 then entries else entries.reverse, 0⟩

theorem permutes_turning : Permutes turning := by
  intro key m
  by_cases hkey : key = 0
  · rw [hkey]
    exact .refl _
  · simp only [turning, if_neg hkey]
    exact List.reverse_perm _

/-- A link with one option for its plugin. -/
def oneOption : Str := "ss://aes-256-gcm:p@h:1?plugin=obfs-local&obfs=http".toList

theorem orderFree_oneOption : OrderFree turning (stripText oneOption) := by
  have hlinks : linksOf (stripText oneOption) = [oneOption] := by decide +kernel
  have hparts : ssParts turning (ssBody (trim oneOption)) = .ok (some ("aes-256-gcm:p".toList,
      "h:1".toList, "plugin=obfs-local&obfs=http".toList)) := by decide +kernel
  intro link hlink _ userinfo hp q hq
  rw [hlinks, List.mem_singleton] at hlink
  rw [hlink, hparts] at hq
  cases hq
  exact fun p _ => .inr (by decide +kernel)

/-- A section of one proxy, in the alphabet for file names, without padding and in two lines; and
the link, in any order. -/
theorem parse_encoded_lines :
    let text := "proxies:\n- {name: a>?, type: http, server: h, port: 1}".toList
    NodeCatalog.parse turning (bytes
        " cHJveGllczoKLSB7bmFtZTogYT4_LCB0eXBlOiBodHRw\nLCBzZXJ2ZXI6IGgsIHBvcnQ6IDF9\n".toList) =
      NodeCatalog.parse turning (bytes text) ∧
    NodeCatalog.parse (withKey turning 1) (bytes (encode (bytes oneOption))) =
      NodeCatalog.parse turning (bytes oneOption) := by
  intro text
  constructor
  · have hnodes : parseInner turning text = .ok [{
        name := "a>?".toList, typeName := "http".toList, server := "h".toList, port := 1
        security := some "none".toList }] := by decide +kernel
    exact (parse_encoded standard_decode (by decide +kernel) (by decide) hnodes
      (List.cons_ne_nil _ _) (show _ = encodeWith true false (bytes text) by decide +kernel)).1
  · have hnodes : parseInner turning oneOption = .ok [{
        name := "h".toList, typeName := "ss".toList, server := "h".toList, port := 1
        password := some "p".toList, cipher := some "aes-256-gcm".toList
        plugin := some "obfs-local".toList, pluginOpts := some "obfs=http".toList }] := by
      decide +kernel
    exact (parse_encoded standard_decode (by decide +kernel) (by decide) hnodes
      (List.cons_ne_nil _ _) (show _ = encodeWith false true (bytes oneOption) by decide +kernel)).2
        permutes_turning orderFree_oneOption 1

/-- A link with two options for its plugin: the map of its encoding yields them the other way
round. -/
theorem not_parse_encoded :
    let text := "ss://aes-256-gcm:p@h:1?plugin=obfs-local&obfs=http&obfs-host=x".toList
    parseInner turning text ≠ .ok [] ∧ NodeCatalog.parse (withKey turning 1)
        (bytes (encode (bytes text))) ≠ NodeCatalog.parse turning (bytes text) := by
  decide +kernel

end Config

end RustClash
