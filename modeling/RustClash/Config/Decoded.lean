import RustClash.Config.SsLinks

/-!
# Names that were encoded

What the program makes of a percent-encoded text, where one stands in a link or in a
`Content-Disposition` header: the names and the credentials of a node, the values of a query,
and the name of a profile.  It is the text that was encoded as long as that is ASCII and one
that the place can hold: an empty name is not taken, and a profile is named as a file is.
-/

namespace RustClash

namespace Config

open Str Checked

/-! ## Names of files -/

/-- The part of `Path` that depends on the platform.  A text without a separator is the name of
a file, unless it stands for a directory. -/
structure Platform where
  fileName : Str → Option Str
  plain : ∀ s, (∀ c ∈ s, c ∉ "/\\:".toList) → s ∉ [[], ".".toList, "..".toList] →
    fileName s = some s
  dots : ∀ s ∈ [[], ".".toList, "..".toList], fileName s = none

theorem mem_dots {s : Str} : s ∈ [[], ".".toList, "..".toList] ↔
    s = [] ∨ s = ".".toList ∨ s = "..".toList := by
  simp only [List.mem_cons, List.not_mem_nil, or_false]

/-- The last component of a path with slashes, if it is a name. -/
def unixFileName (path : Str) : Option Str :=
  (((split (· = '/') path).filter fun part => part ≠ [] ∧ part ≠ ".".toList).getLast?).filter
    (· ≠ "..".toList)

def unix : Platform where
  fileName := unixFileName
  plain s hsep hdots := by
    have hfree : '/' ∉ s := fun hmem => hsep _ hmem (by decide)
    simp only [mem_dots, not_or] at hdots
    obtain ⟨hnil, hdot, hparent⟩ := hdots
    have hkept : [s].filter (fun part => part ≠ [] ∧ part ≠ ".".toList) = [s] :=
      List.filter_eq_self.mpr fun part hmem =>
        decide_eq_true ((List.mem_singleton.mp hmem).symm ▸ ⟨hnil, hdot⟩)
    rw [unixFileName, split_of_notMem hfree, hkept, List.getLast?_singleton, Option.filter_some,
      if_pos (decide_eq_true hparent)]
  dots s h := by
    rcases mem_dots.mp h with rfl | rfl | rfl <;> rfl

/-- The name of a file up to its last dot, unless that is its first character. -/
def stem (file : Str) : Str :=
  match rsplitOnce '.' file with
  | some (before, _) => if before.isEmpty then file else before
  | none => file

/-- `Path::file_stem`. -/
def Platform.fileStem (platform : Platform) (path : Str) : Option Str :=
  (platform.fileName path).map stem

def forbidden : Str := "<>:\"/\\|?*".toList

def sanitize (platform : Platform) (name : Str) : Str :=
  let name := (platform.fileStem (trim name)).getD name
  let out := trim (name.map fun c => if c ∈ forbidden then '_' else c)
  if out.isEmpty then "Proxy".toList else out

/-! ## The header -/

/-- `header_str`: a header of visible ASCII, if it is not blank. -/
def headerStr (value : Option Bytes) : Option Str := do
  let bs ← value
  let s := bs.map charOfByte
  if (bs.all fun b => 32 ≤ b && b < 127 || b = 9) && !(trim s).isEmpty then some s else none

/-- `find` of a text, in characters. -/
def findStr (pat : Str) : Str → Option Nat
  | [] => if pat.isEmpty then some 0 else none
  | c :: cs => if pat.isPrefixOf (c :: cs) then some 0 else (findStr pat cs).map (· + 1)

def trimMatches (c : Char) (s : Str) : Str := (s.dropWhile (· = c)).rdropWhile (· = c)

/-- `parse_cd_name`.  The header is ASCII, so that its bytes are its characters. -/
def parseCdName (platform : Platform) (contentDisposition : Option Bytes) : Option Str := do
  let raw ← headerStr contentDisposition
  match findStr "filename*=".toList (toLower raw) with
  | some idx =>
      let part := trim (raw.drop (idx + 10))
      let part := trimMatches '"' (trim ((split (· = ';') part).headD part))
      match findStr "''".toList part with
      | some ticks => return sanitize platform (urlDecode (part.drop (ticks + 2)))
      | none => return sanitize platform part
  | none =>
      match findStr "filename=".toList (toLower raw) with
      | some idx =>
          let fnm := trim (raw.drop (idx + 9))
          let fnm := (split (· = ';') fnm).headD fnm
          return sanitize platform (trimMatches '"' (trim fnm))
      | none => none

/-! ## Texts that are kept -/

/-- A text that names a file, and has no extension. -/
structure IsFileName (s : Str) : Prop where
  ne_nil : s ≠ []
  trimmed : trim s = s
  allowed : ∀ c ∈ s, c ∉ forbidden
  no_extension : '.' ∉ s.tail ∨ s = "..".toList

/-- A text without a dot behind its first character is its own stem, and otherwise the stem ends
before the last dot. -/
theorem stem_cases (s : Str) : '.' ∉ s.tail ∧ stem s = s ∨
    ∃ before after, before ≠ [] ∧ s = before ++ '.' :: after ∧ '.' ∉ after ∧ stem s = before := by
  by_cases hmem : '.' ∈ s
  · obtain ⟨after, before, hrev, hfree⟩ :=
      List.eq_append_cons_of_mem (List.mem_reverse.mpr hmem)
    have hs : s = before.reverse ++ '.' :: after.reverse := by
      have h := congrArg List.reverse hrev
      rwa [List.reverse_reverse, List.reverse_append, List.reverse_cons, List.append_assoc] at h
    have hfree : '.' ∉ after.reverse := fun h => hfree (List.mem_reverse.mp h)
    have hsplit : rsplitOnce '.' s = some (before.reverse, after.reverse) := by
      rw [hs, rsplitOnce_append hfree]
    by_cases hbefore : before.reverse = []
    · refine .inl ⟨?_, by simp only [stem, hsplit, hbefore]; rfl⟩
      rw [hs, hbefore]
      exact hfree
    · refine .inr ⟨_, _, hbefore, hs, hfree, ?_⟩
      simp only [stem, hsplit, List.isEmpty_iff, hbefore, if_false]
  · exact .inl ⟨fun h => hmem (List.mem_of_mem_tail h), by rw [stem, rsplitOnce_none hmem]⟩

section

variable (platform : Platform) {s name : Str}

/-- What is left has no character that is replaced. -/
theorem allowed_sanitize (name : Str) : ∀ c ∈ sanitize platform name, c ∉ forbidden := by
  intro c hc
  simp only [sanitize] at hc
  split at hc
  · have hall : ∀ d ∈ "Proxy".toList, d ∉ forbidden := List.all_iff_forall_prop.mp (by decide)
    exact hall c hc
  · obtain ⟨d, -, rfl⟩ := List.mem_map.mp (mem_trim hc)
    split
    · decide
    · assumption

/-- The text that is taken of a name for a file. -/
def fileText (name : Str) : Str :=
  if trim name = [] ∨ trim name = ".".toList ∨ trim name = "..".toList then name
  else stem (trim name)

/-- A name in which nothing is replaced. -/
theorem sanitize_allowed (h : ∀ c ∈ name, c ∉ forbidden) : sanitize platform name =
    if (trim (fileText name)).isEmpty then "Proxy".toList else trim (fileText name) := by
  have hsep : ∀ c ∈ trim name, c ∉ "/\\:".toList := by
    have hall : ∀ c ∈ "/\\:".toList, c ∈ forbidden := List.all_iff_forall_prop.mp (by decide)
    exact fun c hc hmem => h c (mem_trim hc) (hall c hmem)
  have htext : (platform.fileStem (trim name)).getD name = fileText name := by
    rw [Platform.fileStem, fileText]
    split
    · next hdots => rw [platform.dots _ (mem_dots.mpr hdots), Option.map_none, Option.getD_none]
    · next hdots =>
        rw [platform.plain _ hsep (mt mem_dots.mp hdots), Option.map_some, Option.getD_some]
  have hsub : ∀ c ∈ fileText name, c ∈ name := by
    rw [fileText]
    split
    · exact fun c hc => hc
    · rcases stem_cases (trim name) with ⟨-, hstem⟩ | ⟨before, after, -, hs, -, hstem⟩
      · rw [hstem]
        exact fun c hc => mem_trim hc
      · rw [hstem]
        exact fun c hc => mem_trim (hs ▸ List.mem_append_left _ hc)
  have hmap : (fileText name).map (fun c => if c ∈ forbidden then '_' else c) = fileText name := by
    refine (List.map_congr_left fun c hc => ?_).trans (List.map_id _)
    exact if_neg (h c (hsub c hc))
  simp only [sanitize, htext, hmap]

/-- A name is kept exactly if it is one of a file without an extension. -/
theorem sanitize_eq_iff : sanitize platform s = s ↔ IsFileName s := by
  constructor
  · intro h
    have hallowed : ∀ c ∈ s, c ∉ forbidden := h ▸ allowed_sanitize platform s
    rw [sanitize_allowed platform hallowed] at h
    by_cases hempty : (trim (fileText s)).isEmpty
    · rw [if_pos hempty] at h
      rw [← h]
      exact ⟨by decide, by decide, List.all_iff_forall_prop.mp (by decide), .inl (by decide)⟩
    rw [if_neg hempty] at h
    have htrim : trim s = s := h ▸ trim_trim _
    have hne : s ≠ [] := fun hnil => hempty (List.isEmpty_iff.mpr (h.trans hnil))
    refine ⟨hne, htrim, hallowed, ?_⟩
    rw [fileText, htrim] at h
    split at h
    · next hdots =>
        rcases hdots with hnil | hdot | hparent
        · exact absurd hnil hne
        · exact .inl (hdot ▸ List.not_mem_nil)
        · exact .inr hparent
    · rcases stem_cases s with ⟨hfree, -⟩ | ⟨before, after, -, hs, -, hstem⟩
      · exact .inl hfree
      · rw [hstem] at h
        have hlen := length_trim_le before
        rw [h, hs, List.length_append, List.length_cons] at hlen
        omega
  · rintro ⟨hne, htrim, hallowed, hext⟩
    have htext : fileText s = s := by
      rw [fileText, htrim]
      split
      · rfl
      · next hdots =>
          rcases stem_cases s with ⟨-, hstem⟩ | ⟨before, after, hbefore, hs, -, -⟩
          · exact hstem
          · rcases hext with hfree | hparent
            · cases before with
              | nil => exact absurd rfl hbefore
              | cons c cs =>
                  rw [hs, List.cons_append, List.tail_cons] at hfree
                  exact absurd (List.mem_append_right _ List.mem_cons_self) hfree
            · exact absurd (.inr (.inr hparent)) hdots
    have hempty : s.isEmpty = false := by
      rw [Bool.eq_false_iff]
      exact fun h => hne (List.isEmpty_iff.mp h)
    rw [sanitize_allowed platform hallowed, htext, htrim, hempty]
    rfl

end

/-- What is taken of a name for a file is its beginning, up to blanks and to a dot. -/
theorem fileText_prefix {name : Str} (h : ∀ c ∈ name.head?, isWhiteSpace c = false) :
    ∃ blanks rest, name = trim (fileText name) ++ (blanks ++ rest) ∧
      (∀ c ∈ blanks, isWhiteSpace c) ∧ (rest = [] ∨ ∃ rest', rest = '.' :: rest') := by
  obtain ⟨blanks, hname, hblanks⟩ := trim_append_blanks h
  rw [fileText]
  split
  · exact ⟨blanks, [], by rwa [List.append_nil], hblanks, .inl rfl⟩
  · rcases stem_cases (trim name) with ⟨-, hstem⟩ | ⟨before, after, hne, hs, -, hstem⟩
    · refine ⟨blanks, [], ?_, hblanks, .inl rfl⟩
      rwa [hstem, trim_trim, List.append_nil]
    · have hhead : ∀ c ∈ before.head?, isWhiteSpace c = false := by
        intro c hc
        refine h c ?_
        rw [hname, hs, List.append_assoc, List.head?_append_of_ne_nil _ hne]
        exact hc
      obtain ⟨inner, hbefore, hinner⟩ := trim_append_blanks hhead
      refine ⟨inner, '.' :: after ++ blanks, ?_, hinner, .inr ⟨_, rfl⟩⟩
      rw [hstem, ← List.append_assoc, ← hbefore, ← List.append_assoc, ← hs]
      exact hname

/-- Of a text that is not ASCII, another one becomes the name. -/
theorem sanitize_byteChars_ne (platform : Platform) {s : Str} (h : ¬ IsAscii s) :
    sanitize platform (byteChars s) ≠ s := by
  intro heq
  have hallowed : ∀ c ∈ byteChars s, c ∉ forbidden := by
    have hascii : ∀ c ∈ forbidden, c.toNat < 128 := List.all_iff_forall_prop.mp (by decide)
    refine fun c hc hmem => ?_
    have hs := allowed_sanitize platform (byteChars s)
    rw [heq] at hs
    exact hs c (mem_byteChars (hascii c hmem) hc) hmem
  rw [sanitize_allowed platform hallowed] at heq
  split at heq
  · exact h (heq ▸ by decide)
  have htrim : trim s = s := by rw [← heq, trim_trim]
  obtain ⟨blanks, rest, hd, hblanks, hrest⟩ :=
    fileText_prefix (head_byteChars (head_of_trim htrim))
  rw [heq] at hd
  obtain ⟨a, f, rfl, hascii, hne, hwide⟩ := eq_append_of_prefix_byteChars h ⟨_, hd.symm⟩
  rw [byteChars_append, byteChars_ascii hascii, List.append_assoc, List.append_right_inj] at hd
  rcases hrest with rfl | ⟨rest', rfl⟩
  · rw [List.append_nil] at hd
    exact byteChars_ne_append_blanks hne hwide hblanks hd
  · have hdot : '.' ∈ byteChars f := by
      rw [hd]
      exact List.mem_append_right _ (List.mem_append_right _ List.mem_cons_self)
    exact absurd ((byteChars_wide hwide).1 _ hdot) (by decide)

/-! ## Names in headers -/

/-- The charset and the language that may stand before a name are of such characters. -/
def isTagChar (c : Char) : Bool := isUnreserved c && !"._~".toList.contains c

/-- The charset and the language, as they stand before a name. -/
structure IsTag (tag lang : Str) : Prop where
  eq : ∃ charset, tag = charset ++ '\'' :: (lang ++ ['\'']) ∧ toLower charset = "utf-8".toList
  chars : ∀ c ∈ lang, isTagChar c

/-- A header with a name in the extended form, `filename*=UTF-8'lang'e`, where no other one begins
before it. -/
inductive ExtendedName (lang e : Str) : Str → Prop where
  | of {front key lead tag blanks back : Str} :
      (∀ n < front.length, ¬ "filename*=".toList <+:
        toLower ((front ++ (key ++ (lead ++ (tag ++ e ++ (blanks ++ back))))).drop n)) →
      toLower key = "filename*=".toList → (∀ c ∈ lead, isWhiteSpace c) → IsTag tag lang →
      (∀ c ∈ blanks, isWhiteSpace c) → (back = [] ∨ ∃ rest, back = ';' :: rest) →
      ExtendedName lang e (front ++ (key ++ (lead ++ (tag ++ e ++ (blanks ++ back)))))

theorem findStr_eq {pat : Str} : ∀ {n : Nat} {s : Str}, (∀ m < n, ¬ pat <+: s.drop m) →
    pat <+: s.drop n → findStr pat s = some n
  | 0, [], _, h => by
      rw [findStr, List.prefix_nil.mp h]
      rfl
  | 0, c :: cs, _, h => if_pos (List.isPrefixOf_iff_prefix.mpr h)
  | n + 1, [], hbefore, h => absurd h (hbefore 0 (Nat.succ_pos n))
  | n + 1, c :: cs, hbefore, h => by
      have hfirst : ¬ pat.isPrefixOf (c :: cs) = true :=
        fun hpre => hbefore 0 (Nat.succ_pos n) (List.isPrefixOf_iff_prefix.mp hpre)
      have hrest : findStr pat cs = some n :=
        findStr_eq (fun m hm => hbefore (m + 1) (Nat.succ_lt_succ hm)) h
      rw [findStr, if_neg hfirst, hrest]
      rfl

/-- A text does not begin where its first character is missing. -/
theorem findStr_skip {q : Char} {pat a : Str} (h : q ∉ a) (s : Str) :
    findStr (q :: pat) (a ++ s) = (findStr (q :: pat) s).map (· + a.length) := by
  induction a with
  | nil => exact Option.map_id'.symm
  | cons c cs ih =>
      rw [List.mem_cons, not_or] at h
      have hfirst : ¬ (q :: pat).isPrefixOf (c :: (cs ++ s)) = true := fun hpre =>
        h.1 (List.cons_prefix_cons.mp (List.isPrefixOf_iff_prefix.mp hpre)).1
      rw [List.cons_append, findStr, if_neg hfirst, ih h.2, Option.map_map]
      rfl

theorem trimMatches_of_notMem {c : Char} {s : Str} (h : c ∉ s) : trimMatches c s = s := by
  have hne : ∀ d ∈ s, ¬ decide (d = c) = true :=
    fun d hd heq => h (of_decide_eq_true heq ▸ hd)
  rw [trimMatches, List.dropWhile_eq_self_iff.mpr fun hlen => hne _ (List.getElem_mem hlen),
    List.rdropWhile_eq_self_iff.mpr fun hnil => hne _ (List.getLast_mem hnil)]

/-- A character of a name as it is written in a header. -/
def IsNameChar (c : Char) : Prop := isUnreserved c ∨ c ∈ ['%', '\'']

instance (c : Char) : Decidable (IsNameChar c) := inferInstanceAs (Decidable (_ ∨ _))

theorem IsNameChar.kept {c : Char} (h : IsNameChar c) :
    c.toNat < 128 ∧ isWhiteSpace c = false ∧ c ∉ forbidden ∧ c ≠ ';' ∧ c ≠ '"' := by
  have hlt : c.toNat < 128 := by
    rcases h with h | h
    · exact (unreserved_lt h).1
    · have hall : ∀ d ∈ ['%', '\''], d.toNat < 128 := List.all_iff_forall_prop.mp (by decide)
      exact hall c h
  have hall : ∀ n < 128, IsNameChar (Char.ofNat n) → isWhiteSpace (Char.ofNat n) = false ∧
      Char.ofNat n ∉ forbidden ∧ Char.ofNat n ≠ ';' ∧ Char.ofNat n ≠ '"' := by decide +kernel
  have hthis := hall c.toNat hlt
  rw [Char.ofNat_toNat] at hthis
  exact ⟨hlt, hthis h⟩

theorem IsNameChar.of_lower {c : Char} (h : toAsciiLowercase c ∈ "utf-8".toList) :
    isUnreserved c ∧ c ≠ '.' ∧ c ≠ '\'' := by
  have hlt : c.toNat < 128 := by
    rw [toAsciiLowercase] at h
    split at h
    · next hupper => exact Nat.lt_of_le_of_lt (char_le_iff.mp hupper.2) (by decide)
    · have hall : ∀ d ∈ "utf-8".toList, d.toNat < 128 := List.all_iff_forall_prop.mp (by decide)
      exact hall c h
  have hall : ∀ n < 128, toAsciiLowercase (Char.ofNat n) ∈ "utf-8".toList →
      isUnreserved (Char.ofNat n) ∧ Char.ofNat n ≠ '.' ∧ Char.ofNat n ≠ '\'' := by decide +kernel
  have hthis := hall c.toNat hlt
  rw [Char.ofNat_toNat] at hthis
  exact hthis h

theorem mem_toLower {c : Char} {s : Str} (h : c ∈ s) : toAsciiLowercase c ∈ toLower s :=
  List.mem_map_of_mem h

theorem IsTag.nameChar {tag lang : Str} (h : IsTag tag lang) :
    ∀ c ∈ tag, IsNameChar c ∧ c ≠ '.' := by
  obtain ⟨⟨charset, rfl, hcharset⟩, hlang⟩ := h
  intro c hc
  rcases List.mem_append.mp hc with hc | hc
  · obtain ⟨hu, hdot, -⟩ := IsNameChar.of_lower (hcharset ▸ mem_toLower hc)
    exact ⟨.inl hu, hdot⟩
  have htick : IsNameChar '\'' ∧ '\'' ≠ '.' := by decide
  rcases List.mem_cons.mp hc with rfl | hc
  · exact htick
  rcases List.mem_append.mp hc with hc | hc
  · have htag := hlang c hc
    rw [isTagChar, Bool.and_eq_true] at htag
    refine ⟨.inl htag.1, ?_⟩
    rintro rfl
    cases htag.2
  · exact List.mem_singleton.mp hc ▸ htick

theorem IsTag.ne_nil {tag lang : Str} (h : IsTag tag lang) : tag ≠ [] := by
  obtain ⟨⟨charset, rfl, -⟩, -⟩ := h
  exact List.append_ne_nil_of_right_ne_nil _ (List.cons_ne_nil _ _)

/-- The two ticks stand together exactly if no language is named. -/
theorem IsTag.findStr {tag lang e : Str} (h : IsTag tag lang) (he : '\'' ∉ e) :
    (lang = [] → ∃ n, findStr "''".toList (tag ++ e) = some n ∧ (tag ++ e).drop (n + 2) = e) ∧
      (lang ≠ [] → findStr "''".toList (tag ++ e) = none) := by
  obtain ⟨⟨charset, rfl, hcharset⟩, hlang⟩ := h
  have hfree : '\'' ∉ charset := fun hmem =>
    (IsNameChar.of_lower (hcharset ▸ mem_toLower hmem)).2.2 rfl
  have hskip {a : Str} (ha : '\'' ∉ a) (s : Str) :
      Config.findStr "''".toList (a ++ s) = (Config.findStr "''".toList s).map (· + a.length) :=
    findStr_skip ha s
  constructor
  · rintro rfl
    refine ⟨0 + charset.length, ?_, ?_⟩
    · rw [List.append_assoc, hskip hfree]
      rfl
    · rw [Nat.zero_add, List.append_assoc, List.drop_append]
      simp
  · intro hne
    have htick {d : Char} (hd : '\'' ≠ d) (s : Str) : Config.findStr "''".toList ('\'' :: d :: s) =
        (Config.findStr "''".toList (d :: s)).map (· + 1) :=
      if_neg fun hpre => hd (List.cons_prefix_cons.mp (List.cons_prefix_cons.mp
        (List.isPrefixOf_iff_prefix.mp hpre)).2).1
    have hlang : '\'' ∉ lang := fun hmem => absurd (hlang _ hmem) (by decide)
    have hlast : Config.findStr "''".toList ('\'' :: e) = none := by
      cases e with
      | nil => rfl
      | cons d e =>
          have hskip := hskip he []
          rw [List.append_nil] at hskip
          rw [htick (fun heq => he (heq ▸ List.mem_cons_self)), hskip]
          rfl
    cases lang with
    | nil => exact absurd rfl hne
    | cons d ds =>
        have hd : '\'' ≠ d := fun heq => hlang (heq ▸ List.mem_cons_self)
        rw [List.append_assoc, hskip hfree, List.cons_append, List.cons_append, List.cons_append,
          htick hd, ← List.cons_append, ← List.cons_append, List.append_assoc, hskip hlang,
          List.singleton_append, hlast]
        rfl

/-- What stands after the key, up to the next parameter and without blanks and quotes. -/
theorem trim_part {lead x blanks back : Str} (hlead : ∀ c ∈ lead, isWhiteSpace c)
    (hne : x ≠ []) (hx : ∀ c ∈ x, IsNameChar c) (hblanks : ∀ c ∈ blanks, isWhiteSpace c)
    (hback : back = [] ∨ ∃ rest, back = ';' :: rest) (d : Str) :
    trimMatches '"' (trim ((split (· = ';') (trim (lead ++ (x ++ (blanks ++ back))))).headD d)) =
      x := by
  have hvisible : ∀ c ∈ x, isWhiteSpace c = false := fun c hc => (hx c hc).kept.2.1
  have hquote : '"' ∉ x := fun hmem => (hx _ hmem).kept.2.2.2.2 rfl
  have hsep : ';' ∉ x := fun hmem => (hx _ hmem).kept.2.2.2.1 rfl
  rw [trim_lead hlead]
  rcases hback with rfl | ⟨rest, rfl⟩
  · rw [List.append_nil, trim_blanks hne hvisible hblanks, split_of_notMem hsep,
      List.headD_cons, trim_of_visible hvisible, trimMatches_of_notMem hquote]
  · have hhead : ∀ c ∈ (x ++ blanks).head?, isWhiteSpace c = false := by
      rw [List.head?_append_of_ne_nil _ hne]
      exact fun c hc => hvisible c (List.mem_of_mem_head? hc)
    have hfree : ';' ∉ x ++ blanks := fun hmem => (List.mem_append.mp hmem).elim hsep fun h =>
      absurd (hblanks _ h) (by decide)
    obtain ⟨rest', htrim⟩ := @trim_append_cons _ rest ';' hhead (by decide)
    rw [← List.append_assoc, htrim, split_append _ hfree, List.headD_cons,
      trim_blanks hne hvisible hblanks, trimMatches_of_notMem hquote]

/-- What is taken of a name in the extended form: the text that was encoded, or all of it if a
language is named. -/
theorem parseCdName_extended (platform : Platform) {value : Option Bytes} {raw lang e : Str}
    {bs : Bytes} (hraw : headerStr value = some raw) (h : ExtendedName lang e raw)
    (henc : Encodes bs e) : ∃ tag, IsTag tag lang ∧ parseCdName platform value =
      some (sanitize platform (if lang = [] then urlDecode e else tag ++ e)) := by
  obtain ⟨hfirst, hkey, hlead, htag, hblanks, hback⟩ := h
  rename_i front key lead tag blanks back
  refine ⟨tag, htag, ?_⟩
  have hchars : ∀ c ∈ tag ++ e, IsNameChar c := fun c hc =>
    (List.mem_append.mp hc).elim (fun h => (htag.nameChar c h).1) fun h =>
      (henc.mem h).imp_right fun heq => List.mem_cons.mpr (.inl heq)
  have htick : '\'' ∉ e := fun hmem => (henc.mem hmem).elim (by decide) (by decide)
  have hidx : findStr "filename*=".toList
      (toLower (front ++ (key ++ (lead ++ (tag ++ e ++ (blanks ++ back)))))) =
        some front.length := by
    refine findStr_eq (fun m hm => ?_) ?_
    · rw [toLower, ← List.map_drop]
      exact hfirst m hm
    · rw [toLower, ← List.map_drop, List.drop_left, List.map_append]
      exact ⟨_, congrArg (· ++ _) hkey.symm⟩
  have hdrop : (front ++ (key ++ (lead ++ (tag ++ e ++ (blanks ++ back))))).drop
      (front.length + 10) = lead ++ (tag ++ e ++ (blanks ++ back)) := by
    have hlen : key.length = 10 := by
      rw [← List.length_map (f := toAsciiLowercase)]
      exact congrArg List.length hkey
    rw [← List.append_assoc, ← hlen, ← List.length_append, List.drop_left]
  have hpart := trim_part hlead (List.append_ne_nil_of_left_ne_nil htag.ne_nil _) hchars hblanks
    hback
  rw [parseCdName, hraw, Option.bind_eq_bind, Option.bind_some, hidx]
  simp only [hdrop, hpart]
  by_cases hlang : lang = []
  · obtain ⟨n, hfind, hn⟩ := (htag.findStr htick).1 hlang
    simp only [hfind, hn, if_pos hlang]
    rfl
  · simp only [(htag.findStr htick).2 hlang, if_neg hlang]
    rfl

/-- A text without blanks of which nothing is replaced keeps its beginning, up to a dot. -/
theorem sanitize_visible (platform : Platform) {name : Str} (hne : name ≠ [])
    (hhead : name.head? ≠ some '.') (h : ∀ c ∈ name, isWhiteSpace c = false ∧ c ∉ forbidden) :
    sanitize platform name = name ∨ ∃ rest, name = sanitize platform name ++ '.' :: rest := by
  obtain ⟨blanks, rest, hname, hblanks, hrest⟩ :=
    fileText_prefix fun c hc => (h c (List.mem_of_mem_head? hc)).1
  have hnil : blanks = [] := by
    refine List.eq_nil_iff_forall_not_mem.mpr fun c hc => ?_
    have hvisible := (h c (hname ▸ List.mem_append_right _ (List.mem_append_left _ hc))).1
    rw [hblanks c hc] at hvisible
    cases hvisible
  rw [hnil, List.nil_append] at hname
  rw [sanitize_allowed platform fun c hc => (h c hc).2]
  split
  · next hempty =>
      rw [List.isEmpty_iff.mp hempty, List.nil_append] at hname
      rcases hrest with rfl | ⟨rest', rfl⟩
      · exact absurd hname hne
      · exact absurd (congrArg List.head? hname) hhead
  · rcases hrest with rfl | ⟨rest', rfl⟩
    · rw [List.append_nil] at hname
      exact .inl hname.symm
    · exact .inr ⟨rest', hname⟩

/-- With a language, what is taken is never the text that was encoded. -/
theorem sanitize_tag_ne (platform : Platform) {s e tag lang : Str} (henc : Encodes (bytes s) e)
    (htag : IsTag tag lang) : sanitize platform (tag ++ e) ≠ s := by
  have hfree : ∀ c ∈ tag, c.toNat < 128 ∧ c ≠ '.' := fun c hc =>
    ⟨(htag.nameChar c hc).1.kept.1, (htag.nameChar c hc).2⟩
  have hdot : '.' ∉ tag := fun hmem => (hfree _ hmem).2 rfl
  have hchars : ∀ c ∈ tag ++ e, IsNameChar c := fun c hc =>
    (List.mem_append.mp hc).elim (fun h => (htag.nameChar c h).1) fun h =>
      (henc.mem h).imp_right fun heq => List.mem_cons.mpr (.inl heq)
  have hhead : (tag ++ e).head? ≠ some '.' := fun h => by
    rw [List.head?_append_of_ne_nil _ htag.ne_nil] at h
    exact hdot (List.mem_of_mem_head? h)
  have hpos := List.length_pos_of_ne_nil htag.ne_nil
  intro heq
  rcases sanitize_visible platform (List.append_ne_nil_of_left_ne_nil htag.ne_nil _) hhead
      fun c hc => ⟨(hchars c hc).kept.2.1, (hchars c hc).kept.2.2.1⟩ with hall | ⟨rest, hrest⟩
  · have hlen := henc.length_le
    rw [length_bytes] at hlen
    have hle := length_le_byteLen s
    rw [← heq, hall, List.length_append] at hle
    rw [← heq, hall] at hlen
    omega
  · obtain ⟨v, hv, rfl⟩ := eq_append_of_append_cons hdot hrest
    rw [← heq, hv] at henc
    exact not_encodes_dot rest v tag htag.ne_nil hfree henc

/-- The name of a header is the text that was encoded exactly if no language is named, and the
text is ASCII and the name of a file. -/
theorem sanitize_extended_iff (platform : Platform) {s e tag lang : Str}
    (henc : Encodes (bytes s) e) (htag : IsTag tag lang) :
    sanitize platform (if lang = [] then urlDecode e else tag ++ e) = s ↔
      IsAscii s ∧ lang = [] ∧ IsFileName s := by
  by_cases hlang : lang = []
  · rw [if_pos hlang, urlDecode_of_encodes henc]
    by_cases hascii : IsAscii s
    · have hs : (bytes s).map charOfByte = s := byteChars_ascii hascii
      rw [hs, sanitize_eq_iff]
      exact ⟨fun h => ⟨hascii, hlang, h⟩, fun h => h.2.2⟩
    · exact iff_of_false (sanitize_byteChars_ne platform hascii) fun h => hascii h.1
  · rw [if_neg hlang]
    exact iff_of_false (sanitize_tag_ne platform henc htag) fun h => hlang h.2.1

/-! ## Values of queries -/

/-- The parts of a query. -/
def queryParts (q : Str) : List Str :=
  (split (· = '&') ((stripPrefix "?".toList q).getD q)).filter (!·.isEmpty)

def setPart (map : Query) (part : Str) : Query :=
  match splitOnce '=' part with
  | some (k, v) => map.insert (toLower (urlDecode k)) (urlDecode v)
  | none => map.insert (urlDecode part) []

theorem parseQuery_eq (q : Str) : parseQuery q = (queryParts q).foldl setPart ∅ := rfl

/-- The key that a part sets. -/
def partKey (part : Str) : Str :=
  match splitOnce '=' part with
  | some (k, _) => toLower (urlDecode k)
  | none => urlDecode part

/-- The last part of a query that sets the key, and the value as it is written there. -/
inductive QueryAt (key e : Str) : Str → Prop where
  | of {q k : Str} {before after : List Str} : queryParts q = before ++ (k ++ '=' :: e) :: after →
      '=' ∉ k → toLower (urlDecode k) = key → (∀ part ∈ after, partKey part ≠ key) → QueryAt key e q

theorem lookup_setPart_ne {key part : Str} (h : partKey part ≠ key) (map : Query) :
    (setPart map part).lookup key = map.lookup key := by
  rw [setPart]
  rw [partKey] at h
  split at h
  · rw [FinMap.lookup_insert_eq, if_neg h.symm]
  · rw [FinMap.lookup_insert_eq, if_neg h.symm]

theorem lookup_foldl_setPart {key : Str} {parts : List Str} (h : ∀ part ∈ parts, partKey part ≠ key)
    (map : Query) : (parts.foldl setPart map).lookup key = map.lookup key := by
  induction parts generalizing map with
  | nil => rfl
  | cons part parts ih =>
      rw [List.forall_mem_cons] at h
      rw [List.foldl_cons, ih h.2, lookup_setPart_ne h.1]

theorem QueryAt.lookup {key e q : Str} (h : QueryAt key e q) :
    (parseQuery q).lookup key = some (urlDecode e) := by
  obtain ⟨hparts, hk, hkey, hafter⟩ := h
  rw [parseQuery_eq, hparts, List.foldl_append, List.foldl_cons, lookup_foldl_setPart hafter,
    setPart, splitOnce_append _ hk, FinMap.lookup_insert_eq, if_pos hkey.symm]

/-! ## What is taken -/

/-- The fields of a node that hold values of the query, each with its key. -/
def queried (node : ProxyNode) : List (String × Option Str) :=
  [("flow", node.flow), ("fp", node.clientFingerprint), ("pbk", node.realityPublicKey),
    ("sid", node.realityShortId), ("path", node.wsPath), ("host", node.wsHost),
    ("sni", node.serverName)]

/-- What a text stands for: a value; the name of a node, where the host is taken instead of an
empty one or instead of a blank one; a password behind a method; the name of a file. -/
inductive Use where
  | value
  | name (host : Str)
  | label (host : Str)
  | password (method : Str)
  | file (lang : Str)

/-- The ASCII texts that come through. -/
def Use.Keeps (s : Str) : Use → Prop
  | value => True
  | name host => s ≠ [] ∨ s = host
  | label host => trim s ≠ [] ∨ s = host
  | password method => ':' ∉ method
  | file lang => lang = [] ∧ IsFileName s

/-- What is taken of a text that stands percent-encoded in a link or in a header. -/
inductive Takes (crates : Crates) (platform : Platform) (e : Str) : Use → Str → Prop where
  | decoded : Takes crates platform e .value (urlDecode e)
  | query {q key r : Str} : QueryAt key e q → (parseQuery q).lookup key = some r →
      Takes crates platform e .value r
  | vlessName {url : Str} {uri : Url} {node : ProxyNode} : crates.parseUrl url = some uri →
      parseVless crates url = some node → uri.fragment = some e →
      Takes crates platform e (.label node.server) node.name
  | vlessId {url r : Str} {uri : Url} {node : ProxyNode} : crates.parseUrl url = some uri →
      parseVless crates url = some node → uri.username = e → node.uuid = some r →
      Takes crates platform e .value r
  | vlessQuery {url r : Str} {key : String} {uri : Url} {node : ProxyNode} :
      crates.parseUrl url = some uri → parseVless crates url = some node →
      QueryAt key.toList e (uri.query.getD []) → (key, some r) ∈ queried node →
      Takes crates platform e .value r
  | trojanName {url : Str} {uri : Url} {node : ProxyNode} : crates.parseUrl url = some uri →
      parseTrojan crates url = some node → uri.fragment = some e →
      Takes crates platform e (.name node.server) node.name
  | trojanPassword {url r : Str} {uri : Url} {node : ProxyNode} :
      crates.parseUrl url = some uri → parseTrojan crates url = some node → uri.username = e →
      node.password = some r → Takes crates platform e .value r
  | trojanQuery {url r : Str} {key : String} {uri : Url} {node : ProxyNode} :
      crates.parseUrl url = some uri → parseTrojan crates url = some node →
      QueryAt key.toList e (uri.query.getD []) → (key, some r) ∈ queried node →
      Takes crates platform e .value r
  | plainName {url : Str} {uri : Url} {node : ProxyNode} : crates.parseUrl url = some uri →
      parseSocksLink crates url = some node ∨ parseHttpLink crates url = some node →
      uri.fragment = some e → Takes crates platform e (.name node.server) node.name
  | plainUser {url : Str} {uri : Url} {node : ProxyNode} : crates.parseUrl url = some uri →
      parseSocksLink crates url = some node ∨ parseHttpLink crates url = some node →
      uri.username = e → Takes crates platform e .value (node.username.getD [])
  | plainPassword {url r : Str} {uri : Url} {node : ProxyNode} : crates.parseUrl url = some uri →
      parseSocksLink crates url = some node ∨ parseHttpLink crates url = some node →
      uri.password = some e → node.password = some r → Takes crates platform e .value r
  | ssName {head : Str} {node : ProxyNode} : '#' ∉ head →
      parseSs crates (head ++ '#' :: e) = .ok (some node) →
      Takes crates platform e (.name node.server) node.name
  | ssPassword {method e1 right t r : Str} {node : ProxyNode} : Encodes (bytes method) e1 →
      '@' ∉ right → '#' ∉ right → (t = [] ∨ ∃ tag, t = '#' :: tag) →
      parseSs crates ("ss://".toList ++ (e1 ++ ':' :: e ++ '@' :: right ++ t)) = .ok (some node) →
      node.password = some r → Takes crates platform e (.password method) r
  | file {value : Option Bytes} {raw lang r : Str} : headerStr value = some raw →
      ExtendedName lang e raw → parseCdName platform value = some r →
      Takes crates platform e (.file lang) r

theorem trim_byteChars_ne {s : Str} (h : ¬ IsAscii s) : trim (byteChars s) ≠ [] := by
  obtain ⟨c, hc, hwide⟩ : ∃ c ∈ s, ¬ c.toNat < 128 := by
    by_contra hall
    exact h fun c hc => by_contra fun hlt => hall ⟨c, hc, hlt⟩
  obtain ⟨b, bs, hbytes, -, hb, -⟩ := utf8EncodeChar_wide (Nat.le_of_not_lt hwide)
  have hmem : charOfByte b ∈ byteChars s :=
    List.mem_map_of_mem (List.mem_flatMap.mpr ⟨c, hc, hbytes ▸ List.mem_cons_self⟩)
  obtain ⟨front, back, heq⟩ := List.append_of_mem hmem
  have hvisible := isWhiteSpace_lead hb
  have hwithin : [charOfByte b] <:+: trim (byteChars s) :=
    (infix_rdropWhile hvisible [] _).mpr ((infix_dropWhile hvisible []).mpr
      ⟨front, back, by rw [heq, List.append_assoc]; rfl⟩)
  exact fun hnil => List.ne_nil_of_mem (hwithin.subset List.mem_cons_self) hnil

section

variable {crates : Crates} {s e : Str}

/-- A name is taken if it is not empty. -/
theorem name_iff (henc : Encodes (bytes s) e) (host : Str) :
    ((some (urlDecode e)).filter (!·.isEmpty)).getD host = s ↔
      IsAscii s ∧ (s ≠ [] ∨ s = host) := by
  have hdecoded : urlDecode e = byteChars s := urlDecode_of_encodes henc
  rw [Option.filter_some, hdecoded]
  by_cases hascii : IsAscii s
  · rw [byteChars_ascii hascii, and_iff_right hascii]
    cases s with
    | nil => exact ⟨fun h => .inr h.symm, fun h => (h.resolve_left fun hne => hne rfl).symm⟩
    | cons c cs => exact iff_of_true rfl (.inl (List.cons_ne_nil _ _))
  · have hne : (byteChars s).isEmpty = false := by
      rw [Bool.eq_false_iff]
      exact fun h => trim_byteChars_ne hascii (by rw [List.isEmpty_iff.mp h]; rfl)
    rw [hne]
    exact iff_of_false (fun h => hascii (byteChars_eq_iff.mp h)) fun h => hascii h.1

/-- A label is taken if it is not blank. -/
theorem label_iff (henc : Encodes (bytes s) e) (host : Str) :
    (if (trim (((some (urlDecode e)).filter (!·.isEmpty)).getD host)).isEmpty then host
      else ((some (urlDecode e)).filter (!·.isEmpty)).getD host) = s ↔
      IsAscii s ∧ (trim s ≠ [] ∨ s = host) := by
  by_cases hascii : IsAscii s
  · rw [and_iff_right hascii]
    by_cases hblank : trim s = []
    · have hhost : (if (trim (((some (urlDecode e)).filter (!·.isEmpty)).getD host)).isEmpty then
          host else ((some (urlDecode e)).filter (!·.isEmpty)).getD host) = host := by
        by_cases hnil : s = []
        · have hdecoded : urlDecode e = [] := by
            rw [urlDecode_of_encodes henc, hnil]
            rfl
          simp only [hdecoded, Option.filter_some]
          exact ite_self _
        · rw [(name_iff henc host).mpr ⟨hascii, .inl hnil⟩, hblank]
          rfl
      rw [hhost]
      exact ⟨fun h => .inr h.symm, fun h => (h.resolve_left fun hne => hne hblank).symm⟩
    · have hne : s ≠ [] := fun hnil => hblank (by rw [hnil]; rfl)
      have hempty : (trim s).isEmpty = false := by
        rw [Bool.eq_false_iff]
        exact fun h => hblank (List.isEmpty_iff.mp h)
      rw [(name_iff henc host).mpr ⟨hascii, .inl hne⟩, hempty]
      exact iff_of_true rfl (.inl hblank)
  · have hne := trim_byteChars_ne hascii
    have hdecoded : urlDecode e = byteChars s := urlDecode_of_encodes henc
    have hfull : (byteChars s).isEmpty = false := by
      rw [Bool.eq_false_iff]
      exact fun h => hne (by rw [List.isEmpty_iff.mp h]; rfl)
    have htrim : (trim (byteChars s)).isEmpty = false := by
      rw [Bool.eq_false_iff]
      exact fun h => hne (List.isEmpty_iff.mp h)
    rw [Option.filter_some, hdecoded, hfull]
    simp only [Bool.not_false, if_true, Option.getD_some, htrim, Bool.false_eq_true, if_false]
    exact iff_of_false (fun h => hascii (byteChars_eq_iff.mp h)) fun h => hascii h.1

/-- The password is found behind the first separator. -/
theorem password_iff {method m r : Str}
    (h : splitOnce ':' (byteChars method ++ ':' :: byteChars s) = some (m, r)) :
    r = s ↔ IsAscii s ∧ ':' ∉ method := by
  by_cases hmem : ':' ∈ method
  · refine iff_of_false ?_ fun h => h.2 hmem
    obtain ⟨a, b, rfl, hfree⟩ := List.eq_append_cons_of_mem hmem
    have hcut : byteChars (a ++ ':' :: b) = byteChars a ++ ':' :: byteChars b := by
      rw [byteChars_append, ← List.singleton_append, byteChars_append]
      rfl
    rw [hcut, List.append_assoc, List.cons_append,
      splitOnce_append _ fun h => hfree (mem_byteChars (by decide) h)] at h
    cases h
    intro heq
    have hlen := congrArg List.length heq
    have hle := length_le_byteLen s
    rw [List.length_append, List.length_cons, byteChars, List.length_map, byteChars,
      List.length_map, length_bytes s] at hlen
    omega
  · have hfree : ':' ∉ byteChars method := fun h => hmem (mem_byteChars (by decide) h)
    rw [splitOnce_append _ hfree] at h
    cases h
    rw [byteChars_eq_iff]
    exact (and_iff_left hmem).symm

end

/-! ## The links -/

/-- The fields of a node from a link that is a URL. -/
structure Holds (uri : Url) (node : ProxyNode) : Prop where
  host : uri.hostStr = some node.server
  values : ∀ {key : String} {v r : Str},
    (parseQuery (uri.query.getD [])).lookup key.toList = some v → (key, some r) ∈ queried node → r = v

section

variable {crates : Crates} {url : Str} {uri : Url} {node : ProxyNode}

theorem parseVless_holds (huri : crates.parseUrl url = some uri)
    (h : parseVless crates url = some node) : Holds uri node ∧
      node.name = (if (trim (Url.name uri)).isEmpty then node.server else Url.name uri) ∧
      node.uuid = some (urlDecode uri.username) := by
  rw [parseVless, huri, Option.bind_eq_bind, Option.bind_some] at h
  obtain ⟨server, hserver, heq⟩ := Option.bind_eq_some_iff.mp h
  cases heq
  refine ⟨⟨hserver, ?_⟩, rfl, rfl⟩
  intro key v r hv hmem
  simp only [queried, List.mem_cons, List.not_mem_nil, or_false, Prod.mk.injEq] at hmem
  rcases hmem with ⟨rfl, h⟩ | ⟨rfl, h⟩ | ⟨rfl, h⟩ | ⟨rfl, h⟩ | ⟨rfl, h⟩ | ⟨rfl, h⟩ | ⟨rfl, h⟩
  all_goals
    simp only [Query.get, hv] at h
    exact Option.some.inj h

theorem parseTrojan_holds (huri : crates.parseUrl url = some uri)
    (h : parseTrojan crates url = some node) : Holds uri node ∧ node.name = Url.name uri ∧
      node.password = some (urlDecode uri.username) := by
  rw [parseTrojan, huri, Option.bind_eq_bind, Option.bind_some] at h
  obtain ⟨server, hserver, heq⟩ := Option.bind_eq_some_iff.mp h
  cases heq
  refine ⟨⟨hserver, ?_⟩, rfl, rfl⟩
  intro key v r hv hmem
  simp only [queried, List.mem_cons, List.not_mem_nil, or_false, Prod.mk.injEq] at hmem
  rcases hmem with ⟨rfl, h⟩ | ⟨rfl, h⟩ | ⟨rfl, h⟩ | ⟨rfl, h⟩ | ⟨rfl, h⟩ | ⟨rfl, h⟩ | ⟨rfl, h⟩
  all_goals
    first
      | cases h
      | simp only [Query.get, hv] at h
        exact Option.some.inj h

theorem plainNode_holds {typeName : String} {defaultPort : UInt16} {tls : Bool}
    (h : plainNode uri typeName defaultPort tls = some node) :
    node.name = ((uri.fragment.map urlDecode).filter (!·.isEmpty)).getD node.server ∧
      node.username.getD [] = urlDecode uri.username ∧
      node.password = uri.password.map urlDecode := by
  obtain ⟨host, -, heq⟩ := Option.bind_eq_some_iff.mp h
  cases heq
  refine ⟨rfl, ?_, rfl⟩
  by_cases hempty : (urlDecode uri.username).isEmpty = true
  · simp only [List.isEmpty_iff.mp hempty]
    rfl
  · simp only [if_neg hempty, Option.getD_some]

theorem plain_holds (huri : crates.parseUrl url = some uri)
    (h : parseSocksLink crates url = some node ∨ parseHttpLink crates url = some node) :
    ∃ typeName defaultPort tls, plainNode uri typeName defaultPort tls = some node := by
  rcases h with h | h
  · rw [parseSocksLink, huri] at h
    exact ⟨_, _, _, h⟩
  · rw [parseHttpLink, huri, Option.bind_eq_bind, Option.bind_some] at h
    split at h
    · cases h
    · exact ⟨_, _, _, h⟩

theorem ssNode_holds {hash : Option Str} {userinfo hostport query : Str}
    (h : ssNode crates hash (userinfo, hostport, query) = some node) :
    node.name = (hash.filter (!·.isEmpty)).getD node.server ∧
      ∃ method password, splitOnce ':' userinfo = some (method, password) ∧
        node.password = some password := by
  obtain ⟨⟨method, password⟩, hsplit, h⟩ := Option.bind_eq_some_iff.mp h
  obtain ⟨⟨host, port⟩, -, h⟩ := Option.bind_eq_some_iff.mp h
  cases h
  exact ⟨rfl, method, password, hsplit, rfl⟩

/-- The name of a link is its tag. -/
theorem parseSs_name {head e : Str} (hhead : '#' ∉ head)
    (h : parseSs crates (head ++ '#' :: e) = .ok (some node)) :
    node.name = ((some (urlDecode e)).filter (!·.isEmpty)).getD node.server := by
  have hslice : sliceFrom (head ++ '#' :: e) (byteLen head + 1) = .ok e := by
    have hslice := sliceFrom_append (head ++ ['#']) e
    rwa [List.append_assoc, byteLen_append] at hslice
  rw [parseSs_eq, find_append e hhead] at h
  simp only [hslice] at h
  obtain ⟨hash, hhash, h⟩ := bind_eq_ok.mp h
  cases hhash
  obtain ⟨parts, -, h⟩ := bind_eq_ok.mp h
  cases parts with
  | none => cases h
  | some parts => exact (ssNode_holds (Except.ok.inj h)).1

/-- The password of a link is found in its user information. -/
theorem parseSs_password {s method e e1 right t : Str} (hmethod : Encodes (bytes method) e1)
    (henc : Encodes (bytes s) e) (hat : '@' ∉ right) (hhash : '#' ∉ right)
    (ht : t = [] ∨ ∃ tag, t = '#' :: tag)
    (h : parseSs crates ("ss://".toList ++ (e1 ++ ':' :: e ++ '@' :: right ++ t)) =
      .ok (some node)) :
    ∃ m password, splitOnce ':' (byteChars method ++ ':' :: byteChars s) = some (m, password) ∧
      node.password = some password := by
  let f : SsFields := ⟨method, s, .name [] (List.forall_mem_nil _), 0, none, none⟩
  have hu : UserInfo f true (e1 ++ ':' :: e) := .percent hmethod henc
  have hfree : '#' ∉ e1 ++ ':' :: e ++ '@' :: right := fun hmem =>
    (List.mem_append.mp hmem).elim (hu.notMem (by decide)) fun hmem =>
      (List.mem_cons.mp hmem).elim (by decide) hhash
  have hslice : sliceFrom ('@' :: right) 1 = .ok right := sliceFrom_append ['@'] right
  rw [parseSs_body crates ht hfree fun pat hcolon hslash hat => hu.not_prefix hcolon hslash hat _,
    ssParts, rfind_append hat] at h
  simp only [splitAt_append, ok_bind, hslice, decodeSsUserinfo_percent hmethod henc] at h
  exact (ssNode_holds (Except.ok.inj h)).2

end

/-- What is taken of an encoded text, wherever it stands, is the text that was encoded exactly if
that is ASCII and the place can hold it. -/
theorem decoded_iff {crates : Crates} {platform : Platform} {s e r : Str} {use : Use}
    (henc : Encodes (bytes s) e) (h : Takes crates platform e use r) :
    r = s ↔ IsAscii s ∧ use.Keeps s := by
  have hvalue {v : Str} (hv : v = urlDecode e) : v = s ↔ IsAscii s ∧ Use.value.Keeps s := by
    rw [hv, urlDecode_eq_iff henc]
    exact (and_iff_left trivial).symm
  have hqueried {q key v : Str} (hq : QueryAt key e q) (hv : (parseQuery q).lookup key = some v) :
      v = urlDecode e := Option.some.inj (hv.symm.trans hq.lookup)
  cases h with
  | decoded => exact hvalue rfl
  | query hq hr => exact hvalue (hqueried hq hr)
  | vlessName huri hnode hfragment =>
      obtain ⟨hholds, hname, -⟩ := parseVless_holds huri hnode
      rw [hname, Url.name, hfragment, hholds.host]
      exact label_iff henc _
  | vlessId huri hnode husername hr =>
      obtain ⟨-, -, huuid⟩ := parseVless_holds huri hnode
      exact hvalue (Option.some.inj (hr.symm.trans (husername ▸ huuid)))
  | vlessQuery huri hnode hq hr =>
      exact hvalue ((parseVless_holds huri hnode).1.values hq.lookup hr)
  | trojanName huri hnode hfragment =>
      obtain ⟨hholds, hname, -⟩ := parseTrojan_holds huri hnode
      rw [hname, Url.name, hfragment, hholds.host]
      exact name_iff henc _
  | trojanPassword huri hnode husername hr =>
      obtain ⟨-, -, hpassword⟩ := parseTrojan_holds huri hnode
      exact hvalue (Option.some.inj (hr.symm.trans (husername ▸ hpassword)))
  | trojanQuery huri hnode hq hr =>
      exact hvalue ((parseTrojan_holds huri hnode).1.values hq.lookup hr)
  | plainName huri hnode hfragment =>
      obtain ⟨_, _, _, hplain⟩ := plain_holds huri hnode
      rw [(plainNode_holds hplain).1, hfragment]
      exact name_iff henc _
  | plainUser huri hnode husername =>
      obtain ⟨_, _, _, hplain⟩ := plain_holds huri hnode
      exact hvalue (husername ▸ (plainNode_holds hplain).2.1)
  | plainPassword huri hnode hpassword hr =>
      obtain ⟨_, _, _, hplain⟩ := plain_holds huri hnode
      rw [(plainNode_holds hplain).2.2, hpassword] at hr
      exact hvalue (Option.some.inj hr).symm
  | ssName hhead hnode =>
      rw [parseSs_name hhead hnode]
      exact name_iff henc _
  | ssPassword hmethod hat hhash ht hnode hr =>
      obtain ⟨m, password, hsplit, hpassword⟩ := parseSs_password hmethod henc hat hhash ht hnode
      rw [hpassword] at hr
      cases hr
      exact password_iff hsplit
  | file hraw hname hr =>
      obtain ⟨tag, htag, hparse⟩ := parseCdName_extended platform hraw hname henc
      rw [hparse] at hr
      cases hr
      exact sanitize_extended_iff platform henc htag

def nodeUrl : Str := "vless://id@h:1#My%20Node".toList

def nodeHeader : Str := "attachment; filename*=UTF-8''My%20Node; x=1".toList

/-- Crates that know one link. -/
def oneLink : Crates where
  parseUrl url := if url ≠ nodeUrl then none else some {
    scheme := "vless".toList
    username := "id".toList
    password := none
    hostStr := some "h".toList
    port := some 1
    path := []
    query := none
    fragment := some "My%20Node".toList }
  decodeBase64 _ := none
  parseJson _ := none
  orderOf _ m := m.entries.map fun e => (e.1, e.2)
  mapKey := 0

/-- The encoding of a text with a blank, as the name of a node and as that of a profile. -/
theorem decoded_iff_blank :
    (∃ node, parseVless oneLink nodeUrl = some node ∧ node.name = "My Node".toList) ∧
      parseCdName unix (some (bytes nodeHeader)) = some "My Node".toList := by
  have henc : Encodes (bytes "My Node".toList) "My%20Node".toList :=
    .plain rfl (.plain rfl (.escape (by decide) (by decide) rfl rfl (.plain rfl (.plain rfl
      (.plain rfl (.plain rfl .nil))))))
  have hascii : IsAscii "My Node".toList := by decide
  constructor
  · obtain ⟨node, hnode⟩ := Option.isSome_iff_exists.mp
      (show (parseVless oneLink nodeUrl).isSome by decide +kernel)
    have htakes : Takes oneLink unix "My%20Node".toList (.label node.server) node.name :=
      .vlessName rfl hnode rfl
    exact ⟨node, hnode, (decoded_iff henc htakes).mpr ⟨hascii, .inl (by decide)⟩⟩
  · have hname : ExtendedName [] "My%20Node".toList nodeHeader :=
      @ExtendedName.of [] "My%20Node".toList "attachment; ".toList "filename*=".toList []
        "UTF-8''".toList [] "; x=1".toList (by decide) rfl (List.forall_mem_nil _)
        ⟨⟨"UTF-8".toList, rfl, rfl⟩, List.forall_mem_nil _⟩ (List.forall_mem_nil _) (.inr ⟨_, rfl⟩)
    have hraw : headerStr (some (bytes nodeHeader)) = some nodeHeader := by decide +kernel
    obtain ⟨r, hr⟩ := Option.isSome_iff_exists.mp
      (show (parseCdName unix (some (bytes nodeHeader))).isSome by decide +kernel)
    have htakes : Takes oneLink unix "My%20Node".toList (.file []) r := .file hraw hname hr
    have hfile : IsFileName "My Node".toList :=
      ⟨by decide, by decide, List.all_iff_forall_prop.mp (by decide), .inl (by decide)⟩
    rw [hr, (decoded_iff henc htakes).mpr ⟨hascii, rfl, hfile⟩]

/-- The encoding of an accented letter comes back as two characters. -/
theorem urlDecode_not_inverse :
    ¬ ∀ s e : Str, Encodes (bytes s) e → urlDecode e = s := by
  intro h
  have henc : Encodes (bytes ['é']) "%C3%A9".toList :=
    .escape (by decide) (by decide) rfl rfl (.escape (by decide) (by decide) rfl rfl .nil)
  exact absurd (h _ _ henc) (by decide)

end Config

end RustClash
