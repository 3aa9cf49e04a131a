import Mathlib.Algebra.GroupWithZero.Nat
import RustClash.Core.DnsRead
import RustClash.Core.Text

/-!
# Host names in DNS messages

A host name is a list of labels of letters, digits and hyphens.  Its normal form is the
name in lower case, and its encoding is a name of one step for each label and one for the
root.  The reader takes 64 steps at most, and one of a response takes another for the
pointer to the question, so names with more than 62 labels do not come back.
-/

namespace RustClash

open Str

/-! ## Names of labels -/

/-- A letter, digit or hyphen. -/
def isLdh (c : Char) : Bool :=
  ('a' ≤ c && c ≤ 'z') || ('A' ≤ c && c ≤ 'Z') || ('0' ≤ c && c ≤ '9') || c = '-'

def IsLabel (label : Str) : Prop := label ≠ [] ∧ label.length ≤ 63 ∧ ∀ c ∈ label, isLdh c

instance (label : Str) : Decidable (IsLabel label) :=
  @instDecidableAnd _ _ _ (@instDecidableAnd _ _ _ (List.decidableBAll _ _))

structure HostName where
  labels : List Str
  nonempty : labels ≠ []
  valid : ∀ label ∈ labels, IsLabel label

def HostName.text (h : HostName) : Str := join ['.'] h.labels

/-- The bytes of the name in a message: a length before each label, and the root. -/
def HostName.wireLength (h : HostName) : Nat := (h.labels.map fun label => label.length + 1).sum + 1

theorem isLdh_iff {c : Char} : isLdh c ↔ (97 ≤ c.toNat ∧ c.toNat ≤ 122) ∨
    (65 ≤ c.toNat ∧ c.toNat ≤ 90) ∨ (48 ≤ c.toNat ∧ c.toNat ≤ 57) ∨ c.toNat = 45 := by
  have hyphen : c = '-' ↔ c.toNat = 45 := Char.toNat_inj.symm
  simp only [isLdh, Bool.or_eq_true, Bool.and_eq_true, decide_eq_true_eq, char_le_iff, hyphen,
    or_assoc]
  exact Iff.rfl

/-- Only a capital letter is changed. -/
theorem toNat_lower (c : Char) : (65 ≤ c.toNat ∧ c.toNat ≤ 90) ∧
      (toAsciiLowercase c).toNat = c.toNat + 32 ∨
    ¬ (65 ≤ c.toNat ∧ c.toNat ≤ 90) ∧ toAsciiLowercase c = c := by
  have hupper : ('A' ≤ c ∧ c ≤ 'Z') ↔ (65 ≤ c.toNat ∧ c.toNat ≤ 90) :=
    and_congr char_le_iff char_le_iff
  by_cases hc : 65 ≤ c.toNat ∧ c.toNat ≤ 90
  · refine .inl ⟨hc, ?_⟩
    rw [toAsciiLowercase, if_pos (hupper.mpr hc)]
    exact toNat_ofNat (.inl (by omega))
  · exact .inr ⟨hc, if_neg (hupper.not.mpr hc)⟩

theorem isLdh_ascii {c : Char} (h : isLdh c) : c.toNat < 128 := by
  have := isLdh_iff.mp h
  omega

theorem isLdh_visible {c : Char} (h : isLdh c) : isWhiteSpace c = false := by
  have := isLdh_iff.mp h
  simp only [isWhiteSpace, Bool.or_eq_false_iff, Bool.and_eq_false_iff, decide_eq_false_iff_not,
    beq_eq_false_iff_ne]
  omega

theorem isLdh_ne {c d : Char} (h : isLdh c) (hd : isLdh d = false) : c ≠ d := by
  rintro rfl
  rw [h] at hd
  cases hd

theorem isLdh_lower {c : Char} (h : isLdh c) : isLdh (toAsciiLowercase c) := by
  rcases toNat_lower c with ⟨hupper, hlow⟩ | ⟨-, hsame⟩
  · rw [isLdh_iff, hlow]
    omega
  · rwa [hsame]

theorem IsLabel.lower {label : Str} (h : IsLabel label) : IsLabel (toLower label) := by
  refine ⟨by simpa [toLower] using h.1, by simpa [toLower] using h.2.1, fun c hc => ?_⟩
  obtain ⟨d, hd, rfl⟩ := List.mem_map.mp hc
  exact isLdh_lower (h.2.2 d hd)

theorem toLower_toLower (s : Str) : toLower (toLower s) = toLower s := by
  refine (List.map_map ..).trans (List.map_congr_left fun c _ => ?_)
  show toAsciiLowercase (toAsciiLowercase c) = toAsciiLowercase c
  rcases toNat_lower (toAsciiLowercase c) with ⟨hupper, -⟩ | ⟨-, hsame⟩
  · rcases toNat_lower c with ⟨_, hlow⟩ | ⟨hnot, hsame⟩
    · omega
    · rw [hsame] at hupper
      exact absurd hupper hnot
  · exact hsame

theorem toLower_join (labels : List Str) :
    toLower (join ['.'] labels) = join ['.'] (labels.map toLower) := by
  induction labels with
  | nil => rfl
  | cons label labels ih =>
      cases labels with
      | nil => rfl
      | cons label' labels =>
          show List.map _ (label ++ ['.'] ++ join ['.'] (label' :: labels)) = _
          rw [List.map_append, List.map_append]
          exact congrArg _ ih

/-- The name in lower case. -/
def HostName.lower (h : HostName) : HostName where
  labels := h.labels.map toLower
  nonempty := by simpa using h.nonempty
  valid := by
    intro label hlabel
    obtain ⟨l, hl, rfl⟩ := List.mem_map.mp hlabel
    exact (h.valid l hl).lower

namespace HostName

variable (h : HostName)

theorem text_lower : h.lower.text = toLower h.text := (toLower_join h.labels).symm

/-- The characters of a name are those of its labels, and dots. -/
theorem mem_text {c : Char} (hc : c ∈ h.text) : isLdh c ∨ c = '.' := by
  by_contra hn
  rw [not_or] at hn
  exact notMem_join hn.2 (fun label hlabel hmem => hn.1 ((h.valid label hlabel).2.2 c hmem)) hc

theorem text_ne_nil : h.text ≠ [] := by
  obtain ⟨labels, hne, hvalid⟩ := h
  cases labels with
  | nil => exact absurd rfl hne
  | cons label labels =>
      have hlabel : label ≠ [] := (hvalid label List.mem_cons_self).1
      cases labels with
      | nil => exact hlabel
      | cons label' labels =>
          show label ++ ['.'] ++ join ['.'] (label' :: labels) ≠ []
          simp

/-- The last label is not empty, so a name does not end in a dot. -/
theorem getLast_text {labels : List Str} (hne : join ['.'] labels ≠ [])
    (hvalid : ∀ label ∈ labels, IsLabel label) : (join ['.'] labels).getLast hne ≠ '.' := by
  obtain ⟨label, hlabel, hmem⟩ := getLast_join hne fun label hl => (hvalid label hl).1
  exact isLdh_ne ((hvalid label hlabel).2.2 _ hmem) (by decide)

theorem trim_text {dots : Str} (hdots : dots = [] ∨ dots = ['.']) :
    trim (h.text ++ dots) = h.text ++ dots := by
  refine trim_of_visible fun c hc => ?_
  have hdot : isWhiteSpace '.' = false := by decide
  rcases List.mem_append.mp hc with hc | hc
  · rcases h.mem_text hc with hldh | rfl
    · exact isLdh_visible hldh
    · exact hdot
  · rcases hdots with rfl | rfl
    · cases hc
    · rw [List.mem_singleton.mp hc]
      exact hdot

/-- The normal form of a name, with or without a dot behind it. -/
theorem domainToAscii_text (idna : String → Option String) {dots : Str}
    (hdots : dots = [] ∨ dots = ['.']) :
    domainToAscii idna (String.ofList (h.text ++ dots)) = String.ofList (toLower h.text) := by
  have hself : h.text.rdropWhile (· = '.') = h.text :=
    List.rdropWhile_eq_self_iff.mpr fun hne hdot => getLast_text hne h.valid (of_decide_eq_true hdot)
  have hdrop : (h.text ++ dots).rdropWhile (· = '.') = h.text := by
    rcases hdots with rfl | rfl
    · rw [List.append_nil, hself]
    · rw [List.rdropWhile_concat_pos _ _ _ (by decide), hself]
  have hascii : ((toLower h.text).all fun c => c.toNat < 128) = true := by
    refine List.all_eq_true.mpr fun c hc => decide_eq_true ?_
    rw [← text_lower] at hc
    rcases h.lower.mem_text hc with hldh | rfl
    · exact isLdh_ascii hldh
    · decide
  rw [domainToAscii, String.toList_ofList, h.trim_text hdots, hdrop]
  show (if ((String.ofList (toLower h.text)).isEmpty ||
    (String.ofList (toLower h.text)).toList.all fun c => c.toNat < 128) = true then _ else _) = _
  rw [String.toList_ofList, hascii, Bool.or_true, if_pos rfl]
  rfl

theorem labelsOf_text : Dns.labelsOf h.text = h.labels := by
  rw [Dns.labelsOf, text, split_join h.nonempty fun label hlabel hdot =>
    isLdh_ne ((h.valid label hlabel).2.2 _ hdot) (by decide) rfl]
  refine List.filter_eq_self.mpr fun label hlabel => ?_
  simpa using (h.valid label hlabel).1

end HostName

/-! ## Names in messages -/

namespace Dns

open Checked

theorem length_bytes_label {label : Str} (h : IsLabel label) :
    (bytes label).length = label.length := by
  have hascii : ∀ {s : Str}, (∀ c ∈ s, isLdh c) → byteLen s = s.length := by
    intro s
    induction s with
    | nil => exact fun _ => rfl
    | cons c cs ih =>
        intro hs
        obtain ⟨hc, hcs⟩ := List.forall_mem_cons.mp hs
        have hone : c.utf8Size = 1 := by
          rw [← String.length_utf8EncodeChar, utf8EncodeChar_ascii (isLdh_ascii hc)]
          rfl
        rw [byteLen, ih hcs, hone, List.length_cons, Nat.add_comm]
  rw [length_bytes, hascii h.2.2]

/-- An encoded name is a name of one step for each label and one for the root. -/
theorem nameAt_encode {msg rest : Bytes} : ∀ {labels : List Str} {off : Nat},
    (∀ label ∈ labels, IsLabel label) →
    labels.flatMap encodeLabel ++ 0 :: rest <+: msg.drop off →
    NameAt msg off (labels.length + 1) (labels.map bytes) (off + ((labels.flatMap encodeLabel).length + 1))
  | [], off, _, hbytes => .root (read_cons hbytes).1
  | label :: labels, off, hvalid, hbytes => by
      obtain ⟨hlabel, hlabels⟩ := List.forall_mem_cons.mp hvalid
      rw [List.flatMap_cons, List.append_assoc] at hbytes
      have htail := prefix_drop hbytes
      have hhead : UInt8.ofNat (bytes label).length :: bytes label <+: msg.drop off :=
        (List.prefix_append _ _).trans hbytes
      have hlen : (encodeLabel label).length = 1 + (bytes label).length := Nat.add_comm _ _
      rw [hlen, ← Nat.add_assoc] at htail
      have hrest := nameAt_encode hlabels htail
      have hpos : 0 < (bytes label).length := by
        rw [length_bytes_label hlabel]
        exact List.length_pos_iff.mpr hlabel.1
      have hlt : (bytes label).length < 64 := by
        rw [length_bytes_label hlabel]
        exact Nat.lt_succ_of_le hlabel.2.1
      have hend : off + (((label :: labels).flatMap encodeLabel).length + 1) =
          off + 1 + (bytes label).length + ((labels.flatMap encodeLabel).length + 1) := by
        rw [List.flatMap_cons, List.length_append, hlen]
        omega
      rw [hend]
      exact .label hpos hlt hhead hrest

/-- The name as it stands in a message. -/
def wireName (h : HostName) : Bytes := h.labels.flatMap encodeLabel ++ [0]

variable (idna : String → Option String) (h : HostName)

theorem encodeDnsName_text : encodeDnsName idna h.text = wireName h.lower := by
  have hnormal := h.domainToAscii_text idna (.inl rfl)
  rw [List.append_nil] at hnormal
  rw [encodeDnsName, hnormal, String.toList_ofList, ← h.text_lower, h.lower.labelsOf_text, wireName]

/-- The question of a message is read behind its header, and the name gives back the text,
unless it has more than 63 labels. -/
theorem readDnsName_question {msg rest : Bytes} (hbytes : wireName h ++ rest <+: msg.drop 12) :
    NameAt msg 12 (h.labels.length + 1) (h.labels.map bytes) (12 + (wireName h).length) ∧
    join ['.'] ((h.labels.map bytes).map fromUtf8Lossy) = h.text := by
  rw [wireName] at hbytes ⊢
  rw [List.append_assoc, List.singleton_append] at hbytes
  have hname := nameAt_encode h.valid hbytes
  refine ⟨?_, ?_⟩
  · rw [List.length_append]
    exact hname
  · rw [List.map_map, HostName.text]
    refine congrArg _ ((List.map_congr_left fun label _ => ?_).trans (List.map_id _))
    exact fromUtf8Lossy_bytes label

/-- A query whose first question asks for the address of a name, its letters in any case. -/
def Asks (id : UInt16) (h : HostName) (msg : Bytes) : Prop :=
  ∃ (flags count : UInt16) (others rest : Bytes), flags &&& 0x8000 = 0 ∧ 1 ≤ count ∧
    others.length = 6 ∧ msg = toBe16 id.toNat ++ (toBe16 flags.toNat ++ (toBe16 count.toNat ++
      (others ++ (wireName h ++ (toBe16 (1 : UInt16).toNat ++ (toBe16 (1 : UInt16).toNat ++ rest))))))

theorem asks_buildDnsQuery (id : UInt16) : Asks id h.lower (buildDnsQuery idna id h.text) :=
  ⟨0x0100, 1, List.replicate 6 0, [], rfl, by decide, rfl, by
    rw [buildDnsQuery, encodeDnsName_text]
    simp⟩

/-- What a query for a name is read as. -/
theorem parseDnsQuery_asks {id : UInt16} {msg : Bytes} (hasks : Asks id h msg) :
    parseDnsQuery msg = .ok (if h.labels.length ≤ 63 then some (id, h.text, 1) else none) := by
  obtain ⟨flags, count, others, rest, hflag, hcount, hothers, hmsg⟩ := hasks
  have hid := prefix_of_eq hmsg
  have hflags := prefix_drop hid
  have hqd := prefix_drop hflags
  have hname := prefix_drop (prefix_drop hqd)
  have hqtype := prefix_drop hname
  have hqclass := prefix_drop hqtype
  simp only [length_toBe16, hothers, Nat.zero_add, Nat.reduceAdd] at hflags hqd hname
  simp only [length_toBe16, hothers, Nat.zero_add, Nat.reduceAdd] at hqtype hqclass
  obtain ⟨hat, htext⟩ := readDnsName_question h hname
  have hlen : msg.length = 12 + (wireName h).length + 4 + rest.length := by
    rw [hmsg]
    simp only [List.length_append, length_toBe16, hothers]
    omega
  rw [parseDnsQuery, if_neg (by omega), be16_of_isPrefix hid]
  show (be16 msg 2 >>= _) = _
  rw [be16_of_isPrefix hflags]
  show (if flags &&& 0x8000 ≠ 0 then _ else _) = _
  rw [if_neg (by simpa using hflag), be16_of_isPrefix hqd]
  show (if count < 1 then _ else _) = _
  rw [if_neg (UInt16.not_lt.mpr hcount), readDnsName_nameAt hat]
  by_cases hle : h.labels.length ≤ 63
  · rw [if_pos (by omega), if_pos hle]
    have hroom : ¬ (msg.length < 12 + (wireName h).length + 4 ∨ h.text.isEmpty) := by
      rintro (hlt | hempty)
      · omega
      · exact h.text_ne_nil (by simpa using hempty)
    rw [htext]
    show (if _ then _ else _) = _
    rw [if_neg hroom, be16_of_isPrefix hqtype]
    show (be16 msg _ >>= _) = _
    rw [be16_of_isPrefix hqclass]
    rfl
  · rw [if_neg (by omega), if_neg hle]
    rfl

/-- A name is the same size in lower case. -/
theorem length_labels_lower : h.lower.labels.length = h.labels.length := List.length_map _

theorem parseDnsQuery_buildDnsQuery (id : UInt16) :
    parseDnsQuery (buildDnsQuery idna id h.text) = .ok (if h.labels.length ≤ 63 then
      some (id, toLower h.text, 1) else none) := by
  rw [parseDnsQuery_asks h.lower (asks_buildDnsQuery idna h id), length_labels_lower, h.text_lower]

/-- What a response for a name is read as: its pointer is one step more. -/
theorem parseAAnswers_buildNamedAResponse (id : UInt16) (ip : Ipv4Addr) :
    parseAAnswers (buildNamedAResponse idna id h.text ip) = .ok (if h.labels.length ≤ 62 then
      some [.v4 ip] else none) := by
  have hmsg : buildNamedAResponse idna id h.text ip = toBe16 id.toNat ++
      (toBe16 (0x8580 : UInt16).toNat ++ (toBe16 (1 : UInt16).toNat ++ (toBe16 (1 : UInt16).toNat ++
        (List.replicate 4 0 ++ (encodeDnsName idna h.text ++ ([0, 1, 0, 1] ++ ([0xC0, 12] ++
          (Answer.bytes ⟨1, 1, 300, ip.octets, Nat.le_of_ble_eq_true rfl⟩ ++ [])))))))) := by
    simp [buildNamedAResponse, Answer.bytes, toBe16, Ipv4Addr.octets]
  generalize buildNamedAResponse idna id h.text ip = msg at hmsg
  have hid := prefix_of_eq hmsg
  have hflags := prefix_drop hid
  have hqd := prefix_drop hflags
  have han := prefix_drop hqd
  have hname := prefix_drop (prefix_drop han)
  have hpointer := prefix_drop (prefix_drop hname)
  have hrecord := prefix_drop hpointer
  simp only [length_toBe16, Nat.zero_add, Nat.reduceAdd] at hflags hqd han
  simp only [length_toBe16, List.length_replicate, Nat.zero_add, Nat.reduceAdd] at hname hpointer
  rw [encodeDnsName_text] at hname
  obtain ⟨hat, -⟩ := readDnsName_question h.lower hname
  rw [← encodeDnsName_text idna h, length_labels_lower] at hat
  have hlen : 12 + (encodeDnsName idna h.text).length + 20 = msg.length := by
    rw [hmsg]
    simp only [List.length_append, length_toBe16, List.length_replicate, List.length_nil,
      length_answer, List.length_cons, Ipv4Addr.octets]
    omega
  rw [parseAAnswers, if_neg (by omega), be16_of_isPrefix hflags]
  show (be16 msg 4 >>= _) = _
  rw [be16_of_isPrefix hqd]
  show (be16 msg 6 >>= _) = _
  rw [be16_of_isPrefix han]
  show (skipQuestions msg 1 12 >>= _) = _
  by_cases hle : h.labels.length ≤ 63
  · rw [skipQuestions_at (.cons hat (by omega) (by omega) .nil)]
    show readAnswers msg 1 _ [] = _
    have hat' : NameAt msg (12 + (encodeDnsName idna h.text).length + 4) (h.labels.length + 2) _ _ :=
      .pointer (read_cons hpointer).1 rfl (read_cons (prefix_drop (a := [_]) hpointer)).1 hat
    by_cases hle' : h.labels.length ≤ 62
    · rw [readAnswers_cons hat' (by omega) ((List.prefix_append _ _).trans hrecord), if_pos hle']
      rfl
    · rw [readAnswers, readDnsName_nameAt hat', if_neg (by omega), if_neg hle']
      rfl
  · rw [skipQuestions, readDnsName_nameAt hat, if_neg (by omega), if_neg (by omega)]
    rfl

/-- A query and a response come back exactly for the names of at most 62 labels. -/
theorem names_read_iff (id : UInt16) (ip : Ipv4Addr) :
    (parseDnsQuery (buildDnsQuery idna id h.text) = .ok (some (id, toLower h.text, 1)) ∧
      parseAAnswers (buildNamedAResponse idna id h.text ip) = .ok (some [.v4 ip])) ↔
    h.labels.length ≤ 62 := by
  rw [parseDnsQuery_buildDnsQuery, parseAAnswers_buildNamedAResponse]
  constructor
  · rintro ⟨-, hresponse⟩
    by_contra hgt
    rw [if_neg hgt] at hresponse
    cases hresponse
  · intro hle
    rw [if_pos (by omega), if_pos hle]
    exact ⟨rfl, rfl⟩

/-- A name of 63 labels of one letter. -/
def deepName : HostName where
  labels := List.replicate 63 ['a']
  nonempty := by decide
  valid := by
    intro label hlabel
    rw [List.eq_of_mem_replicate hlabel]
    decide

/-- It takes half of the 255 bytes that a name may have, and no response for it is read. -/
theorem not_names_read : ¬ ∀ (idna : String → Option String) (h : HostName), h.wireLength ≤ 255 →
    ∀ (id : UInt16) (ip : Ipv4Addr),
      parseDnsQuery (buildDnsQuery idna id h.text) = .ok (some (id, toLower h.text, 1)) ∧
      parseAAnswers (buildNamedAResponse idna id h.text ip) = .ok (some [.v4 ip]) := by
  intro hall
  obtain ⟨-, hresponse⟩ := hall some deepName (by decide) 1 ⟨1, 2, 3, 4⟩
  rw [parseAAnswers_buildNamedAResponse, if_neg (by decide)] at hresponse
  cases hresponse

end Dns

end RustClash
