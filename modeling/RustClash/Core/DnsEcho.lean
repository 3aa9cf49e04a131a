import Mathlib.Algebra.Group.Action.Defs
import Mathlib.Algebra.Order.BigOperators.Group.List
import Mathlib.Algebra.Order.Ring.Nat
import RustClash.Core.DnsNames

/-!
# The question of an answer

An answer repeats the name that was asked for.  A name of letters, digits, hyphens and
underscores comes back in lower case.  Any other name comes back within the bounds of a
datagram: a name that was read has at most 63 labels of at most 191 bytes each, and
`Compact` bounds what IDNA makes of it.
-/

namespace RustClash

open Str

/-! ## The length of a text -/

theorem byteLen_sublist {s t : Str} (h : s.Sublist t) : byteLen s ≤ byteLen t := by
  induction h with
  | slnil => exact Nat.le_refl _
  | cons c _ ih => exact Nat.le_trans ih (Nat.le_add_left _ _)
  | cons_cons c _ ih => exact Nat.add_le_add_left ih _

theorem byteLen_join (d : Char) (hd : d.utf8Size = 1) : ∀ ss : List Str,
    byteLen (join [d] ss) ≤ (ss.map fun s => byteLen s + 1).sum
  | [] => Nat.le_refl _
  | [s] => by
      show byteLen s ≤ byteLen s + 1 + 0
      omega
  | s :: s' :: ss => by
      have ih := byteLen_join d hd (s' :: ss)
      show byteLen (s ++ [d] ++ join [d] (s' :: ss)) ≤ byteLen s + 1 + _
      rw [byteLen_append, byteLen_append, byteLen, hd, byteLen]
      exact Nat.add_le_add_left ih _

theorem sum_split (p : Char → Bool) : ∀ s : Str,
    ((split p s).map fun part => byteLen part + 1).sum ≤ byteLen s + 1
  | [] => Nat.le_refl _
  | c :: cs => by
      have ih := sum_split p cs
      have hpos := Char.utf8Size_pos c
      rw [split]
      split
      · rw [List.map_cons, List.sum_cons, byteLen, byteLen]
        omega
      · split
        · simp only [List.map_cons, List.sum_cons, List.map_nil, List.sum_nil, byteLen]
          omega
        · next part parts heq =>
            rw [heq] at ih
            simp only [List.map_cons, List.sum_cons, byteLen] at ih ⊢
            omega

theorem utf8Size_toAsciiLowercase (c : Char) : (toAsciiLowercase c).utf8Size = c.utf8Size := by
  rcases toNat_lower c with ⟨hupper, hlow⟩ | ⟨-, hsame⟩
  · have hone : ∀ d : Char, d.toNat < 128 → d.utf8Size = 1 := fun d hd =>
      Char.utf8Size_eq_one_iff.mpr (UInt32.le_iff_toNat_le.mpr (Nat.le_of_lt_succ hd))
    rw [hone c (by omega), hone _ (by omega)]
  · rw [hsame]

theorem byteLen_toLower (s : Str) : byteLen (toLower s) = byteLen s := by
  induction s with
  | nil => rfl
  | cons c cs ih =>
      show (toAsciiLowercase c).utf8Size + byteLen (toLower cs) = c.utf8Size + byteLen cs
      rw [utf8Size_toAsciiLowercase, ih]

/-! ## Decoded bytes -/

theorem utf8Size_ofNat (n : Nat) : (n < 0x80 → (Char.ofNat n).utf8Size ≤ 1) ∧
    (n < 0x800 → (Char.ofNat n).utf8Size ≤ 2) ∧ (n < 0x10000 → (Char.ofNat n).utf8Size ≤ 3) := by
  have hle : (Char.ofNat n).toNat ≤ n := by
    by_cases hv : n.isValidChar
    · exact Nat.le_of_eq (toNat_ofNat hv)
    · rw [Char.ofNat, dif_neg hv]
      exact Nat.zero_le n
  have hone := Char.utf8Size_eq_one_iff (c := Char.ofNat n)
  have htwo := Char.utf8Size_eq_two_iff (c := Char.ofNat n)
  have hthree := Char.utf8Size_eq_three_iff (c := Char.ofNat n)
  have hfour := Char.utf8Size_eq_four_iff (c := Char.ofNat n)
  simp only [UInt32.le_iff_toNat_le, UInt32.lt_iff_toNat_lt, UInt32.reduceToNat]
    at hone htwo hthree hfour
  have hval : (Char.ofNat n).val.toNat ≤ n := hle
  rcases Char.utf8Size_eq (Char.ofNat n) with h | h | h | h
  · omega
  · have := htwo.mp h
    omega
  · have := hthree.mp h
    omega
  · have := hfour.mp h
    omega

/-- A character takes the bytes that it has. -/
theorem decodeHead_size (b : UInt8) (rest : Bytes) : 1 ≤ (decodeHead b rest).2 ∧
    ∀ c, (decodeHead b rest).1 = some c → c.utf8Size ≤ (decodeHead b rest).2 := by
  have h5 : (b &&& 0x1F).toNat = b.toNat % 32 := toNat_and_mask (n := 5) rfl
  have h4 : (b &&& 0x0F).toNat = b.toNat % 16 := toNat_and_mask (n := 4) rfl
  have h6 (c : UInt8) : (c &&& 0x3F).toNat = c.toNat % 64 := toNat_and_mask (n := 6) rfl
  rw [decodeHead]
  simp only [h4, h5, h6]
  split
  · next hb =>
    refine ⟨Nat.le_refl _, fun c hc => ?_⟩
    cases hc
    exact (utf8Size_ofNat _).1 (UInt8.lt_iff_toNat_lt.mp hb)
  · split
    · split
      · refine ⟨Nat.le_add_left 1 1, fun c hc => ?_⟩
        cases hc
        exact (utf8Size_ofNat _).2.1 (by omega)
      · exact ⟨Nat.le_refl _, fun c hc => by cases hc⟩
    · split
      · split
        · exact ⟨Nat.le_refl _, fun c hc => by cases hc⟩
        · split
          · exact ⟨by decide, fun c hc => by cases hc⟩
          · refine ⟨Nat.le_add_left 1 2, fun c hc => ?_⟩
            cases hc
            exact (utf8Size_ofNat _).2.2 (by omega)
      · split
        · split
          · exact ⟨Nat.le_refl _, fun c hc => by cases hc⟩
          · split
            · exact ⟨by decide, fun c hc => by cases hc⟩
            · split
              · exact ⟨by decide, fun c hc => by cases hc⟩
              · refine ⟨Nat.le_add_left 1 3, fun c hc => ?_⟩
                cases hc
                exact Char.utf8Size_le_four _
        · exact ⟨Nat.le_refl _, fun c hc => by cases hc⟩

/-- Where nothing is replaced a text has no more bytes than it was decoded from, and otherwise
no more than three for each. -/
theorem byteLen_fromUtf8Lossy {k : Nat} : ∀ {bs : Bytes},
    k = 3 ∨ k = 1 ∧ '\uFFFD' ∉ fromUtf8Lossy bs → byteLen (fromUtf8Lossy bs) ≤ k * bs.length
  | [], _ => Nat.zero_le _
  | b :: bs, h => by
      obtain ⟨hpos, hsize⟩ := decodeHead_size b bs
      have htake := Nat.le_trans (decodeHead_length b bs) (List.takeWhile_prefix isCont).length_le
      rw [fromUtf8Lossy_cons] at h ⊢
      have hhead : ((decodeHead b bs).1.getD '\uFFFD').utf8Size ≤ k * (decodeHead b bs).2 := by
        cases hc : (decodeHead b bs).1 with
        | some c =>
            have := hsize c hc
            rcases h with rfl | ⟨rfl, -⟩
            · rw [Option.getD_some]
              omega
            · rwa [Option.getD_some, Nat.one_mul]
        | none =>
            rcases h with rfl | ⟨-, hno⟩
            · exact Nat.mul_le_mul_left 3 hpos
            · rw [hc] at hno
              exact absurd List.mem_cons_self hno
      have ih := @byteLen_fromUtf8Lossy k (bs.drop ((decodeHead b bs).2 - 1))
        (h.imp_right fun h => ⟨h.1, fun hm => h.2 (List.mem_cons_of_mem _ hm)⟩)
      calc _ ≤ k * (decodeHead b bs).2 + k * (bs.drop ((decodeHead b bs).2 - 1)).length :=
            Nat.add_le_add hhead ih
        _ = k * (b :: bs).length := by
            rw [← Nat.mul_add, List.length_drop, List.length_cons]
            congr 1
            omega
termination_by bs => bs.length
decreasing_by simp only [List.length_drop, List.length_cons]; omega

namespace Dns

open Checked

/-! ## The length of a name -/

/-- `domain_to_ascii` of the IDNA library refuses the replacement character, which it disallows,
and makes less than five bytes of each byte of a name and of its end: the longest that becomes
of a character is U+337F, three bytes that become seventeen. -/
structure Compact (idna : String → Option String) : Prop where
  refuses : ∀ s : String, '\uFFFD' ∈ s.toList → idna s = none
  short : ∀ s t : String, idna s = some t → byteLen t.toList < 5 * (byteLen s.toList + 1)

theorem lt_of_not_pointer {len : UInt8} (h : len &&& 0xC0 ≠ 0xC0) : len.toNat < 192 := by
  have hall : ∀ n < 256, UInt8.ofNat n &&& 0xC0 ≠ 0xC0 → n < 192 := by decide +kernel
  have := hall len.toNat len.toNat_lt
  rw [UInt8.ofNat_toNat] at this
  exact this h

/-- The labels that are read in `n` rounds. -/
theorem readLabels_labels {msg : Bytes} : ∀ {n : Nat} {r : NameReader} {name : Str} {next : Nat},
    readLabels msg n r = .ok (some (name, next)) → ∃ labels : List Bytes, labels.length < n ∧
      (∀ label ∈ labels, label.length < 192) ∧
      name = join ['.'] (r.labels ++ labels.map fromUtf8Lossy)
  | 0, _, _, _, h => by cases h
  | n + 1, r, name, next, h => by
      rcases readLabels_cases msg n r with hnone | h0 | ⟨high, low, hhigh, hp, hlow⟩ |
        ⟨len, label, hlen, h0, hp, hbytes⟩
      · rw [hnone] at h
        cases h
      · rw [readLabels_root h0] at h
        cases h
        refine ⟨[], Nat.succ_pos n, fun _ hl => (by cases hl), ?_⟩
        rw [List.map_nil, List.append_nil]
      · rw [readLabels_pointer hhigh hp hlow] at h
        obtain ⟨labels, hcount, hshort, hname⟩ := readLabels_labels h
        exact ⟨labels, Nat.lt_succ_of_lt hcount, hshort, hname⟩
      · rw [readLabels_label hlen h0 hp hbytes] at h
        obtain ⟨labels, hcount, hshort, hname⟩ := readLabels_labels h
        refine ⟨label :: labels, Nat.succ_lt_succ hcount, ?_, ?_⟩
        · exact List.forall_mem_cons.mpr ⟨hlen ▸ lt_of_not_pointer hp, hshort⟩
        · rw [hname, List.append_assoc]
          rfl

/-- A name that was read has less than 192 bytes for each of 63 labels, or three times as many
where bytes of it were replaced. -/
theorem byteLen_name {msg : Bytes} {off next : Nat} {name : Str} {k : Nat}
    (h : readDnsName msg off = .ok (some (name, next))) (hk : k = 3 ∨ k = 1 ∧ '\uFFFD' ∉ name) :
    byteLen name ≤ 63 * (k * 191 + 1) := by
  obtain ⟨labels, hcount, hshort, hname⟩ := readLabels_labels h
  rw [List.nil_append] at hname
  have hlabel : ∀ part ∈ labels.map fromUtf8Lossy, byteLen part + 1 ≤ k * 191 + 1 := by
    intro part hpart
    obtain ⟨label, hl, rfl⟩ := List.mem_map.mp hpart
    refine Nat.succ_le_succ (Nat.le_trans (byteLen_fromUtf8Lossy (k := k) ?_)
      (Nat.mul_le_mul_left k (Nat.le_of_lt_succ (hshort label hl))))
    refine hk.imp_right fun hk => ⟨hk.1, fun hm => hk.2 ?_⟩
    rw [hname]
    exact mem_join_of_mem hpart hm
  have hsum := List.sum_le_card_nsmul ((labels.map fromUtf8Lossy).map fun s => byteLen s + 1) _
    (List.forall_mem_map.mpr hlabel)
  rw [List.length_map, List.length_map, smul_eq_mul] at hsum
  calc byteLen name ≤ _ := hname ▸ byteLen_join '.' (by decide) _
    _ ≤ labels.length * (k * 191 + 1) := hsum
    _ ≤ 63 * (k * 191 + 1) := Nat.mul_le_mul_right _ (Nat.le_of_lt_succ hcount)

theorem mem_dropWhile_of_not {c : Char} {p : Char → Bool} (hc : p c = false) : ∀ {s : Str}, c ∈ s →
    c ∈ s.dropWhile p
  | d :: ds, h => by
      rw [List.dropWhile_cons]
      split
      · next hd =>
          rcases List.mem_cons.mp h with rfl | h
          · rw [hc] at hd
            cases hd
          · exact mem_dropWhile_of_not hc h
      · exact h

theorem mem_rdropWhile_of_not {c : Char} {p : Char → Bool} (hc : p c = false) {s : Str}
    (h : c ∈ s) : c ∈ s.rdropWhile p :=
  List.mem_reverse.mpr (mem_dropWhile_of_not hc (List.mem_reverse.mpr h))

/-- What is left of a name before IDNA. -/
def lowered (name : Str) : Str := ((trim name).rdropWhile (· = '.')).map toAsciiLowercase

theorem domainToAscii_cases (idna : String → Option String) (name : Str) :
    (domainToAscii idna (String.ofList name)).toList = lowered name ∨
    ∃ t, idna (String.ofList (lowered name)) = some t ∧
      (domainToAscii idna (String.ofList name)).toList = t.toList := by
  rw [domainToAscii, String.toList_ofList]
  have hlowered : ((trim name).rdropWhile (· = '.')).map toAsciiLowercase = lowered name := rfl
  rw [hlowered]
  split
  · exact .inl String.toList_ofList
  · cases idna (String.ofList (lowered name)) with
    | none => exact .inl String.toList_ofList
    | some t => exact .inr ⟨t, rfl, rfl⟩

theorem byteLen_lowered (name : Str) : byteLen (lowered name) ≤ byteLen name := by
  have hsub : ((trim name).rdropWhile (· = '.')).Sublist name :=
    (List.rdropWhile_prefix _ _).sublist.trans
      ((List.rdropWhile_prefix _ _).sublist.trans (List.dropWhile_sublist _))
  exact Nat.le_trans (Nat.le_of_eq (byteLen_toLower _)) (byteLen_sublist hsub)

theorem replacement_mem_lowered {name : Str} (h : '\uFFFD' ∈ name) : '\uFFFD' ∈ lowered name := by
  have hblank : isWhiteSpace '\uFFFD' = false := by decide
  have hdot : decide ('\uFFFD' = '.') = false := by decide
  have hmem : '\uFFFD' ∈ (trim name).rdropWhile (· = '.') :=
    mem_rdropWhile_of_not hdot (mem_rdropWhile_of_not hblank (mem_dropWhile_of_not hblank h))
  exact List.mem_map.mpr ⟨_, hmem, by decide⟩

section Encoding

variable {idna : String → Option String} (hidna : Compact idna)

include hidna

/-- The normal form of a name that was read. -/
theorem byteLen_domainToAscii {msg : Bytes} {off next : Nat} {name : Str}
    (h : readDnsName msg off = .ok (some (name, next))) :
    byteLen (domainToAscii idna (String.ofList name)).toList ≤ 60484 := by
  have hlower := byteLen_lowered name
  rcases domainToAscii_cases idna name with heq | ⟨t, hascii, heq⟩
  · have hthree := byteLen_name h (.inl rfl)
    rw [heq]
    omega
  · have hone : byteLen name ≤ 63 * (1 * 191 + 1) := by
      refine byteLen_name h (.inr ⟨rfl, fun hm => ?_⟩)
      have hmem := replacement_mem_lowered hm
      rw [hidna.refuses _ (by rwa [String.toList_ofList])] at hascii
      cases hascii
    have hshort := hidna.short _ _ hascii
    rw [String.toList_ofList] at hshort
    rw [heq]
    omega

omit hidna in
theorem length_encodeDnsName (name : Str) : (encodeDnsName idna name).length ≤
    byteLen (domainToAscii idna (String.ofList name)).toList + 2 := by
  have hfilter : ∀ ss : List Str, ((ss.filter (!·.isEmpty)).map fun s => byteLen s + 1).sum ≤
      (ss.map fun s => byteLen s + 1).sum := by
    intro ss
    induction ss with
    | nil => exact Nat.le_refl _
    | cons s ss ih =>
        rw [List.filter_cons]
        split
        · exact Nat.add_le_add_left ih _
        · exact Nat.le_trans ih (Nat.le_add_left _ _)
  have hlen : ∀ ss : List Str, (ss.flatMap encodeLabel).length =
      (ss.map fun s => byteLen s + 1).sum := by
    intro ss
    induction ss with
    | nil => rfl
    | cons s ss ih =>
        rw [List.flatMap_cons, List.length_append, ih, encodeLabel, List.length_cons, length_bytes]
        rfl
  rw [encodeDnsName, List.length_append, hlen, labelsOf]
  have hsum := sum_split (· = '.') (domainToAscii idna (String.ofList name)).toList
  exact Nat.succ_le_succ (Nat.le_trans (hfilter _) hsum)

/-- The name of an answer, to a name that was read. -/
theorem length_encodeDnsName_read {msg : Bytes} {off next : Nat} {name : Str}
    (h : readDnsName msg off = .ok (some (name, next))) :
    (encodeDnsName idna name).length ≤ 60486 :=
  Nat.le_trans (length_encodeDnsName name) (Nat.add_le_add_right (byteLen_domainToAscii hidna h) 2)

end Encoding

/-! ## Names that come back -/

/-- One to 63 letters, digits, hyphens and underscores. -/
def IsNameLabel (label : Str) : Prop :=
  label ≠ [] ∧ label.length ≤ 63 ∧ ∀ c ∈ label, isLdh c ∨ c = '_'

theorem nameChar_plain {c : Char} (h : isLdh c ∨ c = '_') :
    c.toNat < 128 ∧ isWhiteSpace c = false ∧ c ≠ '.' := by
  rcases h with h | rfl
  · exact ⟨isLdh_ascii h, isLdh_visible h, isLdh_ne h (by decide)⟩
  · decide

theorem nameChar_lower {c : Char} (h : isLdh c ∨ c = '_') :
    isLdh (toAsciiLowercase c) ∨ toAsciiLowercase c = '_' := by
  rcases h with h | rfl
  · exact .inl (isLdh_lower h)
  · exact .inr (by decide)

theorem IsNameLabel.lower {label : Str} (h : IsNameLabel label) : IsNameLabel (toLower label) := by
  refine ⟨by simpa [toLower] using h.1, by simpa [toLower] using h.2.1, fun c hc => ?_⟩
  obtain ⟨d, hd, rfl⟩ := List.mem_map.mp hc
  exact nameChar_lower (h.2.2 d hd)

/-- The characters of a name of labels are those of the labels, and dots. -/
theorem mem_joined {c : Char} {labels : List Str} (hvalid : ∀ label ∈ labels, IsNameLabel label)
    (hc : c ∈ join ['.'] labels) : (isLdh c ∨ c = '_') ∨ c = '.' := by
  by_contra hn
  rw [not_or] at hn
  exact notMem_join hn.2 (fun label hlabel hmem => hn.1 ((hvalid label hlabel).2.2 c hmem)) hc

theorem lowered_joined {labels : List Str} (hvalid : ∀ label ∈ labels, IsNameLabel label) :
    lowered (join ['.'] labels) = join ['.'] (labels.map toLower) := by
  have hvisible : ∀ c ∈ join ['.'] labels, isWhiteSpace c = false := by
    intro c hc
    rcases mem_joined hvalid hc with hc | rfl
    · exact (nameChar_plain hc).2.1
    · decide
  have hdots : (join ['.'] labels).rdropWhile (· = '.') = join ['.'] labels := by
    refine List.rdropWhile_eq_self_iff.mpr fun hne hdot => ?_
    obtain ⟨label, hlabel, hmem⟩ := getLast_join hne fun label hl => (hvalid label hl).1
    exact (nameChar_plain ((hvalid label hlabel).2.2 _ hmem)).2.2 (of_decide_eq_true hdot)
  rw [lowered, trim_of_visible hvisible, hdots]
  exact toLower_join labels

/-- Such a name is written as its labels in lower case, whatever IDNA does. -/
theorem encodeDnsName_joined (idna : String → Option String) {labels : List Str} (hne : labels ≠ [])
    (hvalid : ∀ label ∈ labels, IsNameLabel label) : encodeDnsName idna (join ['.'] labels) =
      (labels.map toLower).flatMap encodeLabel ++ [0] := by
  have hlower : ∀ label ∈ labels.map toLower, IsNameLabel label := by
    intro label hlabel
    obtain ⟨l, hl, rfl⟩ := List.mem_map.mp hlabel
    exact (hvalid l hl).lower
  have hascii : ((join ['.'] (labels.map toLower)).all fun c => c.toNat < 128) = true := by
    refine List.all_eq_true.mpr fun c hc => decide_eq_true ?_
    rcases mem_joined hlower hc with hc | rfl
    · exact (nameChar_plain hc).1
    · decide
  have hnormal : (domainToAscii idna (String.ofList (join ['.'] labels))).toList =
      join ['.'] (labels.map toLower) := by
    have hlowered := lowered_joined hvalid
    rw [lowered] at hlowered
    rw [domainToAscii, String.toList_ofList, hlowered, String.toList_ofList, hascii, Bool.or_true,
      if_pos rfl, String.toList_ofList]
  have hsplit : split (· = '.') (join ['.'] (labels.map toLower)) = labels.map toLower :=
    split_join (List.map_eq_nil_iff.not.mpr hne) fun label hlabel hdot =>
      (nameChar_plain ((hlower label hlabel).2.2 _ hdot)).2.2 rfl
  have hkept : (labels.map toLower).filter (!·.isEmpty) = labels.map toLower := by
    refine List.filter_eq_self.mpr fun label hlabel => ?_
    simpa using (hlower label hlabel).1
  rw [encodeDnsName, hnormal, labelsOf, hsplit, hkept]

/-- An answer carries the id of a query and its question, with the name in lower case. -/
structure Echoes (query : Bytes) (labels : List Str) (next : Nat) (answer : Bytes) : Prop where
  id : answer.take 2 = query.take 2
  count : toBe16 1 <+: answer.drop 4
  question : (labels.map toLower).flatMap encodeLabel ++ 0 :: (query.drop next).take 4 <+:
    answer.drop 12

/-- What is read of a query that is read. -/
theorem parseDnsQuery_some {query : Bytes} {id qtype : UInt16} {qname : Str}
    (h : parseDnsQuery query = .ok (some (id, qname, qtype))) :
    be16 query 0 = .ok id ∧ qname ≠ [] ∧ ∃ next, readDnsName query 12 = .ok (some (qname, next)) ∧
      be16 query next = .ok qtype ∧ be16 query (next + 2) = .ok 1 := by
  rw [parseDnsQuery] at h
  split at h
  · cases h
  obtain ⟨id, hid, h⟩ := bind_eq_ok.mp h
  obtain ⟨flags, -, h⟩ := bind_eq_ok.mp h
  split at h
  · cases h
  obtain ⟨qd, -, h⟩ := bind_eq_ok.mp h
  split at h
  · cases h
  obtain ⟨name, hname, h⟩ := bind_eq_ok.mp h
  cases name with
  | none => cases h
  | some name =>
      obtain ⟨name, next⟩ := name
      change (if _ then _ else _) = _ at h
      split at h
      · cases h
      next hroom =>
      obtain ⟨qtype, hqtype, h⟩ := bind_eq_ok.mp h
      obtain ⟨qclass, hqclass, h⟩ := bind_eq_ok.mp h
      by_cases hc : qclass = 1
      · rw [if_pos hc] at h
        cases h
        refine ⟨hid, fun hnil => hroom (.inr ?_), next, hname, hqtype, hc ▸ hqclass⟩
        rw [hnil]
        rfl
      · rw [if_neg hc] at h
        cases h

/-- A query for a name of labels is read as it, if it is read. -/
theorem parseDnsQuery_labels {query : Bytes} {labels : List Str} {k next : Nat}
    (hname : NameAt query 12 k (labels.map bytes) next) {id : UInt16} {qname : Str} {qtype : UInt16}
    (h : parseDnsQuery query = .ok (some (id, qname, qtype))) :
    qname = join ['.'] labels ∧ labels ≠ [] ∧ query.take 2 = toBe16 id.toNat ∧
      (query.drop next).take 4 = toBe16 qtype.toNat ++ toBe16 1 := by
  obtain ⟨hid, hne, next', hread, hqtype, hqclass⟩ := parseDnsQuery_some h
  have htext : (labels.map bytes).map fromUtf8Lossy = labels := by
    rw [List.map_map]
    exact (List.map_congr_left fun s _ => fromUtf8Lossy_bytes s).trans (List.map_id _)
  have htake {bs : Bytes} {n off : Nat} (hpre : bs <+: query.drop off) (hn : bs.length = n) :
      (query.drop off).take n = bs := hn ▸ (List.prefix_iff_eq_take.mp hpre).symm
  rw [readDnsName_nameAt hname, htext] at hread
  by_cases hk : k ≤ 64
  · rw [if_pos hk] at hread
    cases hread
    refine ⟨rfl, ?_, @htake _ 2 0 (isPrefix_of_be16 hid) rfl, ?_⟩
    · rintro rfl
      exact hne rfl
    · exact htake (prefix_append_drop (isPrefix_of_be16 hqtype) (isPrefix_of_be16 hqclass)) rfl
  · rw [if_neg hk] at hread
    cases hread

section Answers

variable {idna : String → Option String} {query : Bytes} {id qtype : UInt16} {qname : Str}

/-- Both answers carry the question that was read. -/
theorem echoes_answer {labels : List Str} (hvalid : ∀ label ∈ labels, IsNameLabel label)
    {k next : Nat} (hname : NameAt query 12 k (labels.map bytes) next)
    (h : parseDnsQuery query = .ok (some (id, qname, qtype))) :
    (qtype = 1 → ∀ ip, Echoes query labels next (buildNamedAResponse idna id qname ip)) ∧
      Echoes query labels next (buildEmptyDns idna id qname qtype) := by
  obtain ⟨rfl, hne, hid, hquestion⟩ := parseDnsQuery_labels hname h
  have hencode := encodeDnsName_joined idna hne hvalid
  constructor
  · rintro rfl ip
    have hdrop : (buildNamedAResponse idna id (join ['.'] labels) ip).drop 12 =
        ((labels.map toLower).flatMap encodeLabel ++ 0 :: (toBe16 1 ++ toBe16 1)) ++ (toBe16 0xC00C ++
          (toBe16 1 ++ (toBe16 1 ++ (toBe 4 300 ++ (toBe16 4 ++ ip.octets))))) := by
      rw [buildNamedAResponse, hencode]
      simp only [List.append_assoc, List.cons_append, List.nil_append]
      rfl
    refine ⟨hid.symm, ⟨_, rfl⟩, ?_⟩
    rw [hquestion, hdrop]
    exact List.prefix_append _ _
  · have hdrop : (buildEmptyDns idna id (join ['.'] labels) qtype).drop 12 =
        (labels.map toLower).flatMap encodeLabel ++ 0 :: (toBe16 qtype.toNat ++ toBe16 1) := by
      rw [buildEmptyDns, hencode]
      simp only [List.append_assoc, List.cons_append, List.nil_append]
      rfl
    refine ⟨hid.symm, ⟨_, rfl⟩, ?_⟩
    rw [hquestion]
    exact ⟨[], (List.append_nil _).trans hdrop.symm⟩

/-- Both answers carry the id, whatever the name is. -/
theorem id_answer (h : parseDnsQuery query = .ok (some (id, qname, qtype))) :
    (∀ ip, (buildNamedAResponse idna id qname ip).take 2 = query.take 2) ∧
      (buildEmptyDns idna id qname qtype).take 2 = query.take 2 := by
  obtain ⟨hid, -⟩ := parseDnsQuery_some h
  have hquery : toBe16 id.toNat = query.take 2 :=
    List.prefix_iff_eq_take.mp (isPrefix_of_be16 hid)
  exact ⟨fun _ => hquery, hquery⟩

/-- The answers to a query that was read are short. -/
theorem length_answer_le (hidna : Compact idna)
    (h : parseDnsQuery query = .ok (some (id, qname, qtype))) :
    (∀ ip, (buildNamedAResponse idna id qname ip).length ≤ 60518) ∧
      (buildEmptyDns idna id qname qtype).length ≤ 60518 := by
  obtain ⟨-, -, next, hread, -, -⟩ := parseDnsQuery_some h
  have hname := length_encodeDnsName_read hidna hread
  constructor
  · intro ip
    simp only [buildNamedAResponse, List.length_append, length_toBe16, List.length_replicate,
      length_toBe, Ipv4Addr.octets, List.length_cons, List.length_nil]
    omega
  · simp only [buildEmptyDns, List.length_append, length_toBe16, List.length_replicate]
    omega

end Answers

end Dns

end RustClash
