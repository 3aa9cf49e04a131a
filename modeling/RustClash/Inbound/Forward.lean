import RustClash.Core.Utf8
import RustClash.Inbound.Http

/-!
# The body of a forwarded request

The receiver of a forwarded request finds its end by the framing fields that were sent
on.  `Content-Length` is among them, `Transfer-Encoding` never is, and the bytes after
the header are the client's.
-/

namespace RustClash

namespace Inbound

open Str

/-! ## ASCII -/

theorem isWhiteSpace_of_range {c : Char} (h : 32 < c.toNat) (h' : c.toNat < 128) :
    isWhiteSpace c = false := by
  simp only [isWhiteSpace, Bool.or_eq_false_iff, Bool.and_eq_false_imp, decide_eq_true_eq,
    decide_eq_false_iff_not, beq_eq_false_iff_ne, ne_eq]
  omega

/-- What holds of a token character, as numbers. -/
theorem token_range {c : Char} (h : Http.isToken c) :
    32 < c.toNat ∧ c.toNat < 128 ∧ c.toNat ≠ 58 := by
  have hle {d e : Char} (hd : d ≤ e) : d.toNat ≤ e.toNat :=
    UInt32.le_iff_toNat_le.mp (Char.le_def.mp hd)
  have hmarks : ∀ c ∈ "!#$%&'*+-.^_|~\x60".toList, 32 < c.toNat ∧ c.toNat < 128 ∧ c.toNat ≠ 58 := by
    simp
  simp only [Http.isToken, Bool.or_eq_true, Bool.and_eq_true, decide_eq_true_eq,
    List.contains_iff_mem] at h
  rcases h with ((⟨h1, h2⟩ | ⟨h1, h2⟩) | ⟨h1, h2⟩) | h
  · have h1 : 97 ≤ c.toNat := hle h1
    have h2 : c.toNat ≤ 122 := hle h2
    omega
  · have h1 : 65 ≤ c.toNat := hle h1
    have h2 : c.toNat ≤ 90 := hle h2
    omega
  · have h1 : 48 ≤ c.toNat := hle h1
    have h2 : c.toNat ≤ 57 := hle h2
    omega
  · exact hmarks c h

theorem toNat_toChar (b : UInt8) : (Http.toChar b).toNat = b.toNat :=
  toNat_ofNat (.inl (Nat.lt_trans b.toNat_lt (by decide)))

/-- The character of a byte that is a token is ASCII. -/
theorem token_byte {b : UInt8} (h : Http.isToken (Http.toChar b)) :
    b < 128 ∧ b ≠ 13 ∧ b ≠ 32 ∧ b ≠ 58 := by
  obtain ⟨h32, hlt, h58⟩ := token_range h
  rw [toNat_toChar] at hlt h32 h58
  refine ⟨UInt8.lt_iff_toNat_lt.mpr hlt, ?_, ?_, ?_⟩
  all_goals
    rintro rfl
    revert hlt h32 h58
    decide

theorem visible_byte {b : UInt8} (h : Http.isVisible b) :
    b < 128 ∧ b ≠ 13 ∧ b ≠ 32 ∧ Http.isFieldByte b := by
  simp only [Http.isVisible, Bool.and_eq_true, decide_eq_true_eq, UInt8.le_iff_toNat_le] at h
  have h1 : 33 ≤ b.toNat := h.1
  have h2 : b.toNat ≤ 126 := h.2
  have hne {n : UInt8} (hn : n.toNat < 33 ∨ 126 < n.toNat) : b ≠ n := by
    rintro rfl
    omega
  refine ⟨UInt8.lt_iff_toNat_lt.mpr (Nat.lt_of_le_of_lt h2 (by decide)), hne (by decide),
    hne (by decide), ?_⟩
  have h32 : 32 ≤ b := UInt8.le_iff_toNat_le.mpr (Nat.le_of_succ_le h1)
  simp [Http.isFieldByte, h32, hne (n := 127) (by decide)]

/-- A text of ASCII characters and its bytes. -/
theorem bytes_map_toChar : ∀ {bs : Bytes}, (∀ b ∈ bs, b < 128) → bytes (bs.map Http.toChar) = bs
  | [], _ => rfl
  | b :: bs, h => by
      have hb := h b List.mem_cons_self
      rw [List.map_cons, bytes_cons_ascii (by rw [toNat_toChar]; exact UInt8.lt_iff_toNat_lt.mp hb),
        toNat_toChar, UInt8.ofNat_toNat, bytes_map_toChar fun c hc => h c (List.mem_cons_of_mem _ hc)]

theorem map_toChar_bytes : ∀ {s : Str}, (∀ c ∈ s, c.toNat < 128) → (bytes s).map Http.toChar = s
  | [], _ => rfl
  | c :: cs, h => by
      have hc := h c List.mem_cons_self
      rw [bytes_cons_ascii hc, List.map_cons, map_toChar_bytes fun d hd => h d (List.mem_cons_of_mem _ hd)]
      exact congrArg (· :: cs) (charOfByte_ascii hc)

/-! ## Reading -/

theorem findHeaderEnd_eq : ∀ bs : Bytes, findHeaderEnd bs = (Http.splitHead bs).map (·.1.length)
  | [] => rfl
  | b :: bs => by
      rw [findHeaderEnd, Http.splitHead]
      split
      · rfl
      · rw [findHeaderEnd_eq bs, Option.map_map, Option.map_map]
        rfl

/-- The end that was found is that of the header section, whatever follows. -/
theorem splitHead_of_findHeaderEnd (more : Bytes) {bs : Bytes} {idx : Nat}
    (h : findHeaderEnd bs = some idx) :
    Http.splitHead (bs ++ more) = some (bs.take idx, bs.drop (idx + 4) ++ more) := by
  rw [findHeaderEnd_eq] at h
  obtain ⟨⟨head, rest⟩, hs, rfl⟩ := Option.map_eq_some_iff.mp h
  rw [Http.splitHead_append more hs, Http.splitHead_eq_some hs, List.take_left, ← List.drop_drop,
    List.drop_left]
  rfl

/-- The header that is parsed is the header section of all the client sends, and what was read
after it is followed by what is read later. -/
theorem readHttpRequest_ok : ∀ {reads unread : List Bytes} {ms : Bytes} {req : HttpRequest},
    readHttpRequest reads ms = .ok (req, unread) → ∃ header,
      Http.splitHead (ms ++ reads.flatten) = some (header, req.leftover ++ unread.flatten) ∧
      parseHeader header req.leftover = .ok req
  | [], _, _, _, h => by cases h
  | buf :: reads, unread, ms, req, h => by
      rw [readHttpRequest] at h
      split at h
      · cases h
      · cases hidx : findHeaderEnd (ms ++ buf) with
        | some idx =>
            rw [hidx] at h
            replace h : (if 64 * 1024 < idx then Except.error "headers too large"
              else (parseHeader ((ms ++ buf).take idx) ((ms ++ buf).drop (idx + 4))).map (·, reads)) =
              .ok (req, unread) := h
            split at h
            · cases h
            · cases hp : parseHeader ((ms ++ buf).take idx) ((ms ++ buf).drop (idx + 4)) with
              | error e =>
                  rw [hp] at h
                  cases h
              | ok r =>
                  rw [hp] at h
                  cases h
                  have hleft : req.leftover = (ms ++ buf).drop (idx + 4) := by
                    rw [parseHeader] at hp
                    revert hp
                    generalize ((splitn3 _).filter _) = parts
                    match parts with
                    | [] => intro hp; cases hp
                    | [_] => intro hp; cases hp
                    | _ :: _ :: _ => intro hp; cases hp; rfl
                  refine ⟨_, ?_, hleft ▸ hp⟩
                  rw [List.flatten_cons, ← List.append_assoc, hleft]
                  exact splitHead_of_findHeaderEnd _ hidx
        | none =>
            rw [hidx] at h
            replace h : (if 64 * 1024 < (ms ++ buf).length then Except.error "headers too large"
              else readHttpRequest reads (ms ++ buf)) = .ok (req, unread) := h
            split at h
            · cases h
            · have ih := readHttpRequest_ok h
              rwa [List.append_assoc, ← List.flatten_cons] at ih

/-! ## Texts and fields -/

theorem notMem_fromUtf8Lossy {x : UInt8} (hs : x < 128) {bs : Bytes} (h : x ∉ bs) :
    charOfByte x ∉ fromUtf8Lossy bs := by
  intro hm
  have hmem := mem_of_mem_fromUtf8Lossy (by
    rw [toNat_charOfByte_ascii hs]
    exact UInt8.lt_iff_toNat_lt.mp hs) hm
  rw [toNat_charOfByte_ascii hs, UInt8.ofNat_toNat] at hmem
  exact h hmem

/-- A line is cut at the same place before and after it is decoded. -/
theorem splitOnce_fromUtf8Lossy {x : UInt8} (hs : x < 128) {l : Bytes} (h : x ∉ l) (r : Bytes) :
    splitOnce (charOfByte x) (fromUtf8Lossy (l ++ x :: r)) =
      some (fromUtf8Lossy l, fromUtf8Lossy r) := by
  rw [fromUtf8Lossy_append hs]
  exact splitOnce_append _ (notMem_fromUtf8Lossy hs h)

/-- Names and other texts of tokens. -/
theorem fromUtf8Lossy_token {bs : Bytes} (h : (bs.map Http.toChar).all Http.isToken) :
    fromUtf8Lossy bs = bs.map Http.toChar ∧ (∀ b ∈ bs, b < 128 ∧ b ≠ 13 ∧ b ≠ 32 ∧ b ≠ 58) := by
  have hall : ∀ b ∈ bs, b < 128 ∧ b ≠ 13 ∧ b ≠ 32 ∧ b ≠ 58 := fun b hb =>
    token_byte (List.all_eq_true.mp h _ (List.mem_map_of_mem hb))
  exact ⟨fromUtf8Lossy_ascii fun b hb => (hall b hb).1, hall⟩

/-- The text can be the value of a field. -/
def FieldText (s : Str) : Prop := ∀ b ∈ bytes s, Http.isFieldByte b

theorem FieldText.append {s t : Str} (hs : FieldText s) (ht : FieldText t) : FieldText (s ++ t) := by
  intro b hb
  rw [bytes_append] at hb
  exact (List.mem_append.mp hb).elim (hs b) (ht b)

theorem mem_of_mem_trim {c : Char} {s : Str} (h : c ∈ trim s) : c ∈ s :=
  (List.dropWhile_sublist _).subset ((List.rdropWhile_prefix _ _).subset h)

/-- Decoding and trimming bring in no control characters. -/
theorem fieldText_trim {value : Bytes} (h : value.all Http.isFieldByte) :
    FieldText (trim (fromUtf8Lossy value)) := by
  intro b hb
  by_cases hascii : b < 128
  · have hmem := mem_of_mem_fromUtf8Lossy (by
      rw [toNat_charOfByte_ascii hascii]
      exact UInt8.lt_iff_toNat_lt.mp hascii) (mem_of_mem_trim (mem_of_mem_bytes hascii hb))
    rw [toNat_charOfByte_ascii hascii, UInt8.ofNat_toNat] at hmem
    exact List.all_eq_true.mp h b hmem
  · have hge : 128 ≤ b.toNat := Nat.not_lt.mp (UInt8.lt_iff_toNat_lt.not.mp hascii)
    have h32 : 32 ≤ b := UInt8.le_iff_toNat_le.mpr (Nat.le_trans (by decide) hge)
    have h127 : b ≠ 127 := by
      rintro rfl
      exact absurd hge (by decide)
    simp [Http.isFieldByte, h32, h127]

/-- A text between blanks is what trimming leaves. -/
theorem trim_between {w t w' : Str} (hw : ∀ c ∈ w, isWhiteSpace c) (hw' : ∀ c ∈ w', isWhiteSpace c)
    (ht : ∀ c ∈ t, isWhiteSpace c = false) (hne : t ≠ []) : trim (w ++ (t ++ w')) = t := by
  have hfirst : (t ++ w').dropWhile isWhiteSpace = t ++ w' := by
    cases t with
    | nil => exact absurd rfl hne
    | cons c cs =>
        exact List.dropWhile_cons_of_neg (by rw [ht c List.mem_cons_self]; exact Bool.false_ne_true)
  have hlast : t.reverse.dropWhile isWhiteSpace = t.reverse := by
    cases hr : t.reverse with
    | nil => rfl
    | cons c cs =>
        have hc : c ∈ t := List.mem_reverse.mp (hr ▸ List.mem_cons_self)
        exact List.dropWhile_cons_of_neg (by rw [ht c hc]; exact Bool.false_ne_true)
  rw [trim, List.dropWhile_append_of_pos hw, hfirst, List.rdropWhile, List.reverse_append,
    List.dropWhile_append_of_pos fun c hc => hw' c (List.mem_reverse.mp hc), hlast,
    List.reverse_reverse]

theorem isWhiteSpace_digit {b : UInt8} (h : Http.isDigit b) : isWhiteSpace (Http.toChar b) = false := by
  have hb := Http.digit_range h
  exact isWhiteSpace_of_range (by rw [toNat_toChar]; omega) (by rw [toNat_toChar]; omega)

/-- The value around which blanks were dropped. -/
theorem eq_append_trimBlanks (bs : Bytes) : ∃ w w', bs = w ++ (Http.trimBlanks bs ++ w') ∧
    (∀ b ∈ w, Http.isBlank b) ∧ ∀ b ∈ w', Http.isBlank b := by
  refine ⟨bs.takeWhile Http.isBlank,
    ((bs.dropWhile Http.isBlank).reverse.takeWhile Http.isBlank).reverse, ?_,
    fun b hb => List.mem_takeWhile_imp hb,
    fun b hb => List.mem_takeWhile_imp (List.mem_reverse.mp hb)⟩
  rw [Http.trimBlanks, List.rdropWhile, ← List.reverse_append, List.takeWhile_append_dropWhile,
    List.reverse_reverse, List.takeWhile_append_dropWhile]

theorem blank_byte {b : UInt8} (h : Http.isBlank b) : b < 128 ∧ isWhiteSpace (Http.toChar b) := by
  simp only [Http.isBlank, Bool.or_eq_true, decide_eq_true_eq] at h
  rcases h with rfl | rfl <;> decide

/-- A number is read as it was written. -/
theorem trim_digits {value : Bytes} (hd : (Http.trimBlanks value).all Http.isDigit)
    (hne : Http.trimBlanks value ≠ []) :
    trim (fromUtf8Lossy value) = (Http.trimBlanks value).map Http.toChar := by
  obtain ⟨w, w', heq, hw, hw'⟩ := eq_append_trimBlanks value
  have hdigit : ∀ b ∈ Http.trimBlanks value, Http.isDigit b := List.all_eq_true.mp hd
  have hascii : ∀ b ∈ value, b < 128 := by
    intro b hb
    rw [heq] at hb
    rcases List.mem_append.mp hb with hb | hb
    · exact (blank_byte (hw b hb)).1
    · rcases List.mem_append.mp hb with hb | hb
      · exact UInt8.lt_iff_toNat_lt.mpr (Nat.lt_of_le_of_lt (Http.digit_range (hdigit b hb)).2 (by decide))
      · exact (blank_byte (hw' b hb)).1
  have hblank {u : Bytes} (hu : ∀ b ∈ u, Http.isBlank b) : ∀ c ∈ u.map Http.toChar, isWhiteSpace c := by
    intro c hc
    obtain ⟨b, hb, rfl⟩ := List.mem_map.mp hc
    exact (blank_byte (hu b hb)).2
  rw [fromUtf8Lossy_ascii hascii]
  conv_lhs => rw [heq]
  rw [List.map_append, List.map_append]
  refine trim_between (hblank hw) (hblank hw') (fun c hc => ?_) (List.map_eq_nil_iff.not.mpr hne)
  obtain ⟨b, hb, rfl⟩ := List.mem_map.mp hc
  exact isWhiteSpace_digit (hdigit b hb)

/-! ## Headers -/

/-- A header that can be a line of a request. -/
structure Sendable (h : Str × Str) : Prop where
  nonempty : h.1 ≠ []
  name : h.1.all Http.isToken
  value : FieldText h.2

/-- The header is `Content-Length`. -/
def isLength (h : Str × Str) : Bool := eqIgnoreCase h.1 "content-length".toList

/-- Field names and header names are compared alike. -/
theorem is_eq_eqIgnoreCase (f : Http.Field) {name : String}
    (h : toLower name.toList = name.toList) : f.is name = eqIgnoreCase f.name name.toList := by
  rw [eqIgnoreCase, h]
  rfl

/-- The headers that were read stand for the fields of the request: the numbers in
`Content-Length` are the same. -/
structure Reflects (fields : List Http.Field) (headers : List (Str × Str)) : Prop where
  sendable : ∀ h ∈ headers, Sendable h
  lengths : List.Forall₂ (fun f h => f.value.all Http.isDigit → f.value ≠ [] →
      h.2 = f.value.map Http.toChar)
    (fields.filter (·.is "content-length")) (headers.filter isLength)

/-- The value of a cookie goes to another cookie. -/
theorem appendCookie_spec {value : Str} (hv : FieldText value) :
    ∀ {hs hs' : List (Str × Str)}, appendCookie value hs = some hs' → (∀ h ∈ hs, Sendable h) →
      (∀ h ∈ hs', Sendable h) ∧ hs'.filter isLength = hs.filter isLength
  | [], _, h, _ => by cases h
  | h :: hs, hs', happ, hok => by
      have hh := hok h List.mem_cons_self
      have hrest : ∀ g ∈ hs, Sendable g := fun g hg => hok g (List.mem_cons_of_mem _ hg)
      rw [appendCookie] at happ
      split at happ
      · next hc =>
          cases happ
          have hlen (v : Str) : isLength (h.1, v) = false := by
            refine decide_eq_false fun hl => ?_
            have hc : toLower h.1 = toLower "Cookie".toList := of_decide_eq_true hc
            rw [hc] at hl
            revert hl
            decide
          constructor
          · rw [List.forall_mem_cons]
            exact ⟨⟨hh.nonempty, hh.name, (hh.value.append (fun b hb => by revert b; decide +kernel)).append hv⟩,
              hrest⟩
          · rw [List.filter_cons_of_neg (by rw [hlen]; exact Bool.false_ne_true),
              List.filter_cons_of_neg (by rw [show isLength h = false from hlen h.2]; exact Bool.false_ne_true)]
      · obtain ⟨hs'', hs', rfl⟩ := Option.map_eq_some_iff.mp happ
        obtain ⟨hsend, hlen⟩ := appendCookie_spec hv hs' hrest
        exact ⟨List.forall_mem_cons.mpr ⟨hh, hsend⟩, by rw [List.filter_cons, List.filter_cons, hlen]⟩

theorem trim_token {name : Str} (h : name.all Http.isToken) (hne : name ≠ []) : trim name = name := by
  have := @trim_between [] name [] (fun _ h => absurd h List.not_mem_nil)
    (fun _ h => absurd h List.not_mem_nil) (fun c hc => by
      obtain ⟨h32, hlt, _⟩ := token_range (List.all_eq_true.mp h c hc)
      exact isWhiteSpace_of_range h32 hlt) hne
  rwa [List.append_nil] at this

/-- One more line of the header section. -/
theorem pushHeader_reflects {fields : List Http.Field} {headers : List (Str × Str)} {line : Bytes}
    {f : Http.Field} (hr : Reflects fields headers) (hf : Http.parseField line = some f) :
    Reflects (fields ++ [f]) (pushHeader headers (fromUtf8Lossy line)) := by
  obtain ⟨name, value, rfl, hname, hne, htoken, hvalue, htrim⟩ := Http.parseField_eq_some hf
  rw [← hname] at htoken
  obtain ⟨hlossy, hbytes⟩ := fromUtf8Lossy_token htoken
  have hcut : splitOnce ':' (fromUtf8Lossy (name ++ 58 :: value)) =
      some (f.name, fromUtf8Lossy value) := by
    rw [← hname, ← hlossy]
    exact splitOnce_fromUtf8Lossy (x := 58) (by decide) (fun h => (hbytes 58 h).2.2.2 rfl) value
  have htext := fieldText_trim hvalue
  rw [hname] at htoken
  rw [pushHeader, hcut]
  show Reflects _ ((if eqIgnoreCase (trim f.name) "Cookie".toList then
    appendCookie (trim (fromUtf8Lossy value)) headers else none).getD
      (headers ++ [(trim f.name, trim (fromUtf8Lossy value))]))
  rw [trim_token htoken hne]
  have hpush : Reflects (fields ++ [f]) (headers ++ [(f.name, trim (fromUtf8Lossy value))]) := by
    constructor
    · intro h hh
      rcases List.mem_append.mp hh with hh | hh
      · exact hr.sendable h hh
      · cases List.mem_singleton.mp hh
        exact ⟨hne, htoken, htext⟩
    · rw [List.filter_append, List.filter_append]
      refine List.rel_append hr.lengths ?_
      have hsame : isLength (f.name, trim (fromUtf8Lossy value)) = f.is "content-length" :=
        (is_eq_eqIgnoreCase f (by decide)).symm
      rw [List.filter_singleton, List.filter_singleton, hsame]
      cases f.is "content-length" with
      | false => exact .nil
      | true =>
          refine .cons (fun hd hn => ?_) .nil
          rw [← htrim] at hd hn ⊢
          exact trim_digits hd hn
  split
  · next hcookie =>
      cases happ : appendCookie (trim (fromUtf8Lossy value)) headers with
      | none => exact hpush
      | some hs =>
          obtain ⟨hsend, hlen⟩ := appendCookie_spec htext happ hr.sendable
          refine ⟨hsend, ?_⟩
          have hno : f.is "content-length" = false := by
            rw [is_eq_eqIgnoreCase f (by decide)]
            refine decide_eq_false fun hl => ?_
            rw [show toLower f.name = toLower "Cookie".toList from of_decide_eq_true hcookie] at hl
            revert hl
            decide
          rw [Option.getD_some, hlen, List.filter_append,
            List.filter_cons_of_neg (by rw [hno]; exact Bool.false_ne_true), List.filter_nil,
            List.append_nil]
          exact hr.lengths
  · exact hpush

theorem foldl_pushHeader_reflects : ∀ {lines : List Bytes} {fields fields' : List Http.Field}
    {headers : List (Str × Str)}, Reflects fields headers →
    lines.mapM Http.parseField = some fields' →
    Reflects (fields ++ fields') ((lines.map fromUtf8Lossy).foldl pushHeader headers)
  | [], _, _, _, hr, h => by
      rw [List.mapM_nil] at h
      cases h
      rwa [List.append_nil]
  | line :: lines, fields, fields', headers, hr, h => by
      rw [List.mapM_cons] at h
      obtain ⟨f, hf, h⟩ := Option.bind_eq_some_iff.mp h
      obtain ⟨fs, hfs, h⟩ := Option.bind_eq_some_iff.mp h
      cases h
      have ih := foldl_pushHeader_reflects (pushHeader_reflects hr hf) hfs
      rwa [List.append_assoc] at ih

/-! ## The forwarded header -/

/-- A line of the header section. -/
def Clean (line : Bytes) : Prop := line ≠ [] ∧ 13 ∉ line

theorem bytes_joinPair : ∀ {lines : List Str}, lines ≠ [] →
    bytes (Http.joinPair '\r' '\n' lines ++ "\r\n".toList) =
      Http.between 13 10 (lines.map bytes) ++ [13, 10, 13, 10]
  | [], h => absurd rfl h
  | [l], _ => by
      show bytes (((l ++ ['\r', '\n']) ++ []) ++ ['\r', '\n']) = (bytes l ++ []) ++ _
      rw [List.append_nil, List.append_nil, List.append_assoc, bytes_append]
      rfl
  | l :: m :: ls, _ => by
      have ih := @bytes_joinPair (m :: ls) (List.cons_ne_nil _ _)
      show bytes ((l ++ ['\r', '\n']) ++ Http.joinPair '\r' '\n' (m :: ls) ++ ['\r', '\n']) =
        (bytes l ++ 13 :: 10 :: Http.between 13 10 ((m :: ls).map bytes)) ++ _
      rw [List.append_assoc, List.append_assoc, bytes_append]
      show bytes l ++ (13 :: 10 :: bytes (Http.joinPair '\r' '\n' (m :: ls) ++ "\r\n".toList)) = _
      rw [ih, List.append_assoc]
      rfl

/-- The field that a header is sent as. -/
def fieldOf (h : Str × Str) : Http.Field := ⟨h.1, Http.trimBlanks (32 :: bytes h.2)⟩

theorem token_ascii {s : Str} (h : s.all Http.isToken) : ∀ c ∈ s, c.toNat < 128 := fun c hc =>
  (token_range (List.all_eq_true.mp h c hc)).2.1

theorem bytes_token {s : Str} (h : s.all Http.isToken) :
    ∀ b ∈ bytes s, b < 128 ∧ b ≠ 13 ∧ b ≠ 32 ∧ b ≠ 58 := by
  have hmap := map_toChar_bytes (token_ascii h)
  rw [← hmap] at h
  exact (fromUtf8Lossy_token h).2

theorem bytes_headerLine (h : Str × Str) : bytes (headerLine h) = bytes h.1 ++ 58 :: 32 :: bytes h.2 := by
  rw [headerLine, List.append_assoc, bytes_append, bytes_append]
  rfl

theorem fieldByte_ne {b : UInt8} (h : Http.isFieldByte b) : b ≠ 13 := by
  rintro rfl
  revert h
  decide

theorem bytes_ne_nil {s : Str} (h : s ≠ []) : bytes s ≠ [] := by
  cases s with
  | nil => exact absurd rfl h
  | cons c cs =>
      intro hb
      have hlen := congrArg List.length hb
      rw [length_bytes, byteLen] at hlen
      have := Char.utf8Size_pos c
      simp only [List.length_nil] at hlen
      omega

/-- The line of a header is read back. -/
theorem parseField_headerLine {h : Str × Str} (hs : Sendable h) :
    Http.parseField (bytes (headerLine h)) = some (fieldOf h) ∧ Clean (bytes (headerLine h)) := by
  have htoken := bytes_token hs.name
  have hmap := map_toChar_bytes (token_ascii hs.name)
  rw [bytes_headerLine]
  constructor
  · have hname : ((bytes h.1).map Http.toChar).all Http.isToken := by
      rw [hmap]
      exact hs.name
    have hvalue : (32 :: bytes h.2).all Http.isFieldByte := by
      rw [List.all_cons, List.all_eq_true.mpr hs.value]
      rfl
    rw [Http.parseField_line (fun hm => (htoken 58 hm).2.2.2 rfl) (bytes_ne_nil hs.nonempty) hname hvalue,
      hmap, fieldOf]
  · constructor
    · exact List.append_ne_nil_of_right_ne_nil _ (List.cons_ne_nil _ _)
    · simp only [List.mem_append, List.mem_cons, not_or]
      exact ⟨fun hm => (htoken 13 hm).2.1 rfl, by decide, by decide,
        fun hm => fieldByte_ne (hs.value 13 hm) rfl⟩

/-- A text of visible ASCII characters. -/
def Visible (s : Str) : Prop := ∀ c ∈ s, 33 ≤ c.toNat ∧ c.toNat ≤ 126

theorem Visible.bytes {s : Str} (h : Visible s) : ∀ b ∈ Str.bytes s, Http.isVisible b := by
  intro b hb
  obtain ⟨c, hc, hbc⟩ := List.mem_flatMap.mp hb
  obtain ⟨h33, h126⟩ := h c hc
  rw [utf8EncodeChar_ascii (by omega), List.mem_singleton] at hbc
  have hn : b.toNat = c.toNat := by
    rw [hbc, UInt8.toNat_ofNat_of_lt' (Nat.lt_of_le_of_lt h126 (by decide))]
  simp only [Http.isVisible, Bool.and_eq_true, decide_eq_true_eq, UInt8.le_iff_toNat_le, hn]
  exact ⟨h33, h126⟩

theorem Visible.fieldText {s : Str} (h : Visible s) : FieldText s := fun b hb =>
  (visible_byte (h.bytes b hb)).2.2.2

/-- The headers of a forwarded request. -/
def sentHeaders (host : Str) (headers : List (Str × Str)) : List (Str × Str) :=
  ("Host".toList, host) :: headers.filter (fun h => !isHop h.1) ++
    [("Connection".toList, "close".toList)]

theorem forwardLines_eq (method path host : Str) (headers : List (Str × Str)) :
    forwardLines method path host headers = (method ++ ' ' :: path ++ " HTTP/1.1".toList) ::
      (sentHeaders host headers).map headerLine := by
  rw [sentHeaders, List.map_append, List.map_cons]
  rfl

theorem sendable_sentHeaders {host : Str} {headers : List (Str × Str)} (hh : FieldText host)
    (hs : ∀ h ∈ headers, Sendable h) : ∀ h ∈ sentHeaders host headers, Sendable h := by
  intro h hm
  rcases List.mem_append.mp hm with hm | hm
  · rcases List.mem_cons.mp hm with rfl | hm
    · exact ⟨List.cons_ne_nil _ _, show "Host".toList.all Http.isToken by decide, hh⟩
    · exact hs h (List.mem_of_mem_filter hm)
  · cases List.mem_singleton.mp hm
    exact ⟨List.cons_ne_nil _ _, by decide, fun b hb => by revert b; decide +kernel⟩

theorem mapM_headerLine : ∀ {hs : List (Str × Str)}, (∀ h ∈ hs, Sendable h) →
    (hs.map fun h => bytes (headerLine h)).mapM Http.parseField = some (hs.map fieldOf)
  | [], _ => rfl
  | h :: hs, hok => by
      rw [List.map_cons, List.mapM_cons, (parseField_headerLine (hok h List.mem_cons_self)).1,
        mapM_headerLine fun g hg => hok g (List.mem_cons_of_mem _ hg)]
      rfl

/-- A forwarded header section is parsed into the fields that were sent. -/
theorem parse_rewriteForward {method path host : Str} {headers : List (Str × Str)}
    (hm : method.all Http.isToken) (hmne : method ≠ []) (hp : Visible path) (hpne : path ≠ [])
    (hh : FieldText host) (hs : ∀ h ∈ headers, Sendable h) (leftover tail : Bytes) :
    Http.parse (rewriteForward method path host headers leftover ++ tail) =
      (Http.framing ((sentHeaders host headers).map fieldOf)).bind fun framing =>
        (Http.readBody (leftover ++ tail) framing).bind fun r =>
          some { method, target := bytes path, fields := (sentHeaders host headers).map fieldOf,
                 framing, body := r.1, rest := r.2 } := by
  have hsend := sendable_sentHeaders hh hs
  have hstart : bytes (method ++ ' ' :: path ++ " HTTP/1.1".toList) =
      bytes method ++ 32 :: (bytes path ++ 32 :: bytes "HTTP/1.1".toList) := by
    rw [List.append_assoc, bytes_append, List.cons_append, bytes_cons_ascii (by decide), bytes_append]
    rfl
  have htoken := bytes_token hm
  have hmap := map_toChar_bytes (token_ascii hm)
  have hvisible := hp.bytes
  have hclean : ∀ l ∈ (forwardLines method path host headers).map bytes, l ≠ [] ∧ 13 ∉ l := by
    intro l hl
    rw [forwardLines_eq, List.map_cons, List.map_map] at hl
    rcases List.mem_cons.mp hl with rfl | hl
    · rw [hstart]
      constructor
      · exact List.append_ne_nil_of_right_ne_nil _ (List.cons_ne_nil _ _)
      · simp only [List.mem_append, List.mem_cons, not_or]
        exact ⟨fun h => (htoken 13 h).2.1 rfl, by decide, fun h => (visible_byte (hvisible 13 h)).2.1 rfl,
          by decide, by decide⟩
    · obtain ⟨h, hh, rfl⟩ := List.mem_map.mp hl
      exact (parseField_headerLine (hsend h hh)).2
  have hne : forwardLines method path host headers ≠ [] := List.cons_ne_nil _ _
  have hne' : (forwardLines method path host headers).map bytes ≠ [] := List.map_eq_nil_iff.not.mpr hne
  have hsplit : Http.splitHead (rewriteForward method path host headers leftover ++ tail) =
      some (Http.between 13 10 ((forwardLines method path host headers).map bytes), leftover ++ tail) := by
    rw [rewriteForward, bytes_joinPair hne, List.append_assoc, List.append_assoc]
    exact Http.splitHead_between (leftover ++ tail) hne' hclean
  have hlines := @Http.splitPair_between _ _ 13 10 _ hne' fun l hl => (hclean l hl).2
  rw [Http.parse, hsplit]
  show ((Http.parseStart ((Http.splitPair 13 10 (Http.between 13 10 _)).headD [])).bind _) = _
  rw [hlines, forwardLines_eq, List.map_cons, List.headD_cons, hstart,
    Http.parseStart_line (fun h => (htoken 32 h).2.2.1 rfl)
      (fun h => (visible_byte (hvisible 32 h)).2.2.1 rfl) (bytes_ne_nil hmne) (by rw [hmap]; exact hm)
      (bytes_ne_nil hpne) (List.all_eq_true.mpr hvisible) (by decide), hmap]
  show ((List.map bytes (List.map headerLine (sentHeaders host headers))).mapM Http.parseField).bind _ = _
  rw [List.map_map]
  show (((sentHeaders host headers).map fun h => bytes (headerLine h)).mapM Http.parseField).bind _ = _
  rw [mapM_headerLine hsend]
  rfl

/-! ## The framing -/

theorem values_map_fieldOf {name : String} (h : toLower name.toList = name.toList)
    (hs : List (Str × Str)) : Http.values name (hs.map fieldOf) =
      (hs.filter fun h => eqIgnoreCase h.1 name.toList).map fun h => (fieldOf h).value := by
  rw [Http.values, List.filter_map, List.map_map]
  congr 2
  funext g
  exact is_eq_eqIgnoreCase (fieldOf g) h

/-- No forwarded request has a `Transfer-Encoding`. -/
theorem values_transferEncoding (host : Str) (headers : List (Str × Str)) :
    Http.values "transfer-encoding" ((sentHeaders host headers).map fieldOf) = [] := by
  rw [values_map_fieldOf (by decide), sentHeaders, List.cons_append,
    List.filter_cons_of_neg (a := ("Host".toList, host))
      (show ¬ eqIgnoreCase "Host".toList "transfer-encoding".toList by decide),
    List.filter_append, List.filter_filter, List.filter_cons_of_neg (by decide), List.filter_nil,
    List.append_nil, List.map_eq_nil_iff,
    List.filter_eq_nil_iff]
  intro h _ hb
  simp only [Bool.and_eq_true, Bool.not_eq_true', isHop, List.any_eq_false] at hb
  exact hb.2 "transfer-encoding" (by decide) hb.1

/-- `Content-Length` is sent on. -/
theorem filter_isLength_sentHeaders (host : Str) (headers : List (Str × Str)) :
    (sentHeaders host headers).filter isLength = headers.filter isLength := by
  rw [sentHeaders, List.cons_append, List.filter_cons_of_neg (a := ("Host".toList, host))
      (show ¬ eqIgnoreCase "Host".toList "content-length".toList by decide),
    List.filter_append, List.filter_filter, List.filter_cons_of_neg (by decide), List.filter_nil,
    List.append_nil]
  refine List.filter_congr fun h _ => ?_
  cases hl : isLength h with
  | false => rfl
  | true =>
      have hname : toLower h.1 = toLower "content-length".toList := of_decide_eq_true hl
      have hhop : isHop h.1 = false := by
        simp only [isHop, eqIgnoreCase, hname]
        decide
      rw [hhop]
      rfl

/-- The numbers in `Content-Length` are sent on as they were. -/
theorem values_contentLength {fields : List Http.Field} {headers : List (Str × Str)}
    (hr : Reflects fields headers) (host : Str)
    (hd : ∀ v ∈ Http.values "content-length" fields, v.all Http.isDigit ∧ v ≠ []) :
    Http.values "content-length" ((sentHeaders host headers).map fieldOf) =
      Http.values "content-length" fields := by
  rw [values_map_fieldOf (by decide)]
  show ((sentHeaders host headers).filter isLength).map _ = _
  rw [filter_isLength_sentHeaders]
  rw [Http.values] at hd ⊢
  have hlen := hr.lengths
  generalize fields.filter (·.is "content-length") = fs at hd hlen
  generalize headers.filter isLength = hs at hlen
  induction hlen with
  | nil => rfl
  | @cons f h fs hs hfh _ ih =>
      rw [List.map_cons, List.forall_mem_cons] at hd
      obtain ⟨⟨hdigits, hne⟩, hrest⟩ := hd
      have hascii : ∀ b ∈ f.value, b < 128 := fun b hb => UInt8.lt_iff_toNat_lt.mpr
        (Nat.lt_of_le_of_lt (Http.digit_range (List.all_eq_true.mp hdigits b hb)).2 (by decide))
      rw [List.map_cons, List.map_cons, ih hrest, fieldOf, hfh hdigits hne, bytes_map_toChar hascii,
        Http.trimBlanks_digits hdigits hne]

/-! ## The forwarded request -/

/-- What `url::Url` promises: its parts are ASCII, without blanks. -/
structure UrlVisible (parseUrl : Str → Option Url) : Prop where
  host : ∀ {s u h}, parseUrl s = some u → u.hostStr = some h → Visible h
  path : ∀ {s u}, parseUrl s = some u → Visible u.path
  query : ∀ {s u q}, parseUrl s = some u → u.query = some q → Visible q

theorem Visible.append {s t : Str} (hs : Visible s) (ht : Visible t) : Visible (s ++ t) := fun c hc =>
  (List.mem_append.mp hc).elim (hs c) (ht c)

theorem Visible.cons {c : Char} {s : Str} (hc : 33 ≤ c.toNat ∧ c.toNat ≤ 126) (hs : Visible s) :
    Visible (c :: s) := by
  intro d hd
  rcases List.mem_cons.mp hd with rfl | hd
  · exact hc
  · exact hs d hd

theorem visible_port (port : Nat) : Visible (toString port).toList := by
  intro c hc
  have hlist : (toString port).toList = Nat.toDigits 10 port := String.toList_ofList
  rw [hlist] at hc
  have hd := Nat.isDigit_of_mem_toDigits (by decide) (by decide) hc
  simp only [Char.isDigit, Bool.and_eq_true, decide_eq_true_eq, ge_iff_le, UInt32.le_iff_toNat_le] at hd
  have h1 : 48 ≤ c.toNat := hd.1
  have h2 : c.toNat ≤ 57 := hd.2
  omega

/-- The host and the path are parts of the address, or a header and the target. -/
theorem forwardTarget_cases {parseUrl : Str → Option Url} (hurl : UrlVisible parseUrl)
    {target host path : Str} {headers : List (Str × Str)}
    (h : forwardTarget parseUrl target headers = some (host, path)) :
    (Visible host ∧ Visible path ∧ path ≠ []) ∨
    (∃ g ∈ headers, eqIgnoreCase g.1 "Host".toList ∧ g.2 = host) ∧
      path = if startsWith '/' target then target else '/' :: target := by
  rw [forwardTarget] at h
  split at h
  · obtain ⟨u, hu, h⟩ := Option.bind_eq_some_iff.mp h
    obtain ⟨name, hname, h⟩ := Option.bind_eq_some_iff.mp h
    cases h
    have hhost := hurl.host hu hname
    have hslash : Visible "/".toList := by
      intro c hc
      rw [List.mem_singleton.mp (show c ∈ ['/'] from hc)]
      decide
    refine .inl ⟨?_, ?_, ?_⟩
    · split
      · exact hhost.append ((visible_port _).cons (by decide))
      · exact hhost
    · refine Visible.append ?_ ?_
      · split
        · exact hslash
        · exact hurl.path hu
      · cases hq : u.query with
        | none => exact fun c hc => absurd hc List.not_mem_nil
        | some q => exact (hurl.query hu hq).cons (by decide)
    · refine List.append_ne_nil_of_left_ne_nil ?_ _
      split
      · exact List.cons_ne_nil _ _
      · next hp => exact fun h => hp (List.isEmpty_iff.mpr h)
  · obtain ⟨g, hg, h⟩ := Option.bind_eq_some_iff.mp h
    replace h : (if g.2.isEmpty then none
      else some (g.2, if startsWith '/' target then target else '/' :: target)) = some (host, path) := h
    split at h
    · cases h
    · cases h
      have hhost := @List.find?_some _ (fun h : Str × Str => eqIgnoreCase h.1 "Host".toList) _ _ hg
      exact .inr ⟨⟨g, List.mem_of_find?_eq_some hg, hhost, rfl⟩, rfl⟩

/-- The host and the path that are sent. -/
theorem forwardTarget_spec {parseUrl : Str → Option Url} (hurl : UrlVisible parseUrl)
    {target host path : Str} {headers : List (Str × Str)} (ht : Visible target) (hne : target ≠ [])
    (hs : ∀ h ∈ headers, Sendable h)
    (h : forwardTarget parseUrl target headers = some (host, path)) :
    FieldText host ∧ Visible path ∧ path ≠ [] := by
  rcases forwardTarget_cases hurl h with ⟨hhost, hpath, hpne⟩ | ⟨⟨g, hg, -, rfl⟩, rfl⟩
  · exact ⟨hhost.fieldText, hpath, hpne⟩
  · refine ⟨(hs g hg).value, ?_, ?_⟩
    · split
      · exact ht
      · exact ht.cons (by decide)
    · split
      · exact hne
      · exact List.cons_ne_nil _ _

theorem fromUtf8Lossy_between : ∀ lines : List Bytes,
    fromUtf8Lossy (Http.between 13 10 lines) = Http.between '\r' '\n' (lines.map fromUtf8Lossy)
  | [] => rfl
  | [l] => by
      rw [Http.between, List.flatMap_nil, List.append_nil, List.map_singleton, Http.between,
        List.flatMap_nil, List.append_nil]
  | l :: m :: ls => by
      have ih := fromUtf8Lossy_between (m :: ls)
      show fromUtf8Lossy (l ++ 13 :: 10 :: Http.between 13 10 (m :: ls)) =
        fromUtf8Lossy l ++ '\r' :: '\n' :: Http.between '\r' '\n' ((m :: ls).map fromUtf8Lossy)
      rw [fromUtf8Lossy_append (by decide), fromUtf8Lossy_cons_ascii (by decide), ih]
      rfl

/-- The lines of the decoded header are the decoded lines. -/
theorem splitPair_fromUtf8Lossy {header : Bytes} (h : ∀ l ∈ Http.splitPair 13 10 header, 13 ∉ l) :
    Http.splitPair '\r' '\n' (fromUtf8Lossy header) =
      (Http.splitPair 13 10 header).map fromUtf8Lossy := by
  conv_lhs => rw [← Http.between_splitPair 13 10 header, fromUtf8Lossy_between]
  refine Http.splitPair_between (List.map_eq_nil_iff.not.mpr (Http.splitPair_ne_nil 13 10 header)) ?_
  intro s hs
  obtain ⟨l, hl, rfl⟩ := List.mem_map.mp hs
  exact notMem_fromUtf8Lossy (x := 13) (by decide) (h l hl)

theorem fields_clean : ∀ {lines : List Bytes} {fields : List Http.Field},
    lines.mapM Http.parseField = some fields → ∀ l ∈ lines, 13 ∉ l
  | [], _, _ => fun _ h => absurd h List.not_mem_nil
  | line :: lines, fields, h => by
      rw [List.mapM_cons] at h
      obtain ⟨f, hf, h⟩ := Option.bind_eq_some_iff.mp h
      obtain ⟨fs, hfs, _⟩ := Option.bind_eq_some_iff.mp h
      obtain ⟨name, value, rfl, hname, _, htoken, hvalue, _⟩ := Http.parseField_eq_some hf
      rw [← hname] at htoken
      refine List.forall_mem_cons.mpr ⟨?_, fields_clean hfs⟩
      simp only [List.mem_append, List.mem_cons, not_or]
      exact ⟨fun hm => ((fromUtf8Lossy_token htoken).2 13 hm).2.1 rfl, by decide,
        fun hm => fieldByte_ne (List.all_eq_true.mp hvalue 13 hm) rfl⟩

/-- What the code makes of a well formed header section. -/
theorem parseHeader_spec {header leftover : Bytes} {m : Str} {t : Bytes} {fields : List Http.Field}
    {req : HttpRequest}
    (hstart : Http.parseStart ((Http.splitPair 13 10 header).headD []) = some (m, t))
    (hfields : (Http.splitPair 13 10 header).tail.mapM Http.parseField = some fields)
    (h : parseHeader header leftover = .ok req) :
    (req.method.all Http.isToken ∧ req.method ≠ []) ∧ (Visible req.target ∧ req.target ≠ []) ∧
      Reflects fields req.headers := by
  have hlines := @splitPair_fromUtf8Lossy header
  rw [parseHeader] at h
  revert hstart hfields h hlines
  cases hs : Http.splitPair 13 10 header with
  | nil => exact absurd hs (Http.splitPair_ne_nil 13 10 header)
  | cons start lines =>
      intro hstart hfields h hlines
      obtain ⟨method, version, rfl, hm, ht32, hmne, hmtoken, htne, htvisible, hversion⟩ :=
        Http.parseStart_eq_some hstart
      rw [← hm] at hmtoken
      obtain ⟨hmlossy, hmbytes⟩ := fromUtf8Lossy_token hmtoken
      have htbytes : ∀ b ∈ t, b < 128 ∧ b ≠ 13 ∧ b ≠ 32 ∧ Http.isFieldByte b := fun b hb =>
        visible_byte (List.all_eq_true.mp htvisible b hb)
      have htlossy : fromUtf8Lossy t = t.map Http.toChar := fromUtf8Lossy_ascii fun b hb => (htbytes b hb).1
      have hvclean : 13 ∉ version := by
        intro hv
        have hmem : Http.toChar 13 ∈ "HTTP/1.1".toList := hversion ▸ List.mem_map_of_mem hv
        revert hmem
        decide
      have hstartclean : 13 ∉ method ++ 32 :: (t ++ 32 :: version) := by
        simp only [List.mem_append, List.mem_cons, not_or]
        exact ⟨fun hm => (hmbytes 13 hm).2.1 rfl, by decide, fun ht => (htbytes 13 ht).2.1 rfl, by decide,
          hvclean⟩
      rw [hlines (List.forall_mem_cons.mpr ⟨hstartclean, fields_clean hfields⟩), List.map_cons] at h
      have hsplit : splitn3 (fromUtf8Lossy (method ++ 32 :: (t ++ 32 :: version))) =
          [m, t.map Http.toChar, fromUtf8Lossy version] := by
        have h1 := splitOnce_fromUtf8Lossy (x := 32) (by decide) (fun hm => (hmbytes 32 hm).2.2.1 rfl)
          (t ++ 32 :: version)
        have h2 := splitOnce_fromUtf8Lossy (x := 32) (by decide) ht32 version
        have hblank : charOfByte 32 = ' ' := rfl
        rw [hblank] at h1 h2
        simp only [splitn3, h1, h2]
        rw [hmlossy, htlossy, hm]
      have htne' : t.map Http.toChar ≠ [] := List.map_eq_nil_iff.not.mpr htne
      rw [List.headD_cons, hsplit, List.filter_cons_of_pos (by simp [hmne]),
        List.filter_cons_of_pos (by simp [htne])] at h
      cases h
      refine ⟨⟨hm ▸ hmtoken, hmne⟩, ⟨fun c hc => ?_, htne'⟩, ?_⟩
      · obtain ⟨b, hb, rfl⟩ := List.mem_map.mp hc
        have hv := List.all_eq_true.mp htvisible b hb
        simp only [Http.isVisible, Bool.and_eq_true, decide_eq_true_eq, UInt8.le_iff_toNat_le] at hv
        rw [toNat_toChar]
        exact hv
      · have hreflects : Reflects [] [] := ⟨fun _ h => absurd h List.not_mem_nil, .nil⟩
        exact foldl_pushHeader_reflects hreflects hfields

/-! ## The body -/

/-- The request that is sent is framed as the client's was, except that chunks are not. -/
theorem framing_sent {fields : List Http.Field} {headers : List (Str × Str)}
    (hr : Reflects fields headers) (host : Str) {framing : Http.Framing}
    (h : Http.framing fields = some framing) :
    Http.framing ((sentHeaders host headers).map fieldOf) =
      some (if framing = .chunked then .none else framing) := by
  have hlen := values_contentLength hr host
  revert h
  rw [Http.framing, Http.framing, values_transferEncoding]
  cases hte : Http.values "transfer-encoding" fields with
  | nil =>
      cases hcl : Http.values "content-length" fields with
      | nil =>
          intro h
          cases h
          rw [hlen (by rw [hcl]; exact fun _ h => absurd h List.not_mem_nil), hcl]
          rfl
      | cons v vs =>
          intro h
          replace h : (if vs.all (· = v) then (Http.decimal v).map Http.Framing.length else none) =
            some framing := h
          split at h
          · next hall =>
              obtain ⟨n, hn, rfl⟩ := Option.map_eq_some_iff.mp h
              have hdigits := Http.decimal_eq_some hn
              have hvs : ∀ w ∈ Http.values "content-length" fields, w.all Http.isDigit ∧ w ≠ [] := by
                rw [hcl]
                intro w hw
                rcases List.mem_cons.mp hw with rfl | hw
                · exact hdigits
                · rw [of_decide_eq_true (List.all_eq_true.mp hall w hw)]
                  exact hdigits
              rw [hlen hvs, hcl]
              show (if vs.all (· = v) then (Http.decimal v).map Http.Framing.length else none) = _
              rw [if_pos hall, hn]
              rfl
          · cases h
  | cons w ws =>
      cases hcl : Http.values "content-length" fields with
      | nil =>
          rw [hlen (by rw [hcl]; exact fun _ h => absurd h List.not_mem_nil), hcl]
          intro h
          cases ws with
          | nil =>
              replace h : (if (w.map fun b => Http.lower (Http.toChar b)) = "chunked".toList then
                some Http.Framing.chunked else none) = some framing := h
              split at h
              · cases h
                rfl
              · cases h
          | cons _ _ => cases h
      | cons _ _ =>
          intro h
          cases ws <;> cases h

/-- What is sent where a request is forwarded. -/
theorem handleClient_forward {parseUrl : Str → Option Url} {decideRoute : Str → RuleAction}
    {req : HttpRequest} {action : RuleAction} {hostPort : Str} {sent : Bytes}
    (h : handleClient parseUrl decideRoute req = .forward action hostPort sent) :
    ∃ host path, forwardTarget parseUrl req.target req.headers = some (host, path) ∧
      sent = rewriteForward req.method path host req.headers req.leftover := by
  rw [handleClient] at h
  split at h
  · split at h <;> cases h
  · split at h
    · cases h
    · split at h
      · cases h
      · next host path htarget =>
          split at h
          · cases h
          · split at h
            · cases h
            · cases h
              exact ⟨host, path, htarget, rfl⟩

/-- The receiver of a forwarded request finds the client's body, and after it what follows the
client's request, exactly if the body is not chunked. -/
theorem forwarded_body_iff {parseUrl : Str → Option Url} (hurl : UrlVisible parseUrl)
    {decideRoute : Str → RuleAction} {reads unread : List Bytes} {msg : Http.Request}
    {req : HttpRequest} {action : RuleAction} {hostPort : Str} {sent : Bytes}
    (hmsg : Http.parse reads.flatten = some msg)
    (hread : readHttpRequest reads [] = .ok (req, unread))
    (hsent : handleClient parseUrl decideRoute req = .forward action hostPort sent) :
    (∃ msg', Http.parse (sent ++ unread.flatten) = some msg' ∧ msg'.body = msg.body ∧
      msg'.rest = msg.rest) ↔ msg.framing ≠ .chunked := by
  obtain ⟨header, hsplit, hparse⟩ := readHttpRequest_ok hread
  rw [List.nil_append] at hsplit
  obtain ⟨⟨_, _⟩, hsplit', hmsg⟩ := Option.bind_eq_some_iff.mp hmsg
  cases hsplit.symm.trans hsplit'
  obtain ⟨⟨m, t⟩, hstart, hmsg⟩ := Option.bind_eq_some_iff.mp hmsg
  obtain ⟨fields, hfields, hmsg⟩ := Option.bind_eq_some_iff.mp hmsg
  obtain ⟨framing, hframing, hmsg⟩ := Option.bind_eq_some_iff.mp hmsg
  obtain ⟨⟨body, rest⟩, hbody, hmsg⟩ := Option.bind_eq_some_iff.mp hmsg
  cases hmsg
  obtain ⟨⟨hm, hmne⟩, ⟨ht, htne⟩, hr⟩ := parseHeader_spec hstart hfields hparse
  obtain ⟨host, path, htarget, rfl⟩ := handleClient_forward hsent
  obtain ⟨hhost, hpath, hpne⟩ := forwardTarget_spec hurl ht htne hr.sendable htarget
  have hout := parse_rewriteForward hm hmne hpath hpne hhost hr.sendable req.leftover unread.flatten
  rw [framing_sent hr host hframing] at hout
  rw [hout]
  cases framing with
  | none =>
      refine iff_of_true ⟨_, rfl, ?_, ?_⟩ (fun h => by cases h)
      · cases hbody
        rfl
      · cases hbody
        rfl
  | length n =>
      rw [if_neg (fun h => by cases h)]
      show (∃ msg', ((Http.readBody _ (.length n)).bind _) = _ ∧ _) ↔ _
      rw [hbody]
      exact iff_of_true ⟨_, rfl, rfl, rfl⟩ (fun h => by cases h)
  | chunked =>
      refine iff_of_false ?_ (fun h => h rfl)
      rintro ⟨msg', hmsg', _, hrest⟩
      -- without framing fields all bytes follow the request, the chunks too
      cases hmsg'
      have hlt := Http.readChunks_lt hbody
      replace hrest : req.leftover ++ unread.flatten = rest := hrest
      rw [hrest] at hlt
      exact absurd hlt (Nat.lt_irrefl _)

/-- A parser of addresses that knows none. -/
def noUrl : Str → Option Url := fun _ => none

theorem urlVisible_noUrl : UrlVisible noUrl where
  host h := by cases h
  path h := by cases h
  query h := by cases h

/-- A request with one framing field and a body. -/
def post (field body : String) : Bytes :=
  bytes ("POST / HTTP/1.1\r\nHost: h\r\n" ++ field ++ "\r\n\r\n" ++ body).toList

/-- The request as the code and as a receiver read it. -/
def postRead (field : Str × Str) (body : String) : HttpRequest :=
  ⟨"POST".toList, "/".toList, [("Host".toList, "h".toList), field], bytes body.toList⟩

/-- A body of one byte is received. -/
theorem forwarded_length : ∃ msg', Http.parse (rewriteForward "POST".toList "/".toList "h".toList
      [("Host".toList, "h".toList), ("Content-Length".toList, "1".toList)] [97] ++ []) = some msg' ∧
    msg'.body = [97] ∧ msg'.rest = [] := by
  exact (@forwarded_body_iff noUrl urlVisible_noUrl (fun _ => .direct)
    [post "Content-Length: 1" "a"] []
    ⟨"POST".toList, [47], [⟨"Host".toList, [104]⟩, ⟨"Content-Length".toList, [49]⟩], .length 1, [97], []⟩
    (postRead ("Content-Length".toList, "1".toList) "a") .direct "h:80".toList _
    (by decide +kernel) (by decide +kernel) (by decide +kernel)).mpr (by decide)

/-- The data of a chunk is not received. -/
theorem forwarded_chunked : ¬ ∀ (reads unread : List Bytes) (msg : Http.Request) (req : HttpRequest)
    (action : RuleAction) (hostPort : Str) (sent : Bytes), Http.parse reads.flatten = some msg →
    readHttpRequest reads [] = .ok (req, unread) →
    handleClient noUrl (fun _ => .direct) req = .forward action hostPort sent →
    ∃ msg', Http.parse (sent ++ unread.flatten) = some msg' ∧ msg'.body = msg.body := by
  intro h
  obtain ⟨msg', hmsg', hbody⟩ := h
    [post "Transfer-Encoding: chunked" "1\r\na\r\n0\r\n\r\n"] []
    ⟨"POST".toList, [47], [⟨"Host".toList, [104]⟩,
      ⟨"Transfer-Encoding".toList, bytes "chunked".toList⟩], .chunked, [97], []⟩
    (postRead ("Transfer-Encoding".toList, "chunked".toList) "1\r\na\r\n0\r\n\r\n")
    .direct "h:80".toList
    (rewriteForward "POST".toList "/".toList "h".toList
      [("Host".toList, "h".toList), ("Transfer-Encoding".toList, "chunked".toList)]
      (bytes "1\r\na\r\n0\r\n\r\n".toList)) (by decide +kernel) (by decide +kernel) (by decide +kernel)
  have hnone : (Http.parse (rewriteForward "POST".toList "/".toList "h".toList
      [("Host".toList, "h".toList), ("Transfer-Encoding".toList, "chunked".toList)]
      (bytes "1\r\na\r\n0\r\n\r\n".toList) ++ [].flatten)).map (·.body) = some [] := by
    decide +kernel
  rw [hmsg'] at hnone
  cases hbody.symm.trans (Option.some.inj hnone)

end Inbound

end RustClash
