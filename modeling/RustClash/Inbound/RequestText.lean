import RustClash.Core.Text
import RustClash.Inbound.Forward

/-!
# The text of a request

A request of the client as a text: the start line, a line for each field, an empty line,
and the bytes behind it.  It is read the same whatever parts it arrives in, and what is
sent on is a text of the same kind, so the reader reads it too.  Names and values lose the
white space at their ends, and cookies are put into one.
-/

namespace RustClash

namespace Inbound

open Str

/-! ## Cookies in one -/

def isCookie (h : Str × Str) : Bool := eqIgnoreCase h.1 "Cookie".toList

/-- The values of all cookies stand in the first. -/
def mergeCookies : List (Str × Str) → List (Str × Str)
  | [] => []
  | h :: hs =>
      if isCookie h then
        (h.1, join "; ".toList (h.2 :: (hs.filter isCookie).map (·.2))) :: hs.filter (!isCookie ·)
      else h :: mergeCookies hs

/-- What a field adds to the headers. -/
def addHeader (headers : List (Str × Str)) (h : Str × Str) : List (Str × Str) :=
  ((if isCookie h then appendCookie h.2 headers else none).getD (headers ++ [h]))

theorem addHeader_mergeCookies (h : Str × Str) : ∀ hs : List (Str × Str),
    addHeader (mergeCookies hs) h = mergeCookies (hs ++ [h])
  | [] => by
      rw [addHeader, List.nil_append, mergeCookies, mergeCookies, mergeCookies]
      split <;> rfl
  | g :: gs => by
      have ih := addHeader_mergeCookies h gs
      rw [addHeader] at ih ⊢
      rw [List.cons_append, mergeCookies, mergeCookies, List.filter_append, List.filter_append]
      by_cases hg : isCookie g
      · rw [if_pos hg, if_pos hg]
        cases hh : isCookie h with
        | true =>
            have hfirst : eqIgnoreCase g.1 "Cookie".toList = true := hg
            have hjoin (values : List Str) : join "; ".toList (g.2 :: (values ++ [h.2])) =
                join "; ".toList (g.2 :: values) ++ "; ".toList ++ h.2 := by
              rw [← List.cons_append, join_concat, if_neg (List.cons_ne_nil _ _)]
            rw [if_pos rfl, appendCookie, if_pos hfirst, List.filter_cons_of_pos hh,
              List.filter_cons_of_neg (by simp [hh]), List.map_append, List.filter_nil,
              List.filter_nil, List.map_singleton, List.append_nil, hjoin]
            rfl
        | false =>
            rw [if_neg Bool.false_ne_true, List.filter_cons_of_neg (by simp [hh]),
              List.filter_cons_of_pos (by simp [hh])]
            simp
      · rw [if_neg hg, if_neg hg, ← ih]
        cases hh : isCookie h with
        | true =>
            have hother : ¬ eqIgnoreCase g.1 "Cookie".toList := hg
            rw [if_pos rfl, if_pos rfl, appendCookie, if_neg hother]
            cases appendCookie h.2 (mergeCookies gs) <;> rfl
        | false => rfl

theorem foldl_addHeader (hs : List (Str × Str)) : hs.foldl addHeader [] = mergeCookies hs := by
  induction hs using List.reverseRecOn with
  | nil => rfl
  | append_singleton hs h ih => rw [List.foldl_append, ih, List.foldl_cons, List.foldl_nil,
      addHeader_mergeCookies]

theorem mergeCookies_filter_cookie : ∀ hs : List (Str × Str),
    ((mergeCookies hs).filter isCookie).length ≤ 1
  | [] => Nat.zero_le 1
  | h :: hs => by
      rw [mergeCookies]
      split
      · next hc =>
          have hcookie : isCookie (h.1, join "; ".toList (h.2 :: (hs.filter isCookie).map (·.2))) := hc
          rw [List.filter_cons_of_pos hcookie, List.filter_filter]
          simp
      · next hc =>
          rw [List.filter_cons_of_neg hc]
          exact mergeCookies_filter_cookie hs

/-- One cookie stays as it is. -/
theorem mergeCookies_of_one : ∀ {hs : List (Str × Str)}, (hs.filter isCookie).length ≤ 1 →
    mergeCookies hs = hs
  | [], _ => rfl
  | h :: hs, hone => by
      rw [mergeCookies]
      split
      · next hc =>
          rw [List.filter_cons_of_pos hc, List.length_cons, Nat.succ_le_succ_iff, Nat.le_zero,
            List.length_eq_zero_iff] at hone
          rw [hone]
          refine congrArg _ (List.filter_eq_self.mpr fun g hg => ?_)
          have hnone := List.filter_eq_nil_iff.mp hone g hg
          simpa using hnone
      · next hc =>
          rw [List.filter_cons_of_neg hc] at hone
          rw [mergeCookies_of_one hone]

/-! ## Texts -/

structure RequestText where
  method : Str
  target : Str
  /-- Names, and what stands behind their colons. -/
  fields : List (Str × Str)
  body : Bytes

def startLine (method target : Str) : Str := method ++ ' ' :: (target ++ " HTTP/1.1".toList)

/-- The header, up to and with its empty line. -/
def headerText (method target : Str) (fields : List (Str × Str)) : Bytes :=
  bytes (Http.joinPair '\r' '\n' (startLine method target :: fields.map fun f => f.1 ++ ':' :: f.2) ++
    "\r\n".toList)

/-- A header that can be sent: single blanks in its first line, names before the colons, and no
line with a carriage return in it. -/
structure Printable (method target : Str) (fields : List (Str × Str)) : Prop where
  verb : method ≠ [] ∧ ' ' ∉ method ∧ '\r' ∉ method
  aim : target ≠ [] ∧ ' ' ∉ target ∧ '\r' ∉ target
  lines : ∀ f ∈ fields, ':' ∉ f.1 ∧ '\r' ∉ f.1 ∧ '\r' ∉ f.2
  size : (headerText method target fields).length ≤ 65536

/-- The reader finds these parts in what the client sends, whatever it reads at once. -/
def ReadAs (sent : Bytes) (method target : Str) (headers : List (Str × Str)) (body : Bytes) : Prop :=
  ∀ reads : List Bytes, (∀ buf ∈ reads, buf ≠ []) → reads.flatten = sent →
    ∃ leftover unread, leftover ++ unread.flatten = body ∧
      readHttpRequest reads [] = .ok (⟨method, target, headers, leftover⟩, unread)

/-! ## Reading a text -/

theorem splitHead_ne_none (rest : Bytes) : ∀ head : Bytes,
    Http.splitHead (head ++ 13 :: 10 :: 13 :: 10 :: rest) ≠ none
  | [] => by
      rw [List.nil_append, Http.splitHead, if_pos (by simp)]
      exact Option.some_ne_none _
  | b :: head => by
      rw [List.cons_append, Http.splitHead]
      split
      · exact Option.some_ne_none _
      · exact fun h => splitHead_ne_none rest head (Option.map_eq_none_iff.mp h)

/-- The reader waits for the end of a header that is not too long. -/
theorem readHttpRequest_header {header rest : Bytes} (hsize : header.length + 4 ≤ 65536) :
    ∀ {reads : List Bytes} {ms : Bytes}, (∀ buf ∈ reads, buf ≠ []) → Http.splitHead ms = none →
      Http.splitHead (ms ++ reads.flatten) = some (header, rest) →
      ∃ leftover unread, leftover ++ unread.flatten = rest ∧
        readHttpRequest reads ms = (parseHeader header leftover).map (·, unread)
  | [], ms, _, hnone, hsome => by
      rw [List.flatten_nil, List.append_nil, hnone] at hsome
      cases hsome
  | buf :: reads, ms, hne, hnone, hsome => by
      obtain ⟨hbuf, hreads⟩ := List.forall_mem_cons.mp hne
      rw [List.flatten_cons, ← List.append_assoc] at hsome
      have hempty : ¬ buf.isEmpty := by simpa using hbuf
      rw [readHttpRequest, if_neg hempty]
      cases hidx : findHeaderEnd (ms ++ buf) with
      | some idx =>
          rw [splitHead_of_findHeaderEnd _ hidx] at hsome
          cases hsome
          have hle : idx ≤ (ms ++ buf).length := by
            rw [findHeaderEnd_eq] at hidx
            obtain ⟨⟨head, tail⟩, hs, rfl⟩ := Option.map_eq_some_iff.mp hidx
            rw [Http.splitHead_eq_some hs, List.length_append]
            exact Nat.le_add_right _ _
          rw [List.length_take_of_le hle] at hsize
          exact ⟨_, reads, rfl, if_neg (by omega)⟩
      | none =>
          have hopen : Http.splitHead (ms ++ buf) = none := by
            rwa [findHeaderEnd_eq, Option.map_eq_none_iff] at hidx
          have hshort : ¬ 64 * 1024 < (ms ++ buf).length := by
            intro hlong
            have hwhole := Http.splitHead_eq_some hsome
            have hpre : header ++ [13, 10, 13, 10] <+: ms ++ buf := by
              have hprefix : header ++ [13, 10, 13, 10] <+: ms ++ buf ++ reads.flatten := by
                rw [hwhole]
                exact ⟨rest, by simp⟩
              refine List.prefix_of_prefix_length_le hprefix (List.prefix_append _ _) ?_
              · rw [List.length_append]
                exact Nat.le_trans hsize (Nat.le_of_lt hlong)
            obtain ⟨more, hmore⟩ := hpre
            rw [← hmore, List.append_assoc] at hopen
            exact splitHead_ne_none more header hopen
          obtain ⟨leftover, unread, hrest, hread⟩ :=
            readHttpRequest_header hsize hreads hopen hsome
          exact ⟨leftover, unread, hrest, (if_neg hshort).trans hread⟩

theorem pushHeader_line {f : Str × Str} (h : ':' ∉ f.1) (headers : List (Str × Str)) :
    pushHeader headers (f.1 ++ ':' :: f.2) = addHeader headers (trim f.1, trim f.2) := by
  rw [pushHeader, splitOnce_append _ h]
  rfl

theorem notMem_bytes {c : Char} (hc : c.toNat < 128) {s : Str} (h : c ∉ s) :
    UInt8.ofNat c.toNat ∉ bytes s := by
  intro hmem
  have hlt : UInt8.ofNat c.toNat < 128 := by
    rw [UInt8.lt_iff_toNat_lt, UInt8.toNat_ofNat_of_lt' (Nat.lt_trans hc (by decide))]
    exact hc
  have hchar := mem_of_mem_bytes hlt hmem
  rw [charOfByte_ascii hc] at hchar
  exact h hchar

section Printed

variable {method target : Str} {fields : List (Str × Str)}

/-- The lines of a text. -/
def textLines (method target : Str) (fields : List (Str × Str)) : List Str :=
  startLine method target :: fields.map fun f => f.1 ++ ':' :: f.2

theorem mem_textLines (h : Printable method target fields) :
    ∀ line ∈ textLines method target fields, line ≠ [] ∧ '\r' ∉ line := by
  refine List.forall_mem_cons.mpr ⟨⟨?_, ?_⟩, fun line hline => ?_⟩
  · exact List.append_ne_nil_of_left_ne_nil h.verb.1 _
  · simp only [startLine, List.mem_append, List.mem_cons, not_or]
    exact ⟨h.verb.2.2, by decide, h.aim.2.2, by decide⟩
  · obtain ⟨f, hf, rfl⟩ := List.mem_map.mp hline
    simp only [List.mem_append, List.mem_cons, not_or]
    exact ⟨List.append_ne_nil_of_right_ne_nil _ (List.cons_ne_nil _ _), (h.lines f hf).2.1, by decide,
      (h.lines f hf).2.2⟩

/-- What the reader makes of the lines. -/
theorem parseHeader_textLines (h : Printable method target fields) (leftover : Bytes) :
    parseHeader (Http.between 13 10 ((textLines method target fields).map bytes)) leftover =
      .ok ⟨method, target, mergeCookies (fields.map fun f => (trim f.1, trim f.2)), leftover⟩ := by
  have hclean := mem_textLines h
  have hne : textLines method target fields ≠ [] := List.cons_ne_nil _ _
  have hback : ((textLines method target fields).map bytes).map fromUtf8Lossy =
      textLines method target fields := by
    rw [List.map_map]
    exact (List.map_congr_left fun s _ => fromUtf8Lossy_bytes s).trans (List.map_id _)
  have hsplit : splitn3 (startLine method target) = [method, target, "HTTP/1.1".toList] := by
    have hfirst := splitOnce_append (target ++ " HTTP/1.1".toList) h.verb.2.1
    have hsecond : splitOnce ' ' (target ++ " HTTP/1.1".toList) = some (target, "HTTP/1.1".toList) :=
      splitOnce_append "HTTP/1.1".toList h.aim.2.1
    simp only [splitn3, startLine, hfirst, hsecond]
  have hfold : ∀ (fs : List (Str × Str)) (headers : List (Str × Str)), (∀ f ∈ fs, ':' ∉ f.1) →
      (fs.map fun f => f.1 ++ ':' :: f.2).foldl pushHeader headers =
        (fs.map fun f => (trim f.1, trim f.2)).foldl addHeader headers := by
    intro fs
    induction fs with
    | nil => exact fun _ _ => rfl
    | cons f fs ih =>
        intro headers hnames
        obtain ⟨hf, hfs⟩ := List.forall_mem_cons.mp hnames
        rw [List.map_cons, List.map_cons, List.foldl_cons, List.foldl_cons, pushHeader_line hf, ih _ hfs]
  have hparts : (splitn3 (startLine method target)).filter (!·.isEmpty) =
      [method, target, "HTTP/1.1".toList] := by
    rw [hsplit, List.filter_cons_of_pos (by simpa using h.verb.1),
      List.filter_cons_of_pos (by simpa using h.aim.1)]
    rfl
  rw [parseHeader, fromUtf8Lossy_between, hback,
    Http.splitPair_between hne fun l hl => (hclean l hl).2]
  simp only [textLines, List.headD_cons, List.tail_cons, hparts]
  rw [hfold _ _ fun f hf => (h.lines f hf).1, foldl_addHeader]

/-- A text is read as what it was made of, up to white space and cookies. -/
theorem readAs_headerText (h : Printable method target fields) (body : Bytes) :
    ReadAs (headerText method target fields ++ body) method target
      (mergeCookies (fields.map fun f => (trim f.1, trim f.2))) body := by
  intro reads hreads hsent
  have hne : textLines method target fields ≠ [] := List.cons_ne_nil _ _
  have htext : headerText method target fields =
      Http.between 13 10 ((textLines method target fields).map bytes) ++ [13, 10, 13, 10] :=
    bytes_joinPair hne
  have hsize := h.size
  rw [htext, List.length_append] at hsize
  have hsplit : Http.splitHead ([] ++ reads.flatten) =
      some (Http.between 13 10 ((textLines method target fields).map bytes), body) := by
    rw [List.nil_append, hsent, htext, List.append_assoc]
    refine Http.splitHead_between body (List.map_eq_nil_iff.not.mpr hne) fun l hl => ?_
    obtain ⟨line, hline, rfl⟩ := List.mem_map.mp hl
    obtain ⟨hline, hclean⟩ := mem_textLines h line hline
    exact ⟨bytes_ne_nil hline, notMem_bytes (c := '\r') (by decide) hclean⟩
  obtain ⟨leftover, unread, hrest, hread⟩ := readHttpRequest_header hsize hreads rfl hsplit
  rw [parseHeader_textLines h] at hread
  exact ⟨leftover, unread, hrest, hread⟩

end Printed

/-! ## What is sent on -/

/-- The names are those of headers before, and so are the characters of the values, or they
are between two cookies. -/
theorem mem_mergeCookies {h : Str × Str} : ∀ {hs : List (Str × Str)}, h ∈ mergeCookies hs →
    (∃ g ∈ hs, g.1 = h.1) ∧ ∀ c ∈ h.2, c ∈ "; ".toList ∨ ∃ g ∈ hs, c ∈ g.2
  | [], hm => by cases hm
  | g :: gs, hm => by
      rw [mergeCookies] at hm
      split at hm
      · rcases List.mem_cons.mp hm with rfl | hm
        · refine ⟨⟨g, List.mem_cons_self, rfl⟩, fun c hc => ?_⟩
          obtain hsep | ⟨value, hvalue, hc⟩ := mem_join hc
          · exact .inl hsep
          · refine .inr ?_
            rcases List.mem_cons.mp hvalue with rfl | hvalue
            · exact ⟨g, List.mem_cons_self, hc⟩
            · obtain ⟨f, hf, rfl⟩ := List.mem_map.mp hvalue
              exact ⟨f, List.mem_cons_of_mem _ (List.mem_of_mem_filter hf), hc⟩
        · have hmem := List.mem_cons_of_mem g (List.mem_of_mem_filter hm)
          exact ⟨⟨h, hmem, rfl⟩, fun c hc => .inr ⟨h, hmem, hc⟩⟩
      · rcases List.mem_cons.mp hm with rfl | hm
        · exact ⟨⟨h, List.mem_cons_self, rfl⟩, fun c hc => .inr ⟨h, List.mem_cons_self, hc⟩⟩
        · obtain ⟨⟨f, hf, hname⟩, hvalue⟩ := mem_mergeCookies hm
          refine ⟨⟨f, List.mem_cons_of_mem _ hf, hname⟩, fun c hc => (hvalue c hc).imp_right ?_⟩
          rintro ⟨f, hf, hc⟩
          exact ⟨f, List.mem_cons_of_mem _ hf, hc⟩

/-- What is sent is a text, with a blank behind each colon. -/
theorem rewriteForward_eq (method path host : Str) (headers : List (Str × Str)) (leftover : Bytes) :
    rewriteForward method path host headers leftover =
      headerText method path ((sentHeaders host headers).map fun h => (h.1, ' ' :: h.2)) ++ leftover := by
  have hline : headerLine = fun h => h.1 ++ ':' :: ' ' :: h.2 := by
    funext h
    rw [headerLine, List.append_assoc]
    rfl
  rw [rewriteForward, forwardLines_eq, headerText, List.map_map, startLine, List.append_assoc, hline]
  rfl

namespace RequestText

/-- The headers of a request, with `tidy` for the names and values. -/
def headers (tidy : Str → Str) (r : RequestText) : List (Str × Str) :=
  mergeCookies (r.fields.map fun f => (tidy f.1, tidy f.2))

/-- The request is read as what it was made of, and read again where it was sent on. -/
structure Agrees (first second : Str → Str) (parseUrl : Str → Option Url) (r : RequestText) :
    Prop where
  read : ReadAs (headerText r.method r.target r.fields ++ r.body) r.method r.target
    (r.headers first) r.body
  again : ∀ host path, forwardTarget parseUrl r.target (r.headers first) = some (host, path) →
    (rewriteForward r.method path host (r.headers first) []).length ≤ 65536 → ∀ leftover,
      ReadAs (rewriteForward r.method path host (r.headers first) leftover) r.method path
        ((sentHeaders host (r.headers first)).map fun h => (h.1, second h.2)) leftover

variable {r : RequestText}

theorem mem_headers (hr : Printable r.method r.target r.fields) {h : Str × Str}
    (hm : h ∈ r.headers trim) : trim h.1 = h.1 ∧ ':' ∉ h.1 ∧ '\r' ∉ h.1 ∧ '\r' ∉ h.2 := by
  obtain ⟨⟨g, hg, hname⟩, hvalue⟩ := mem_mergeCookies hm
  obtain ⟨f, hf, rfl⟩ := List.mem_map.mp hg
  obtain ⟨hcolon, hreturn, -⟩ := hr.lines f hf
  rw [← hname]
  refine ⟨trim_trim _, fun hc => hcolon (mem_of_mem_trim hc), fun hc => hreturn (mem_of_mem_trim hc),
    fun hc => ?_⟩
  rcases hvalue _ hc with hsep | ⟨g, hg, hc⟩
  · revert hsep
    decide
  · obtain ⟨f, hf, rfl⟩ := List.mem_map.mp hg
    exact (hr.lines f hf).2.2 (mem_of_mem_trim hc)

theorem Visible.notMem {s : Str} (h : Visible s) {c : Char} (hc : c.toNat < 33) : c ∉ s := fun hm =>
  absurd (h c hm).1 (Nat.not_le.mpr hc)

/-- What is sent on is read as the headers that were sent. -/
theorem readAs_rewriteForward {parseUrl : Str → Option Url} (hurl : UrlVisible parseUrl)
    (hr : Printable r.method r.target r.fields) {host path : Str}
    (htarget : forwardTarget parseUrl r.target (r.headers trim) = some (host, path))
    (hsize : (rewriteForward r.method path host (r.headers trim) []).length ≤ 65536)
    (leftover : Bytes) : ReadAs (rewriteForward r.method path host (r.headers trim) leftover) r.method
      path ((sentHeaders host (r.headers trim)).map fun h => (h.1, trim h.2)) leftover := by
  have hparts : '\r' ∉ host ∧ path ≠ [] ∧ ' ' ∉ path ∧ '\r' ∉ path := by
    rcases forwardTarget_cases hurl htarget with ⟨hhost, hpath, hpne⟩ | ⟨⟨g, hg, -, rfl⟩, rfl⟩
    · exact ⟨Visible.notMem hhost (by decide), hpne, Visible.notMem hpath (by decide),
        Visible.notMem hpath (by decide)⟩
    · refine ⟨(mem_headers hr hg).2.2.2, ?_⟩
      split
      · exact hr.aim
      · simp only [List.mem_cons, not_or]
        exact ⟨List.cons_ne_nil _ _, ⟨by decide, hr.aim.2.1⟩, by decide, hr.aim.2.2⟩
  have hsent : ∀ h ∈ sentHeaders host (r.headers trim),
      trim h.1 = h.1 ∧ ':' ∉ h.1 ∧ '\r' ∉ h.1 ∧ '\r' ∉ h.2 := by
    intro h hm
    rcases List.mem_append.mp hm with hm | hm
    · rcases List.mem_cons.mp hm with rfl | hm
      · have hname : trim "Host".toList = "Host".toList ∧ ':' ∉ "Host".toList ∧ '\r' ∉ "Host".toList := by
          decide
        exact ⟨hname.1, hname.2.1, hname.2.2, hparts.1⟩
      · exact mem_headers hr (List.mem_of_mem_filter hm)
    · cases List.mem_singleton.mp hm
      decide
  have hone : ((sentHeaders host (r.headers trim)).filter isCookie).length ≤ 1 := by
    have hfilter : (sentHeaders host (r.headers trim)).filter isCookie =
        ((r.headers trim).filter isCookie).filter fun h => !isHop h.1 := by
      have hhost : ¬ isCookie ("Host".toList, host) :=
        show ¬ eqIgnoreCase "Host".toList "Cookie".toList by decide
      rw [sentHeaders, List.cons_append, List.filter_cons_of_neg hhost, List.filter_append,
        List.filter_filter, List.filter_filter, List.filter_cons_of_neg (by decide), List.filter_nil,
        List.append_nil]
      exact List.filter_congr fun h _ => Bool.and_comm _ _
    rw [hfilter]
    exact Nat.le_trans (List.length_filter_le _ _) (mergeCookies_filter_cookie _)
  rw [rewriteForward_eq, List.append_nil] at hsize
  have hprint : Printable r.method path
      ((sentHeaders host (r.headers trim)).map fun h => (h.1, ' ' :: h.2)) := by
    refine ⟨hr.verb, hparts.2, fun f hf => ?_, hsize⟩
    obtain ⟨h, hm, rfl⟩ := List.mem_map.mp hf
    obtain ⟨-, hcolon, hreturn, hvalue⟩ := hsent h hm
    exact ⟨hcolon, hreturn, List.not_mem_cons_of_ne_of_not_mem (by decide) hvalue⟩
  have hread := readAs_headerText hprint leftover
  have htidy : ((sentHeaders host (r.headers trim)).map fun h => (h.1, ' ' :: h.2)).map
      (fun f => (trim f.1, trim f.2)) =
        (sentHeaders host (r.headers trim)).map fun h => (h.1, trim h.2) := by
    rw [List.map_map]
    refine List.map_congr_left fun h hm => ?_
    show (trim h.1, trim (' ' :: h.2)) = (h.1, trim h.2)
    rw [(hsent h hm).1, trim_cons (by decide)]
  have hcookies : (((sentHeaders host (r.headers trim)).map fun h => (h.1, trim h.2)).filter
      isCookie).length ≤ 1 := by
    rw [List.filter_map, List.length_map]
    exact hone
  rw [htidy, mergeCookies_of_one hcookies] at hread
  rw [rewriteForward_eq]
  exact hread

/-- Every request is read as what it was made of, and so is what is sent on, without white
space at the ends of names and values. -/
theorem requestText_agrees {parseUrl : Str → Option Url} (hurl : UrlVisible parseUrl) {r : RequestText}
    (hr : Printable r.method r.target r.fields) : r.Agrees trim trim parseUrl :=
  ⟨readAs_headerText hr r.body,
    fun _ _ htarget hsize leftover => readAs_rewriteForward hurl hr htarget hsize leftover⟩

/-- A request for `/` of the host `h`. -/
def plain (fields : List (Str × Str)) (body : Bytes) : RequestText :=
  ⟨"GET".toList, "/".toList, ("Host".toList, " h".toList) :: fields, body⟩

/-- Two lines of cookies with blanks at their ends, a header that is not sent on, and a body. -/
def cookies : RequestText := plain [("Cookie".toList, " a=1".toList),
  ("Proxy-Connection".toList, " keep-alive".toList), ("cookie ".toList, " b=2\t".toList),
  ("Accept".toList, " */* ".toList)] [1, 2]

theorem requestText_agrees_cookies :
    ReadAs (headerText cookies.method cookies.target cookies.fields ++ [1, 2]) "GET".toList
      "/".toList [("Host".toList, "h".toList), ("Cookie".toList, "a=1; b=2".toList),
        ("Proxy-Connection".toList, "keep-alive".toList), ("Accept".toList, "*/*".toList)] [1, 2] ∧
    ReadAs (rewriteForward cookies.method "/".toList "h".toList (cookies.headers trim) [1, 2])
      "GET".toList "/".toList [("Host".toList, "h".toList), ("Cookie".toList, "a=1; b=2".toList),
        ("Accept".toList, "*/*".toList), ("Connection".toList, "close".toList)] [1, 2] := by
  have hprintable : Printable cookies.method cookies.target cookies.fields :=
    ⟨by decide, by decide, by decide +kernel, by decide +kernel⟩
  obtain ⟨hread, hagain⟩ := requestText_agrees urlVisible_noUrl hprintable
  have hheaders : cookies.headers trim = [("Host".toList, "h".toList),
      ("Cookie".toList, "a=1; b=2".toList), ("Proxy-Connection".toList, "keep-alive".toList),
      ("Accept".toList, "*/*".toList)] := by decide +kernel
  have hsent : ((sentHeaders "h".toList (cookies.headers trim)).map fun h => (h.1, trim h.2)) =
      [("Host".toList, "h".toList), ("Cookie".toList, "a=1; b=2".toList),
        ("Accept".toList, "*/*".toList), ("Connection".toList, "close".toList)] := by
    decide +kernel
  have hagain := hagain "h".toList "/".toList (by decide +kernel) (by decide +kernel) [1, 2]
  rw [hsent] at hagain
  rw [hheaders] at hread
  exact ⟨hread, hagain⟩

/-! ## White space -/

/-- Without the blanks and tabs at the ends. -/
def trimBlanks (s : Str) : Str :=
  (s.dropWhile fun c => c = ' ' || c = '\t').rdropWhile fun c => c = ' ' || c = '\t'

theorem readAs_unique {sent : Bytes} (hne : sent ≠ []) {method target : Str}
    {headers headers' : List (Str × Str)} {body body' : Bytes}
    (h : ReadAs sent method target headers body) (h' : ReadAs sent method target headers' body') :
    headers = headers' := by
  have hbuf : ∀ buf ∈ [sent], buf ≠ [] := fun buf hbuf => List.mem_singleton.mp hbuf ▸ hne
  obtain ⟨leftover, unread, -, hread⟩ := h [sent] hbuf (by simp)
  obtain ⟨leftover', unread', -, hread'⟩ := h' [sent] hbuf (by simp)
  rw [hread] at hread'
  cases hread'
  rfl

/-- A value that is a no-break space. -/
def spaceRequest : RequestText := plain [("X".toList, [' ', Char.ofNat 0xA0])] []

/-- Two cookies, and the second one is empty. -/
def cookieRequest : RequestText := plain [("Cookie".toList, " a".toList), ("Cookie".toList, [])] []

/-- The no-break space is not read, and of the cookies that are sent on the blank at their end
is not. -/
theorem not_requestText_agrees : (Printable spaceRequest.method spaceRequest.target spaceRequest.fields ∧
      ¬ spaceRequest.Agrees trimBlanks id noUrl) ∧
    Printable cookieRequest.method cookieRequest.target cookieRequest.fields ∧
      ¬ cookieRequest.Agrees trimBlanks id noUrl := by
  have hspace : Printable spaceRequest.method spaceRequest.target spaceRequest.fields :=
    ⟨by decide, by decide, by decide, by decide +kernel⟩
  have hcookie : Printable cookieRequest.method cookieRequest.target cookieRequest.fields :=
    ⟨by decide, by decide, by decide, by decide +kernel⟩
  refine ⟨⟨hspace, fun h => ?_⟩, hcookie, fun h => ?_⟩
  · have hsame := readAs_unique (by decide +kernel) h.read (readAs_headerText hspace [])
    exact absurd hsame (by decide +kernel)
  · have htrim : cookieRequest.headers trimBlanks = cookieRequest.headers trim := by decide +kernel
    have htarget : forwardTarget noUrl cookieRequest.target (cookieRequest.headers trim) =
        some ("h".toList, "/".toList) := by decide +kernel
    have hsize : (rewriteForward cookieRequest.method "/".toList "h".toList
        (cookieRequest.headers trim) []).length ≤ 65536 := by decide +kernel
    have hagain := h.again "h".toList "/".toList
    rw [htrim] at hagain
    have hsame := readAs_unique (by decide +kernel) (hagain htarget hsize [])
      (readAs_rewriteForward urlVisible_noUrl hcookie htarget hsize [])
    exact absurd hsame (by decide +kernel)

end RequestText

end Inbound

end RustClash
