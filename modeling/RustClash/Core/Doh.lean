import RustClash.Config.Json
import RustClash.Core.Text
import RustClash.Core.Utf8
import RustClash.Lib.Http
import RustClash.Net.Exchange
import RustClash.Net.Addr

/-!
# Lookups over HTTPS

`query_inner` asks a resolver over HTTP and reads its response until the body that the header
announces is there, until the connection ends, or until there is too much of it.  Over a short
response it does not matter how the bytes arrive: the answer is `answerOf` all of them.

The stream is the one that TLS makes, and a JSON value is what the parser of the text yields.
-/

namespace RustClash

namespace Doh

open Str Config

/-! ## Responses -/

inductive DohError where
  | io (e : IoError)
  /-- "DoH response too large" -/
  | tooLarge
  /-- The text is no JSON. -/
  | json
deriving DecidableEq

/-- The number of the first header of this name, if it is one. -/
def contentLen : List Str → Option Nat
  | [] => none
  | line :: lines =>
      match splitOnce ':' line with
      | none => contentLen lines
      | some (name, value) =>
          if eqIgnoreCase name "Content-Length".toList then parseNat (2 ^ 64) (trim value)
          else contentLen lines

/-- `http_body_if_complete`. -/
def httpBodyIfComplete (buf : Bytes) : Option Str := do
  let (head, body) ← Http.splitHead buf
  let headers ← fromUtf8 head
  let n ← contentLen ((Http.splitPair '\r' '\n' headers).drop 1)
  if n ≤ body.length then fromUtf8 (body.take n) else none

/-- `split_once` at a text. -/
def splitOnceAt (pat : Str) : Str → Option (Str × Str)
  | [] => if pat.isEmpty then some ([], []) else none
  | c :: cs =>
      if pat.isPrefixOf (c :: cs) then some ([], (c :: cs).drop pat.length)
      else (splitOnceAt pat cs).map fun (before, after) => (c :: before, after)

/-- The body of a response that ended, or the whole of it. -/
def bodyOfText (text : Str) : Str :=
  match splitOnceAt "\r\n\r\n".toList text with
  | none => text
  | some (_, after) =>
      match splitOnceAt "\r\n\r\n".toList after with
      | none => after
      | some (body, _) => body

def answerType (a : Json) : Option Int :=
  (a.get "type").bind fun t => t.asI64 <|> (t.asStr.bind parseI64).map Int64.toInt

/-- The address in a record of the answer. -/
def recordIp (a : Json) : Option IpAddr :=
  if answerType a = some 1 ∨ answerType a = some 28 then
    (jstr a "data").bind fun data => parseIpAddr (String.ofList data)
  else none

def parseDohIps (parseJson : Str → Option Json) (body : Str) : Except DohError (List IpAddr) :=
  match parseJson body with
  | none => .error .json
  | some v => .ok (((jarray v "Answer").getD []).filterMap recordIp)

/-! ## The query -/

variable (parseJson : Str → Option Json)

/-- One read of the response. -/
def readRound (buf : Bytes) (t : Transport) :
    (Bytes × Transport) ⊕ (Except DohError (List IpAddr) × Transport) :=
  match t.read 4096 with
  | (.error e, t) => .inr (.error (.io e), t)
  | (.ok d, t) =>
      if d.items.isEmpty then .inr (parseDohIps parseJson (bodyOfText (fromUtf8Lossy buf)), t)
      else
        match httpBodyIfComplete (buf ++ d.items) with
        | some body => .inr (parseDohIps parseJson body, t)
        | none =>
            if 64 * 1024 < (buf ++ d.items).length then .inr (.error .tooLarge, t)
            else .inl (buf ++ d.items, t)

/-- Bytes that were to come are at hand. -/
theorem readRound_inl {buf : Bytes} {t : Transport} {st : Bytes × Transport}
    (h : readRound parseJson buf t = .inl st) :
    (∃ d : Filled UInt8 4096, d.items ≠ [] ∧ st.1 = buf ++ d.items ∧
      unread t.reads = d.items ++ unread st.2.reads ∧ st.2.readEnd = t.readEnd) ∧
      httpBodyIfComplete st.1 = none ∧ st.1.length ≤ 64 * 1024 := by
  have hread := t.read_spec (show 0 < 4096 by decide)
  simp only [readRound] at h
  generalize t.read 4096 = r at h hread
  cases hread with
  | error _ _ => cases h
  | eof hnil _ _ =>
      simp only [hnil] at h
      cases h
  | data hne hunread hend =>
      dsimp only at h
      rw [if_neg (by rwa [List.isEmpty_iff])] at h
      split at h
      · cases h
      · next hnone =>
          split at h
          · cases h
          · next hle =>
              cases h
              exact ⟨⟨_, hne, rfl, hunread, hend⟩, hnone, Nat.not_lt.mp hle⟩

def readLoop : Loop (Bytes × Transport) (Except DohError (List IpAddr) × Transport) where
  body st := readRound parseJson st.1 st.2
  measure st := (unread st.2.reads).length
  decreases := by
    intro st st' h
    obtain ⟨⟨d, hne, -, hunread, -⟩, -⟩ := readRound_inl parseJson h
    have hpos := List.length_pos_iff.mpr hne
    rw [hunread, List.length_append]
    omega

def request (path sni : Str) : Bytes :=
  bytes ("GET ".toList ++ path ++ " HTTP/1.1\r\nHost: ".toList ++ sni ++
    "\r\nAccept: application/dns-json\r\nConnection: close\r\n\r\n".toList)

/-- `query_inner`, over the stream that the connector made. -/
def queryInner (path sni : Str) (t : Transport) : Except DohError (List IpAddr) × Transport :=
  match t.writeAll (request path sni) with
  | (.error e, t) => (.error (.io e), t)
  | (.ok (), t) => (readLoop parseJson).run ([], t)

/-! ## What all of a response says -/

/-- The answer in a response without a body that is complete. -/
def endedOf (response : Bytes) : End IoError → Except DohError (List IpAddr)
  | .eof => parseDohIps parseJson (bodyOfText (fromUtf8Lossy response))
  | .error e => .error (.io e)

def answerOf (response : Bytes) (readEnd : End IoError) : Except DohError (List IpAddr) :=
  match httpBodyIfComplete response with
  | some body => parseDohIps parseJson body
  | none => endedOf parseJson response readEnd

/-- A body that is there stays there. -/
theorem httpBodyIfComplete_append {buf : Bytes} {body : Str} (more : Bytes)
    (h : httpBodyIfComplete buf = some body) : httpBodyIfComplete (buf ++ more) = some body := by
  obtain ⟨⟨head, rest⟩, hsplit, h⟩ := Option.bind_eq_some_iff.mp h
  obtain ⟨headers, hheaders, h⟩ := Option.bind_eq_some_iff.mp h
  obtain ⟨n, hn, h⟩ := Option.bind_eq_some_iff.mp h
  rw [httpBodyIfComplete, Http.splitHead_append more hsplit]
  show (fromUtf8 head >>= _) = _
  rw [hheaders]
  show (contentLen _ >>= _) = _
  rw [hn]
  show (if n ≤ (rest ++ more).length then _ else _) = _
  split at h
  · next hle =>
      rw [if_pos, List.take_append_of_le_length hle]
      · exact h
      · rw [List.length_append]
        omega
  · cases h

/-- No body is there within the first bytes, and they are too many. -/
def Overlong (response : Bytes) : Prop :=
  ∃ n, 64 * 1024 < n ∧ n ≤ response.length ∧ httpBodyIfComplete (response.take n) = none

theorem readLoop_answers (st : Bytes × Transport) (hnone : httpBodyIfComplete st.1 = none)
    (hle : st.1.length ≤ 64 * 1024) :
    ((readLoop parseJson).run st).1 = answerOf parseJson (st.1 ++ unread st.2.reads) st.2.readEnd ∨
      ((readLoop parseJson).run st).1 = .error .tooLarge ∧
        Overlong (st.1 ++ unread st.2.reads) := by
  refine Loop.rule (l := readLoop parseJson) (P := fun st r =>
    httpBodyIfComplete st.1 = none → st.1.length ≤ 64 * 1024 →
      r.1 = answerOf parseJson (st.1 ++ unread st.2.reads) st.2.readEnd ∨
        r.1 = .error .tooLarge ∧ Overlong (st.1 ++ unread st.2.reads)) ?_ ?_ st hnone hle
  · intro st st' r hround ih _ _
    obtain ⟨⟨d, -, hbuf, hunread, hend⟩, hnone', hle'⟩ := readRound_inl parseJson hround
    have hall : st'.1 ++ unread st'.2.reads = st.1 ++ unread st.2.reads := by
      rw [hbuf, hunread, List.append_assoc]
    have ih := ih hnone' hle'
    rwa [hall, hend] at ih
  · rintro ⟨buf, t⟩ r hround hnone _
    change readRound parseJson buf t = .inr r at hround
    dsimp only at hnone ⊢
    have hread := t.read_spec (show 0 < 4096 by decide)
    simp only [readRound] at hround
    generalize t.read 4096 = x at hround hread
    cases hread with
    | error hnil hend =>
        cases hround
        left
        rw [hnil, List.append_nil, answerOf, hnone, hend]
        rfl
    | eof hd hnil hend =>
        simp only [hd] at hround
        cases hround
        left
        rw [hnil, List.append_nil, answerOf, hnone, hend]
        rfl
    | data hne hunread _ =>
        dsimp only at hround
        rw [if_neg (by rwa [List.isEmpty_iff])] at hround
        rw [hunread, ← List.append_assoc]
        split at hround
        · next body hbody =>
            cases hround
            left
            rw [answerOf, httpBodyIfComplete_append _ hbody]
        · next hbody =>
            split at hround
            · next hlong =>
                cases hround
                refine .inr ⟨rfl, _, hlong, ?_, ?_⟩
                · exact (List.prefix_append _ _).length_le
                · rw [List.take_left]
                  exact hbody
            · cases hround

/-- However the response arrives, the answer is the one in all of it, unless it is too long. -/
theorem queryInner_answers (path sni : Str) {t : Transport} (htakes : t.Takes) :
    (queryInner parseJson path sni t).1 = answerOf parseJson (unread t.reads) t.readEnd ∨
      (queryInner parseJson path sni t).1 = .error .tooLarge ∧ Overlong (unread t.reads) := by
  obtain ⟨sent, -, hwrote, -⟩ := t.writeAll_spec (request path sni)
  have hok := (Transport.takes_writeAll htakes (request path sni)).1
  rw [queryInner]
  generalize t.writeAll (request path sni) = r at hwrote hok
  obtain ⟨result, t'⟩ := r
  cases hok
  have hread := readLoop_answers parseJson ([], t') rfl (Nat.zero_le _)
  rw [List.nil_append, hwrote.reads, hwrote.readEnd] at hread
  exact hread

/-- An answer of one record. -/
def exampleBody : Str := "\x7b\"Answer\":[\x7b\"type\":1,\"data\":\"1.2.3.4\"\x7d]\x7d".toList

/-- The parser, on this text. -/
def exampleJson (text : Str) : Option Json :=
  if text = exampleBody then
    some (.object [("Answer".toList,
      .array [.object [("type".toList, .int 1), ("data".toList, .string "1.2.3.4".toList)]])])
  else none

/-- A response without a length, which ends, in two pieces. -/
def exampleEnding : Transport :=
  ⟨[.data 72 (bytes "TTP/1.1 200 OK\r\n\r".toList), .pending, .data 10 (bytes exampleBody)], .eof,
    [.accept 7, .pending], []⟩

theorem queryInner_answers_ending :
    ((queryInner exampleJson "/q".toList "a".toList exampleEnding).1 =
        answerOf exampleJson (unread exampleEnding.reads) .eof ∨
      (queryInner exampleJson "/q".toList "a".toList exampleEnding).1 = .error .tooLarge ∧
        Overlong (unread exampleEnding.reads)) ∧
    answerOf exampleJson (unread exampleEnding.reads) .eof = .ok [.v4 ⟨1, 2, 3, 4⟩] :=
  ⟨queryInner_answers exampleJson "/q".toList "a".toList (t := exampleEnding) (by decide),
    by decide +kernel⟩

/-! ## Well-formed responses -/

/-- The first of these headers that gives a length gives this one. -/
inductive Announces (n : Nat) : List Str → Prop
| here {name : Str} {headers : List Str} :
  eqIgnoreCase name "Content-Length".toList ->
  Announces n ((name ++ ':' :: ' ' :: ofNat n) :: headers)
| later {line : Str} {headers : List Str} :
  (∀ l r, splitOnce ':' line = some (l, r) → eqIgnoreCase l "Content-Length".toList = false) ->
  Announces n headers ->
  Announces n (line :: headers)

theorem colon_notMem {name : Str} (h : eqIgnoreCase name "Content-Length".toList) : ':' ∉ name := by
  intro hmem
  have hlower : toLower name = toLower "Content-Length".toList := of_decide_eq_true h
  have hcolon := List.mem_map_of_mem (f := toAsciiLowercase) hmem
  rw [show name.map toAsciiLowercase = toLower name from rfl, hlower] at hcolon
  exact absurd hcolon (by decide)

theorem Announces.contentLen {headers : List Str} {n : Nat} (h : Announces n headers)
    (hn : n < 2 ^ 64) : contentLen headers = some n := by
  induction h with
  | here hname =>
      rw [Doh.contentLen, splitOnce_append _ (colon_notMem hname)]
      dsimp only
      rw [if_pos hname, trim_cons (by decide), trim_ofNat, parseNat_ofNat hn]
  | later hother _ ih =>
      rw [Doh.contentLen]
      split
      · exact ih
      · next l r hsplit =>
          rw [hother l r hsplit, if_neg Bool.false_ne_true]
          exact ih

theorem bytes_between (lines : List Str) :
    bytes (Http.between '\r' '\n' lines) = Http.between 13 10 (lines.map bytes) := by
  cases lines with
  | nil => rfl
  | cons line lines =>
      rw [Http.between, List.map_cons, Http.between, bytes_append]
      congr 1
      induction lines with
      | nil => rfl
      | cons line lines ih =>
          rw [List.flatMap_cons, bytes_append, List.map_cons, List.flatMap_cons, ih]
          rfl

/-- The header section of a response, with the line that ends it. -/
def headOf (lines : List Str) : Bytes := bytes (Http.between '\r' '\n' lines) ++ [13, 10, 13, 10]

theorem httpBodyIfComplete_headOf {status : Str} {headers : List Str} {body : Str}
    (hlines : ∀ line ∈ status :: headers, line ≠ [] ∧ '\r' ∉ line)
    (hlen : Announces (byteLen body) headers) (hsmall : byteLen body < 2 ^ 64) (more : Bytes) :
    httpBodyIfComplete (headOf (status :: headers) ++ (bytes body ++ more)) = some body := by
  have hbytes : ∀ l ∈ (status :: headers).map bytes, l ≠ [] ∧ 13 ∉ l := by
    intro l hl
    obtain ⟨line, hline, rfl⟩ := List.mem_map.mp hl
    obtain ⟨hne, hcr⟩ := hlines line hline
    refine ⟨fun hnil => hne ?_, fun h13 => hcr ?_⟩
    · have hback := fromUtf8_bytes line
      rw [hnil] at hback
      exact (Option.some.inj hback).symm
    · exact mem_of_mem_bytes (by decide) h13
  have hsplit := @Http.splitHead_between (bytes body ++ more) ((status :: headers).map bytes)
    (List.cons_ne_nil _ _) hbytes
  rw [← bytes_between] at hsplit
  have htake : (bytes body ++ more).take (byteLen body) = bytes body := by
    rw [← length_bytes, List.take_left]
  rw [httpBodyIfComplete, headOf, List.append_assoc]
  show (Http.splitHead (_ ++ 13 :: 10 :: 13 :: 10 :: (bytes body ++ more)) >>= _) = _
  rw [hsplit]
  show (fromUtf8 (bytes _) >>= _) = _
  rw [fromUtf8_bytes]
  show (Doh.contentLen
    ((Http.splitPair '\r' '\n' (Http.between '\r' '\n' (status :: headers))).drop 1) >>= _) = _
  rw [Http.splitPair_between (List.cons_ne_nil _ _) fun l hl => (hlines l hl).2]
  show (Doh.contentLen headers >>= _) = _
  rw [hlen.contentLen hsmall]
  show (if byteLen body ≤ (bytes body ++ more).length then _ else _) = _
  rw [if_pos, htake, fromUtf8_bytes]
  rw [List.length_append, length_bytes]
  exact Nat.le_add_right _ _

/-- A response that says how long its body is need not end: its addresses are there as soon as
the body is, in whatever pieces it comes. -/
theorem queryInner_response (path sni : Str) {t : Transport} (htakes : t.Takes) {status : Str}
    {headers : List Str} {body : Str} {more : Bytes}
    (hlines : ∀ line ∈ status :: headers, line ≠ [] ∧ '\r' ∉ line)
    (hlen : Announces (byteLen body) headers)
    (hinput : unread t.reads = headOf (status :: headers) ++ (bytes body ++ more))
    (hsmall : (headOf (status :: headers)).length + byteLen body ≤ 64 * 1024) :
    (queryInner parseJson path sni t).1 = parseDohIps parseJson body := by
  have hbody (rest : Bytes) := @httpBodyIfComplete_headOf status headers body hlines hlen
    (Nat.lt_of_le_of_lt (Nat.le_trans (Nat.le_add_left _ _) hsmall) (by decide)) rest
  rcases queryInner_answers parseJson path sni htakes with hanswer | ⟨-, n, hlong, -, hnone⟩
  · rw [hanswer, hinput, answerOf, hbody]
  · have hfront : (headOf (status :: headers) ++ bytes body).length ≤ n := by
      rw [List.length_append, length_bytes]
      omega
    rw [hinput, ← List.append_assoc, List.take_append, List.take_of_length_le hfront,
      List.append_assoc, hbody] at hnone
    cases hnone

/-- A response with a length, over a connection that breaks after it. -/
def exampleResponse : Transport :=
  ⟨arrive (headOf ["HTTP/1.1 200 OK".toList, "content-length: 40".toList] ++ bytes exampleBody) [],
    .error ⟨.unexpectedEof, "early eof"⟩, [.accept 7, .pending], []⟩

theorem queryInner_response_example :
    (queryInner exampleJson "/q".toList "a".toList exampleResponse).1 =
      parseDohIps exampleJson exampleBody := by
  have hlines : ∀ line ∈ ["HTTP/1.1 200 OK".toList, "content-length: 40".toList],
      line ≠ [] ∧ '\r' ∉ line := by decide
  have hname : eqIgnoreCase "content-length".toList "Content-Length".toList := by decide
  have hinput : unread exampleResponse.reads =
      headOf ["HTTP/1.1 200 OK".toList, "content-length: 40".toList] ++
        (bytes exampleBody ++ []) := by
    decide +kernel
  exact queryInner_response exampleJson "/q".toList "a".toList (by decide) hlines (.here hname)
    hinput (by decide +kernel)

end Doh

end RustClash
