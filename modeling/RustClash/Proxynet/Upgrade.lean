import RustClash.Core.Text
import RustClash.Net.Exchange
import RustClash.Proxynet.Dial
import RustClash.Proxynet.HttpObfsRead
import RustClash.Proxynet.WsDecode

/-!
# Upgrading a transport

`http_upgrade` asks for the upgrade and reads the answer in pieces of up to 1024 bytes, so the
last of them may hold more than the answer.  `apply_transport` hands the rest on, in front of
what is still to come.
-/

namespace RustClash

namespace Upgrade

open Str

/-! ## The answer -/

def closed : ProxyError :=
  ⟨.transportUpgradeFailed, "The proxy closed the connection during the HTTP upgrade handshake."⟩
def malformed : ProxyError := ⟨.transportUpgradeFailed,
  "The proxy returned a malformed HTTP response to the upgrade request."⟩
def noAccept : ProxyError := ⟨.transportUpgradeFailed,
  "The proxy accepted the upgrade but sent no Sec-WebSocket-Accept header."⟩
def wrongAccept : ProxyError :=
  ⟨.transportUpgradeFailed, "The proxy's Sec-WebSocket-Accept did not match the challenge."⟩
def tooLarge : ProxyError := ⟨.transportUpgradeFailed, "HTTP upgrade response too large"⟩

def refused (status : Int) : ProxyError :=
  let status := String.ofList (ofInt status)
  ⟨.transportUpgradeFailed, s!"The proxy refused the HTTP upgrade with status {status} (expected 101). The configured path is the usual cause."⟩

def findHeaderEnd (buf : Bytes) : Option Nat := HttpObfs.findHeaderEnd buf

/-- `strip_suffix(b"\r")`, if there is one. -/
def stripCr (line : Bytes) : Bytes := if line.getLast? = some 13 then line.dropLast else line

def parseStatus (header : Bytes) : Option Int := do
  let line ← (header.splitOn 10).head?
  let code ← ((stripCr line).splitOn 32)[1]?
  parseI32 (← fromUtf8 code)

def lowerByte (b : UInt8) : UInt8 := if 65 ≤ b ∧ b ≤ 90 then b + 32 else b

def eqIgnoreAscii (a lower : Bytes) : Bool :=
  a.length == lower.length && (a.zip lower).all fun (x, y) => lowerByte x == y

def isBlank (b : UInt8) : Bool := b == 32 || b == 9

/-- The loop of `header_value` over the lines behind the first one. -/
def valueIn (name : Bytes) : List Bytes → Option Bytes
  | [] => none
  | line :: lines =>
      let line := stripCr line
      if line.isEmpty then none
      else
        match line.findIdx? (· == 58) with
        | none => none
        | some colon =>
            if colon ≠ name.length ∨ !eqIgnoreAscii (line.take colon) name then valueIn name lines
            else some (((line.drop (colon + 1)).dropWhile isBlank).rdropWhile isBlank)

def headerValue (headers name : Bytes) : Option Bytes := valueIn name ((headers.splitOn 10).drop 1)

/-- What `http_upgrade` makes of a header. -/
def judge (expectedAccept : Option Bytes) (header : Bytes) : Except ProxyError Unit :=
  let status := (parseStatus header).getD (-1)
  if status ≠ 101 then .error (if status < 0 then malformed else refused status)
  else
    match expectedAccept with
    | none => .ok ()
    | some expected =>
        match headerValue header (ascii "sec-websocket-accept") with
        | none => .error noAccept
        | some actual => if actual ≠ expected then .error wrongAccept else .ok ()

/-! ## The request -/

def wsGuid : Bytes := ascii "258EAFA5-E914-47DA-95CA-C5AB0DC85B11"

variable (crates : DialCrates)

/-- The header `Sec-WebSocket-Accept` that answers a key. -/
def acceptOf (key : Octets 16) : Bytes :=
  utf8 (crates.base64.encode
    (crates.primitives.sha1 (utf8 (crates.base64.encode key.bytes) ++ wsGuid)).bytes)

def request (path host : Str) (key : Option (Octets 16)) : Bytes :=
  ascii "GET " ++ bytes path ++ ascii " HTTP/1.1\r\nHost: " ++ bytes host ++
    ascii "\r\nUpgrade: websocket\r\nConnection: Upgrade\r\n" ++
    (match key with
      | some key => ascii "Sec-WebSocket-Key: " ++ utf8 (crates.base64.encode key.bytes) ++
          ascii "\r\nSec-WebSocket-Version: 13\r\n"
      | none => []) ++ ascii "\r\n"

/-! ## Reading the answer -/

/-- One round of the loop, with `buf` at hand. -/
def round (expectedAccept : Option Bytes) (buf : Bytes) (t : Transport) :
    (Bytes × Transport) ⊕ (Except ProxyError Bytes × Transport) :=
  match t.read 1024 with
  | (.error e, t) => .inr (.error (TlsRecordStream.ofIo e), t)
  | (.ok d, t) =>
      if d.items.isEmpty then .inr (.error closed, t)
      else
        let buf := buf ++ d.items
        match findHeaderEnd buf with
        | some pos => .inr ((judge expectedAccept (buf.take pos)).map fun _ => buf.drop pos, t)
        | none => if 64 * 1024 < buf.length then .inr (.error tooLarge, t) else .inl (buf, t)

/-- What a round reads. -/
inductive Round (expectedAccept : Option Bytes) (buf : Bytes) (t : Transport) :
    (Bytes × Transport) ⊕ (Except ProxyError Bytes × Transport) → Prop
| more {d : Bytes} {t' : Transport} :
  d ≠ [] ->
  unread t.reads = d ++ unread t'.reads ->
  t'.readEnd = t.readEnd ->
  findHeaderEnd (buf ++ d) = none ->
  Round expectedAccept buf t (.inl (buf ++ d, t'))
| header {d : Bytes} {t' : Transport} {pos : Nat} :
  unread t.reads = d ++ unread t'.reads ->
  t'.readEnd = t.readEnd ->
  findHeaderEnd (buf ++ d) = some pos ->
  Round expectedAccept buf t
    (.inr ((judge expectedAccept ((buf ++ d).take pos)).map fun _ => (buf ++ d).drop pos, t'))
| large {d : Bytes} {t' : Transport} :
  unread t.reads = d ++ unread t'.reads ->
  findHeaderEnd (buf ++ d) = none ->
  64 * 1024 < (buf ++ d).length ->
  Round expectedAccept buf t (.inr (.error tooLarge, t'))
| ended {e : ProxyError} {t' : Transport} :
  unread t.reads = [] ->
  Round expectedAccept buf t (.inr (.error e, t'))

theorem round_reads (expectedAccept : Option Bytes) (buf : Bytes) (t : Transport) :
    Round expectedAccept buf t (round expectedAccept buf t) := by
  have hspec := Transport.read_spec (by decide : 0 < 1024) t
  simp only [round]
  generalize t.read 1024 = r at hspec
  cases hspec with
  | error hnil _ => exact .ended hnil
  | eof hd hnil _ =>
      dsimp only
      rw [if_pos (by simpa using hd)]
      exact .ended hnil
  | @data d t' hd hunread hend =>
      dsimp only
      rw [if_neg (by simpa using hd)]
      cases hpos : findHeaderEnd (buf ++ d.items) with
      | some pos => exact .header hunread hend hpos
      | none =>
          dsimp only
          split
          · next hlarge => exact .large hunread hpos hlarge
          · exact .more hd hunread hend hpos

def rounds (expectedAccept : Option Bytes) :
    Loop (Bytes × Transport) (Except ProxyError Bytes × Transport) where
  body st := round expectedAccept st.1 st.2
  measure st := (unread st.2.reads).length
  decreases := by
    rintro ⟨buf, t⟩ st' h
    have hround := round_reads expectedAccept buf t
    rw [show round expectedAccept buf t = .inl st' from h] at hround
    cases hround with
    | @more d t' hd hunread _ _ =>
        have hpos := List.length_pos_iff.mpr hd
        dsimp only
        rw [hunread, List.length_append]
        omega

/-- The header that ends where the search says. -/
theorem findHeaderEnd_block : ∀ {bs : Bytes} {pos : Nat}, findHeaderEnd bs = some pos →
    HttpObfs.HeaderBlock (bs.take pos) ∧ pos ≤ bs.length
  | [], _, h => by cases h
  | b :: bs, pos, h => by
      rw [findHeaderEnd, HttpObfs.findHeaderEnd] at h
      split at h
      · next hpre =>
          cases h
          obtain ⟨rest, hrest⟩ := List.isPrefixOf_iff_prefix.mp hpre
          rw [← hrest]
          exact ⟨⟨[], rfl⟩, by simp⟩
      · next hpre =>
          obtain ⟨n, hn, rfl⟩ := Option.map_eq_some_iff.mp h
          obtain ⟨⟨head, hhead⟩, hle⟩ := findHeaderEnd_block hn
          refine ⟨⟨b :: head, ?_⟩, Nat.succ_le_succ hle⟩
          have hpre' : ¬ ([13, 10, 13, 10] : Bytes).isPrefixOf (b :: bs.take n) := by
            intro hp
            refine hpre (List.isPrefixOf_iff_prefix.mpr ?_)
            exact (List.isPrefixOf_iff_prefix.mp hp).trans
              (List.take_prefix (n + 1) (b :: bs))
          rw [List.take_succ_cons, Http.splitHead, if_neg hpre', hhead]
          rfl

/-- What begins with a header ends it where the header ends, and no part of it does. -/
theorem findHeaderEnd_of_block {block buf rest more : Bytes} (h : HttpObfs.HeaderBlock block)
    (heq : buf ++ rest = block ++ more) : findHeaderEnd buf =
      if block.length ≤ buf.length then some block.length else none := by
  split
  · next hle =>
      obtain ⟨x, rfl⟩ : block <+: buf :=
        List.prefix_of_prefix_length_le (List.prefix_append _ _) (heq ▸ List.prefix_append _ _) hle
      exact h.findHeaderEnd x
  · next hlt =>
      obtain ⟨x, hx⟩ : buf <+: block :=
        List.prefix_of_prefix_length_le (heq ▸ List.prefix_append _ _) (List.prefix_append _ _)
          (by omega)
      refine h.findHeaderEnd_part hx ?_
      rintro rfl
      rw [← hx, List.append_nil] at hlt
      exact hlt (Nat.le_refl _)

/-- The header of an answer that is accepted. -/
def Accepted (expectedAccept : Option Bytes) (block : Bytes) : Prop :=
  HttpObfs.HeaderBlock block ∧ judge expectedAccept block = .ok ()

/-- The longest header that is read however it comes in. -/
def maxBlock : Nat := 64 * 1024 + 1

/-- What the loop answers, when `all` is at hand or to come: the bytes behind an accepted
header, or an error where there is none, or a long one. -/
inductive Answers (expectedAccept : Option Bytes) (all : Bytes) (o : End IoError) :
    Except ProxyError Bytes × Transport → Prop
| ok {block leftover : Bytes} {t' : Transport} :
  Accepted expectedAccept block ->
  all = block ++ (leftover ++ unread t'.reads) ->
  t'.readEnd = o ->
  Answers expectedAccept all o (.ok leftover, t')
| error {e : ProxyError} {t' : Transport} :
  (∀ block payload, Accepted expectedAccept block → block.length ≤ maxBlock →
    all ≠ block ++ payload) ->
  Answers expectedAccept all o (.error e, t')

theorem rounds_answers (expectedAccept : Option Bytes) (buf : Bytes) (t : Transport)
    (hbuf : findHeaderEnd buf = none) : Answers expectedAccept (buf ++ unread t.reads) t.readEnd
      ((rounds expectedAccept).run (buf, t)) := by
  refine Loop.rule (l := rounds expectedAccept) (P := fun st r => findHeaderEnd st.1 = none →
    Answers expectedAccept (st.1 ++ unread st.2.reads) st.2.readEnd r) ?_ ?_ (buf, t) hbuf
  · rintro ⟨buf, t⟩ st' r hb ih hbuf
    have hround := round_reads expectedAccept buf t
    rw [show round expectedAccept buf t = .inl st' from hb] at hround
    cases hround with
    | more hd hunread hend hnone =>
        dsimp only at ih ⊢
        rw [hunread, ← List.append_assoc, ← hend]
        exact ih hnone
  · rintro ⟨buf, t⟩ r hb hbuf
    have hround := round_reads expectedAccept buf t
    rw [show round expectedAccept buf t = .inr r from hb] at hround
    dsimp only at hbuf ⊢
    cases hround with
    | @header d t' pos hunread hend hpos =>
        obtain ⟨hblock, hle⟩ := findHeaderEnd_block hpos
        have hall : buf ++ unread t.reads = (buf ++ d).take pos ++
            ((buf ++ d).drop pos ++ unread t'.reads) := by
          rw [hunread, ← List.append_assoc, ← List.append_assoc, List.take_append_drop]
        cases hjudge : judge expectedAccept ((buf ++ d).take pos) with
        | ok u => exact .ok ⟨hblock, hjudge⟩ hall hend
        | error e =>
            refine .error ?_
            rintro block payload ⟨hblock', hjudge'⟩ - heq
            have hcut : (buf ++ d) ++ unread t'.reads = block ++ payload := by
              rw [List.append_assoc, ← hunread, heq]
            have hfind := findHeaderEnd_of_block hblock' hcut
            rw [hpos] at hfind
            split at hfind
            · cases hfind
              have htake : (buf ++ d).take block.length = block := by
                rw [hunread, ← List.append_assoc] at heq
                have hcut := congrArg (List.take block.length) heq
                rwa [List.take_append_of_le_length hle, List.take_left] at hcut
              rw [htake, hjudge'] at hjudge
              cases hjudge
            · cases hfind
    | @large d t' hunread hnone hlarge =>
        refine .error ?_
        rintro block payload ⟨hblock, -⟩ hmax heq
        have hcut : (buf ++ d) ++ unread t'.reads = block ++ payload := by
          rw [List.append_assoc, ← hunread, heq]
        have hfind := findHeaderEnd_of_block hblock hcut
        have hmax : block.length ≤ 64 * 1024 + 1 := hmax
        rw [if_pos (by omega), hnone] at hfind
        cases hfind
    | ended hnil =>
        refine .error ?_
        rintro block payload ⟨hblock, -⟩ - heq
        rw [hnil] at heq
        have hfind := findHeaderEnd_of_block hblock heq
        have hlen := congrArg List.length heq
        rw [List.append_nil, List.length_append] at hlen
        rw [if_pos (by omega), hbuf] at hfind
        cases hfind

/-- What is read behind the answer, and the transport behind that. -/
def httpUpgrade (t : Transport) (path host : Str) (key : Option (Octets 16)) :
    Except ProxyError Bytes × Transport :=
  match t.writeAll (request crates path host key) with
  | (.error e, t) => (.error (TlsRecordStream.ofIo e), t)
  | (.ok (), t) => (rounds (key.map (acceptOf crates))).run ([], t)

variable {crates}

theorem httpUpgrade_ok {t t' : Transport} {path host : Str} {key : Option (Octets 16)}
    {leftover : Bytes} (h : httpUpgrade crates t path host key = (.ok leftover, t')) :
    ∃ block, Accepted (key.map (acceptOf crates)) block ∧
      unread t.reads = block ++ (leftover ++ unread t'.reads) ∧ t'.readEnd = t.readEnd := by
  obtain ⟨sent, -, hwrote, -⟩ := Transport.writeAll_spec t (request crates path host key)
  rw [httpUpgrade] at h
  generalize t.writeAll (request crates path host key) = r at h hwrote
  obtain ⟨_ | _, t₁⟩ := r
  · cases h
  · have hanswers := rounds_answers (key.map (acceptOf crates)) [] t₁ rfl
    have h : (rounds (key.map (acceptOf crates))).run ([], t₁) = (.ok leftover, t') := h
    rw [h, List.nil_append, hwrote.reads, hwrote.readEnd] at hanswers
    cases hanswers with
    | ok haccepted hall hend => exact ⟨_, haccepted, hall, hend⟩

theorem httpUpgrade_succeeds (crates : DialCrates) {t : Transport} (path host : Str)
    (key : Option (Octets 16)) {block payload : Bytes} (hwrites : t.writes = [])
    (hblock : Accepted (key.map (acceptOf crates)) block) (hlen : block.length ≤ maxBlock)
    (hall : unread t.reads = block ++ payload) :
    ∃ leftover t', httpUpgrade crates t path host key = (.ok leftover, t') := by
  obtain ⟨sent, -, hwrote, -⟩ := Transport.writeAll_spec t (request crates path host key)
  obtain ⟨hok, -⟩ := Transport.writeAll_willing (request crates path host key) hwrites
  rw [httpUpgrade]
  generalize t.writeAll (request crates path host key) = r at hok hwrote
  obtain ⟨_ | _, t₁⟩ := r
  · cases hok
  · have hanswers := rounds_answers (key.map (acceptOf crates)) [] t₁ rfl
    rw [List.nil_append, hwrote.reads, hwrote.readEnd, hall] at hanswers
    show ∃ leftover t', (rounds (key.map (acceptOf crates))).run ([], t₁) = (.ok leftover, t')
    generalize (rounds (key.map (acceptOf crates))).run ([], t₁) = r at hanswers
    cases hanswers with
    | ok => exact ⟨_, _, rfl⟩
    | error hnone => exact absurd rfl (hnone block payload hblock hlen)

end Upgrade

/-! ## Upgraded transports -/

/-- The stream that `apply_transport` returns. -/
inductive Upgraded where
  | raw (t : Transport)
  | prefixed (st : PrefixedStream Transport)
  | webSocket (st : WebSocketStream Transport)

namespace Upgraded

instance : AsyncRead Upgraded where
  pollRead st cap :=
    match st with
    | .raw t => let (r, t) := pollRead t cap; (r, .raw t)
    | .prefixed st => let (r, st) := pollRead st cap; (r, .prefixed st)
    | .webSocket st => let (r, st) := pollRead st cap; (r, .webSocket st)

def Yields : Upgraded → Bytes → End IoError → Prop
  | .raw t => Transport.readSpec.Yields t
  | .prefixed st => (PrefixedStream.readSpec Transport.readSpec).Yields st
  | .webSocket st => WebSocketStream.streamSpec.Yields st

def stalls : Upgraded → Nat
  | .raw t => Transport.readSpec.stalls t
  | .prefixed st => (PrefixedStream.readSpec Transport.readSpec).stalls st
  | .webSocket st => WebSocketStream.streamSpec.stalls st

/-- An upgraded transport yields what the stream in it does. -/
def readSpec : ReadSpec (pollRead : ReadFn Upgraded UInt8 IoError) where
  Yields := Yields
  stalls := stalls
  leaves := by
    intro st items o cap hy hcap
    cases st with
    | raw t => exact (Transport.readSpec.leaves hy hcap).handOn (fun _ _ h => h) rfl rfl
    | prefixed st =>
        exact ((PrefixedStream.readSpec Transport.readSpec).leaves hy hcap).handOn
          (fun _ _ h => h) rfl rfl
    | webSocket st =>
        exact (WebSocketStream.streamSpec.leaves hy hcap).handOn (fun _ _ h => h) rfl rfl

end Upgraded

namespace Upgrade

open Config Str

/-- `apply_transport`; `key` and `rng` are what a WebSocket draws. -/
def applyTransport (crates : DialCrates) (kind : TransportKind) (path : Option Str)
    (hostHeader : Str) (key : Octets 16) (rng : Nat → UInt8) (t : Transport) :
    Except ProxyError Upgraded :=
  match kind with
  | .rawTcp => .ok (.raw t)
  | .webSocket =>
      match httpUpgrade crates t (normalizePath path) hostHeader (some key) with
      | (.error e, _) => .error e
      | (.ok leftover, t) => .ok (.webSocket (.new t leftover rng))
  | .httpUpgrade =>
      match httpUpgrade crates t (normalizePath path) hostHeader none with
      | (.error e, _) => .error e
      | (.ok leftover, t) =>
          if leftover.isEmpty then .ok (.raw t) else .ok (.prefixed ⟨leftover, 0, t⟩)
  | .unsupported => .error ⟨.transportUpgradeFailed, "unsupported transport"⟩

end Upgrade

end RustClash
