import RustClash.Lib.ByteOrder
import RustClash.Net.Transport

/-!
# The simple-obfs TLS reader

`TlsObfsStream` skips the fake handshake of the server, then takes the bodies out
of the records that follow.  `TlsObfs.decodeSkip` says what that comes to on the
bytes alone, and the stream delivers just this for every way the bytes arrive
(`delivers_decodeSkip`).

The handshake has 102 bytes, and `HELLO_SKIP` is 105: the reader starts in the
middle of the first header (`received_iff`).
-/

namespace RustClash

namespace TlsObfs

def helloSkip : Nat := 96 + 6 + 3

def headerLen : Nat := 5

end TlsObfs

open TlsObfs

/-- Where the reader stands: `left` bytes to skip, a header of which `hdr` has come,
or a body of which `left` bytes are to come. -/
inductive TlsRead where
  | skip (left : Nat)
  | hdr (hdr : Bytes)
  | body (left : Nat)
deriving DecidableEq

structure TlsObfsStream (σ : Type) where
  inner : σ
  host : String
  read : TlsRead

namespace TlsObfsStream

variable {σ : Type}

def new (inner : σ) (host : String) : TlsObfsStream σ := ⟨inner, host, .skip helloSkip⟩

def helloEof : IoError := ⟨.unexpectedEof, "obfs tls hello eof"⟩
def headerEof : IoError := ⟨.unexpectedEof, "obfs tls header eof"⟩
def bodyEof : IoError := ⟨.unexpectedEof, "obfs tls body eof"⟩

/-- What one pass of the loop of `poll_read` does. -/
abbrev Pass (σ : Type) (cap : Nat) :=
  TlsObfsStream σ ⊕ (Answer UInt8 IoError cap × TlsObfsStream σ)

section

variable [AsyncRead σ] {cap : Nat} (st : TlsObfsStream σ)

/-- Read up to `n` bytes and go on with them; the end of the layer below is an error. -/
def fill (n : Nat) (eof : IoError) (next : Filled UInt8 n → TlsObfsStream σ → Pass σ cap) :
    Pass σ cap :=
  match pollRead st.inner n with
  | (.pending, inner) => .inr (.pending, { st with inner })
  | (.ready (.error e), inner) => .inr (.ready (.error e), { st with inner })
  | (.ready (.ok d), inner) =>
      if d.items.isEmpty then .inr (.ready (.error eof), { st with inner })
      else next d { st with inner }

def passSkip (cap left : Nat) : Pass σ cap :=
  st.fill (min left 128) helloEof fun d st =>
    let left := left - d.items.length
    .inl { st with read := if left = 0 then .hdr [] else .skip left }

def passHdr (cap : Nat) (hdr : Bytes) : Pass σ cap :=
  st.fill (headerLen - hdr.length) headerEof fun d st =>
    let hdr := hdr ++ d.items
    if hdr.length < headerLen then .inl { st with read := .hdr hdr }
    else .inl { st with read := .body (ofBe16 (hdr.getD 3 0) (hdr.getD 4 0)) }

def passBody (cap left : Nat) : Pass σ cap :=
  st.fill (min left cap) bodyEof fun d st =>
    let left := left - d.items.length
    .inr (.ready (.ok (d.widen (Nat.min_le_right _ _))),
      { st with read := if left = 0 then .hdr [] else .body left })

def pass (cap : Nat) : Pass σ cap :=
  match st.read with
  | .skip left => st.passSkip cap left
  | .hdr hdr => st.passHdr cap hdr
  | .body left => st.passBody cap left

end

def measure (st : TlsObfsStream σ) : Nat :=
  match st.read with
  | .skip left => headerLen + 2 + left
  | .hdr hdr => headerLen + 1 - hdr.length
  | .body _ => 0

theorem fill_inl [AsyncRead σ] {cap n : Nat} {eof : IoError} {st st' : TlsObfsStream σ}
    {next : Filled UInt8 n → TlsObfsStream σ → Pass σ cap} (h : st.fill n eof next = .inl st') :
    ∃ d inner, d.items ≠ [] ∧ next d { st with inner } = .inl st' := by
  simp only [fill] at h
  split at h
  · cases h
  · cases h
  · next d inner hr =>
      split at h
      · cases h
      · next hd => exact ⟨d, inner, by simpa using hd, h⟩

/-- One pass of the loop of `poll_read`: each that goes round again reads a byte of
the handshake or of a header. -/
def readLoop (σ : Type) [AsyncRead σ] (cap : Nat) :
    Loop (TlsObfsStream σ) (Answer UInt8 IoError cap × TlsObfsStream σ) where
  body st := st.pass cap
  measure := measure
  decreases := by
    intro st st' h
    simp only [pass] at h
    split at h
    · next left hread =>
        obtain ⟨d, inner, hd, h⟩ := fill_inl h
        cases h
        have hpos := List.length_pos_iff.mpr hd
        have hbound := d.bound
        simp only [measure, hread]
        by_cases h0 : left - d.items.length = 0
        · rw [if_pos h0]
          simp only [List.length_nil]
          omega
        · rw [if_neg h0]
          simp only
          omega
    · next hdr hread =>
        obtain ⟨d, inner, hd, h⟩ := fill_inl h
        have := List.length_pos_iff.mpr hd
        have hbound := d.bound
        simp only at h
        split at h
        · next hlt =>
            cases h
            rw [List.length_append] at hlt
            simp only [measure, hread, List.length_append]
            omega
        · cases h
          simp only [measure, hread]
          omega
    · next left hread =>
        obtain ⟨d, inner, hd, h⟩ := fill_inl h
        cases h

instance [AsyncRead σ] : AsyncRead (TlsObfsStream σ) where
  pollRead st cap := (readLoop σ cap).run st

end TlsObfsStream

/-! ## The reference decoder -/

namespace TlsObfs

open TlsObfsStream (helloEof headerEof bodyEof)

/-- The bodies of records, and how their stream ends.  An empty body is taken for the
end of the stream. -/
def decodeRecords (bs : Bytes) (o : End IoError) : Bytes × End IoError :=
  match bs with
  | _ :: _ :: _ :: hi :: lo :: rest =>
      let len := ofBe16 hi lo
      if len = 0 then ([], if rest.isEmpty then o.truncated bodyEof else .error bodyEof)
      else if rest.length < len then (rest, o.truncated bodyEof)
      else End.after (rest.take len) (decodeRecords (rest.drop len) o)
  | _ => ([], o.truncated headerEof)
termination_by bs.length
decreasing_by
  simp only [List.length_cons, List.length_drop]
  omega

/-- A body of which `left` bytes are to come, and the records after it. -/
def decodeBody (left : Nat) (bs : Bytes) (o : End IoError) : Bytes × End IoError :=
  if left = 0 then ([], if bs.isEmpty then o.truncated bodyEof else .error bodyEof)
  else if bs.length < left then (bs, o.truncated bodyEof)
  else End.after (bs.take left) (decodeRecords (bs.drop left) o)

/-- What is behind the bytes that are skipped. -/
def decodeSkip (left : Nat) (bs : Bytes) (o : End IoError) : Bytes × End IoError :=
  if bs.length < left then ([], o.truncated helloEof) else decodeRecords (bs.drop left) o

theorem decodeRecords_header (a b c hi lo : UInt8) (rest : Bytes) (o : End IoError) :
    decodeRecords (a :: b :: c :: hi :: lo :: rest) o = decodeBody (ofBe16 hi lo) rest o := by
  rw [decodeRecords, decodeBody]

theorem decodeRecords_short {bs : Bytes} {o : End IoError} (h : bs.length < headerLen) :
    decodeRecords bs o = ([], o.truncated headerEof) := by
  rw [decodeRecords]
  rintro a b c hi lo rest rfl
  simp only [List.length_cons, headerLen] at h
  omega

/-- Bytes of a body that have arrived come ahead of the rest. -/
theorem decodeBody_append {left : Nat} {d bs : Bytes} {o : End IoError} (hd : d ≠ [])
    (hle : d.length ≤ left) :
    decodeBody left (d ++ bs) o =
      End.after d (if left - d.length = 0 then decodeRecords bs o
        else decodeBody (left - d.length) bs o) := by
  have hpos := List.length_pos_iff.mpr hd
  rw [decodeBody, if_neg (by omega), List.length_append]
  by_cases h0 : left - d.length = 0
  · have hlen : left = d.length := by omega
    rw [if_neg (by omega), if_pos h0, hlen, List.drop_left, List.take_left]
  · rw [if_neg h0, decodeBody, if_neg h0]
    by_cases hlt : d.length + bs.length < left
    · rw [if_pos hlt, if_pos (by omega)]
      rfl
    · rw [if_neg hlt, if_neg (by omega), List.drop_append, List.take_append,
        List.drop_eq_nil_of_le hle, List.take_of_length_le hle, List.nil_append]
      simp only [End.after, List.append_assoc]

end TlsObfs

namespace TlsObfsStream

/-- A state read through the decoder: `bs` are the bytes that are still to come. -/
def decoded {σ : Type} (st : TlsObfsStream σ) (bs : Bytes) (o : End IoError) :
    Bytes × End IoError :=
  match st.read with
  | .skip left => decodeSkip left bs o
  | .hdr hdr => decodeRecords (hdr ++ bs) o
  | .body left => decodeBody left bs o

/-- The phases a reader can be in: something is left to skip, and a header is not
complete. -/
def InPhase : TlsRead → Prop
  | .skip left => 0 < left
  | .hdr hdr => hdr.length < headerLen
  | .body _ => True

/-- What a reader has yet to deliver. -/
structure Yields (st : TlsObfsStream Transport) (items : Bytes) (o : End IoError) : Prop where
  phase : InPhase st.read
  remains : st.decoded (unread st.inner.reads) st.inner.readEnd = (items, o)

variable {cap : Nat} {st : TlsObfsStream Transport} {items : Bytes} {o : End IoError}

def stalls (st : TlsObfsStream Transport) : Nat := ReadLaw.spec.stalls st.inner

/-- Reading with a buffer that is not empty: the answers that end the pass, and the bytes
to go on with. -/
theorem fill_leaves {n : Nat} {eof : IoError}
    {next : Filled UInt8 n → TlsObfsStream Transport → Pass Transport cap} (hy : Yields st items o)
    (hn : 0 < n) (hshort : ∀ o, st.decoded [] o = ([], o.truncated eof))
    (hnext : ∀ (d : Filled UInt8 n) (inner : Transport), d.items ≠ [] →
      st.decoded (d.items ++ unread inner.reads) inner.readEnd = (items, o) →
      RustClash.stalls inner.reads ≤ RustClash.stalls st.inner.reads →
      PassLeaves Yields stalls st items o (next d { st with inner })) :
    PassLeaves Yields stalls st items o (st.fill n eof next) := by
  have hleaves := Transport.readSpec.leaves (s := st.inner) ⟨rfl, rfl⟩ hn
  have hdec := hy.remains
  simp only [fill]
  generalize pollRead st.inner n = r at hleaves ⊢
  rcases r with ⟨_ | e | d, inner⟩
  · obtain ⟨⟨hreads, hend⟩, hlt⟩ := hleaves
    exact ⟨⟨hy.phase, by rw [← hdec, hreads, hend]; rfl⟩, hlt⟩
  · obtain ⟨hreads, hend⟩ := hleaves
    rw [hreads, hend, hshort] at hdec
    cases hdec
    exact ⟨rfl, rfl⟩
  · simp only
    by_cases hd : d.items = []
    · obtain ⟨hreads, hend⟩ := (leaves_eof_iff hd).mp hleaves
      rw [hreads, hend, hshort] at hdec
      cases hdec
      rw [if_pos (by simpa using hd)]
      exact ⟨rfl, rfl⟩
    · obtain ⟨rest, hreads, ⟨rfl, hend⟩, hle⟩ := (leaves_data_iff hd).mp hleaves
      rw [if_neg (by simpa using hd)]
      exact hnext d inner hd (by rw [← hdec, hreads, hend]) hle

theorem passSkip_leaves {left : Nat} (hy : Yields st items o) (hread : st.read = .skip left) :
    PassLeaves Yields stalls st items o (st.passSkip cap left) := by
  have hpos : 0 < left := by
    have := hy.phase
    rwa [hread] at this
  refine fill_leaves hy (Nat.lt_min.mpr ⟨hpos, by decide⟩) (fun o => ?_) ?_
  · rw [decoded, hread]
    exact if_pos hpos
  · intro d inner hd hdec hle
    have hbound : d.items.length ≤ left := Nat.le_trans d.bound (Nat.min_le_left _ _)
    rw [decoded, hread] at hdec
    have hskip : ∀ o, decodeSkip left (d.items ++ unread inner.reads) o =
        if left - d.items.length = 0 then decodeRecords (unread inner.reads) o
        else decodeSkip (left - d.items.length) (unread inner.reads) o := by
      intro o
      rw [decodeSkip, List.length_append, List.drop_append, List.drop_eq_nil_of_le hbound,
        List.nil_append]
      by_cases h0 : left - d.items.length = 0
      · rw [if_pos h0, if_neg (by omega), h0]
        rfl
      · rw [if_neg h0, decodeSkip]
        by_cases hlt : (unread inner.reads).length < left - d.items.length
        · rw [if_pos hlt, if_pos (by omega)]
        · rw [if_neg hlt, if_neg (by omega)]
    simp only at hdec
    rw [hskip] at hdec
    by_cases h0 : left - d.items.length = 0
    · rw [if_pos h0] at hdec
      exact ⟨⟨by simp [h0, InPhase, headerLen], by simpa [decoded, h0] using hdec⟩, hle⟩
    · rw [if_neg h0] at hdec
      exact ⟨⟨by simp [h0, InPhase]; omega, by simpa [decoded, h0] using hdec⟩, hle⟩

theorem passHdr_leaves {hdr : Bytes} (hy : Yields st items o) (hread : st.read = .hdr hdr) :
    PassLeaves Yields stalls st items o (st.passHdr cap hdr) := by
  have hshort : hdr.length < headerLen := by
    have := hy.phase
    rwa [hread] at this
  refine fill_leaves hy (Nat.sub_pos_of_lt hshort) (fun o => ?_) ?_
  · rw [decoded, hread]
    simp only
    rw [List.append_nil, decodeRecords_short hshort]
  · intro d inner hd hdec hle
    have hbound := d.bound
    rw [decoded, hread] at hdec
    simp only at hdec ⊢
    rw [← List.append_assoc] at hdec
    split
    · next hlt => exact ⟨⟨hlt, hdec⟩, hle⟩
    · next hge =>
        have hlen : (hdr ++ d.items).length = headerLen := by
          rw [List.length_append] at hge ⊢
          omega
        obtain ⟨a, b, c, hi, lo, heq⟩ : ∃ a b c hi lo, hdr ++ d.items = [a, b, c, hi, lo] := by
          match h : hdr ++ d.items with
          | [a, b, c, hi, lo] => exact ⟨a, b, c, hi, lo, rfl⟩
          | [] | [_] | [_, _] | [_, _, _] | [_, _, _, _] | _ :: _ :: _ :: _ :: _ :: _ :: _ =>
              rw [h] at hlen
              simp [headerLen] at hlen
        rw [heq] at hdec ⊢
        exact ⟨⟨trivial, hdec ▸ (decodeRecords_header a b c hi lo _ _).symm⟩, hle⟩

/-- A body of no bytes is read with an empty buffer. -/
theorem passBody_zero_leaves (hy : Yields st items o) (hread : st.read = .body 0) :
    PassLeaves Yields stalls st items o (st.passBody cap 0) := by
  have hzero := Transport.pollRead_zero st.inner (Nat.zero_min cap)
  have hdec := hy.remains
  rw [decoded, hread] at hdec
  simp only at hdec
  rw [decodeBody, if_pos rfl] at hdec
  simp only [passBody, fill]
  generalize pollRead st.inner (min 0 cap) = r at hzero ⊢
  rcases r with ⟨_ | e | d, inner⟩
  · obtain ⟨hreads, hend, hlt⟩ := hzero
    refine ⟨⟨hy.phase, ?_⟩, hlt⟩
    rw [decoded, hread, hreads, hend]
    simp only
    rw [decodeBody, if_pos rfl, hdec]
  · obtain ⟨hnil, hend⟩ := hzero
    rw [hnil, hend] at hdec
    cases hdec
    exact ⟨rfl, rfl⟩
  · obtain ⟨hd, hmore⟩ := hzero
    simp only
    rw [if_pos (by simpa using hd)]
    have : (if (unread st.inner.reads).isEmpty then st.inner.readEnd.truncated bodyEof
        else .error bodyEof) = .error bodyEof := by
      rcases hmore with hne | hend
      · rw [if_neg (by simpa using hne)]
      · rw [hend]
        split <;> rfl
    rw [this] at hdec
    cases hdec
    exact ⟨rfl, rfl⟩

theorem passBody_leaves {left : Nat} (hy : Yields st items o) (hread : st.read = .body left)
    (hcap : 0 < cap) : PassLeaves Yields stalls st items o (st.passBody cap left) := by
  rcases Nat.eq_zero_or_pos left with rfl | hpos
  · exact passBody_zero_leaves hy hread
  · refine fill_leaves hy (Nat.lt_min.mpr ⟨hpos, hcap⟩) (fun o => ?_) ?_
    · rw [decoded, hread]
      simp only
      rw [decodeBody, if_neg (Nat.ne_of_gt hpos), List.length_nil, if_pos hpos]
    · intro d inner hd hdec hle
      have hbound : d.items.length ≤ left := Nat.le_trans d.bound (Nat.min_le_left _ _)
      rw [decoded, hread] at hdec
      simp only at hdec
      rw [decodeBody_append hd hbound] at hdec
      cases hdec
      refine (leaves_data_iff hd).mpr ⟨_, rfl, ⟨?_, ?_⟩, hle⟩
      · by_cases h0 : left - d.items.length = 0
        · simp [h0, InPhase, headerLen]
        · simp [h0, InPhase]
      · by_cases h0 : left - d.items.length = 0
        · simp [h0, decoded]
        · simp [h0, decoded]

def readSpec : ReadSpec (pollRead : ReadFn (TlsObfsStream Transport) UInt8 IoError) :=
  ReadSpec.ofLoop (readLoop Transport) Yields stalls <| by
    intro st items o cap hy hcap
    show PassLeaves Yields stalls st items o (st.pass cap)
    simp only [pass]
    split
    · next hread => exact passSkip_leaves hy hread
    · next hread => exact passHdr_leaves hy hread
    · next hread => exact passBody_leaves hy hread hcap

/-- However the bytes of the server arrive, and whatever buffers the stream is read
with, it delivers what the decoder makes of them. -/
theorem delivers_decodeSkip (host : String) (left : Nat) (hleft : 0 < left) (reads : List ReadEvent)
    (readEnd : End IoError) :
    Delivers pollRead (⟨Transport.serving reads readEnd, host, .skip left⟩ : TlsObfsStream Transport)
      (decodeSkip left (unread reads) readEnd).1 (decodeSkip left (unread reads) readEnd).2 :=
  readSpec.delivers ⟨hleft, rfl⟩

end TlsObfsStream

/-! ## Server streams -/

namespace TlsObfs

/-- A record of a server: type and version, and a body with its length before it. -/
structure ObfsRecord where
  head : Octets 3
  body : Bytes
  nonempty : body ≠ []
  fits : body.length < 65536

def ObfsRecord.bytes (r : ObfsRecord) : Bytes := r.head.bytes ++ toBe16 r.body.length ++ r.body

def bodies (recs : List ObfsRecord) : Bytes := recs.flatMap ObfsRecord.body

/-- The ServerHello and ChangeCipherSpec records, and the records after them. -/
def serverStream (hello : Octets 96) (ccs : Octets 6) (recs : List ObfsRecord) : Bytes :=
  hello.bytes ++ (ccs.bytes ++ recs.flatMap ObfsRecord.bytes)

theorem ObfsRecord.length_bytes (r : ObfsRecord) :
    r.bytes.length = headerLen + r.body.length := by
  simp only [bytes, List.length_append, r.head.size, length_toBe16, headerLen]

/-- Only the bytes after a header are delivered. -/
theorem length_decodeRecords (bs : Bytes) (o : End IoError) :
    (decodeRecords bs o).1 = [] ∨ (decodeRecords bs o).1.length + headerLen ≤ bs.length := by
  induction bs using decodeRecords.induct with
  | case1 a b c hi lo rest len h0 =>
      rw [decodeRecords]
      exact Or.inl (by rw [if_pos h0])
  | case2 a b c hi lo rest len h0 hlt =>
      rw [decodeRecords]
      refine Or.inr ?_
      rw [if_neg h0, if_pos hlt]
      simp only [List.length_cons, headerLen]
      omega
  | case3 a b c hi lo rest len h0 hlt ih =>
      rw [decodeRecords]
      refine Or.inr ?_
      rw [if_neg h0, if_neg hlt]
      simp only [End.after, List.length_append, List.length_take, List.length_cons, headerLen]
      simp only [len, List.length_drop, headerLen] at ih hlt
      rcases ih with hnil | hle
      · rw [hnil, List.length_nil]
        omega
      · omega
  | case4 bs hshort =>
      rw [decodeRecords]
      · exact Or.inl rfl
      · exact hshort

/-- What a stream is to make of a server's bytes: the bodies, however the bytes
arrive and the stream is read. -/
def Received (host : String) (hello : Octets 96) (ccs : Octets 6) (recs : List ObfsRecord) : Prop :=
  ∀ reads readEnd, unread reads = serverStream hello ccs recs →
    ∃ o, Delivers pollRead (TlsObfsStream.new (Transport.serving reads readEnd) host)
      (bodies recs) o

theorem length_serverStream (hello : Octets 96) (ccs : Octets 6) (recs : List ObfsRecord) :
    (serverStream hello ccs recs).length = 102 + (recs.flatMap ObfsRecord.bytes).length := by
  rw [serverStream, List.length_append, List.length_append, hello.size, ccs.size]
  omega

/-- A server that sends one record only is never received: past the bytes skipped there
are fewer bytes than a header and the body. -/
theorem not_received_one (host : String) (hello : Octets 96) (ccs : Octets 6) (r : ObfsRecord) :
    ¬ Received host hello ccs [r] := by
  intro h
  obtain ⟨o, hd⟩ := h (arrive (serverStream hello ccs [r]) []) .eof (by simp [unread])
  have hd' := TlsObfsStream.delivers_decodeSkip host helloSkip (by decide)
    (arrive (serverStream hello ccs [r]) []) .eof
  obtain ⟨hbody, -⟩ := hd.unique hd'
  have hlen := length_serverStream hello ccs [r]
  have hpos := List.length_pos_iff.mpr r.nonempty
  simp only [List.flatMap_cons, List.flatMap_nil, List.append_nil, r.length_bytes, headerLen] at hlen
  rw [unread_arrive, unread, List.append_nil, decodeSkip,
    if_neg (by rw [hlen, helloSkip]; omega)] at hbody
  have hbodies : bodies [r] = r.body := by simp [bodies]
  rw [hbodies] at hbody
  have hle := length_decodeRecords ((serverStream hello ccs [r]).drop helloSkip) .eof
  rw [← hbody, List.length_drop, hlen, helloSkip, headerLen] at hle
  rcases hle with hnil | hle
  · exact r.nonempty hnil
  · omega

/-- Take the records of a server as they come, each of them the last so far.  What has
been sent is received at every point exactly if there is no record at all. -/
theorem received_iff (host : String) (hello : Octets 96) (ccs : Octets 6)
    (recs : List ObfsRecord) :
    (∀ k, Received host hello ccs (recs.take k)) ↔ recs = [] := by
  constructor
  · intro h
    cases recs with
    | nil => rfl
    | cons r recs => exact absurd (h 1) (not_received_one host hello ccs r)
  · rintro rfl k reads readEnd hreads
    rw [List.take_nil] at hreads ⊢
    have hd := TlsObfsStream.delivers_decodeSkip host helloSkip (by decide) reads readEnd
    have hlen := length_serverStream hello ccs []
    rw [hreads, decodeSkip, if_pos (by rw [hlen]; decide)] at hd
    exact ⟨_, hd⟩

/-- Two bytes in one record, all at once: the stream delivers nothing. -/
theorem received_fails :
    ¬ Received "a.b" ⟨List.replicate 96 0, rfl⟩ ⟨List.replicate 6 0, rfl⟩
      [⟨⟨[0x17, 3, 3], rfl⟩, [104, 105], by decide, by decide⟩] := by
  intro h
  obtain ⟨o, hd⟩ := h (.data 0 (List.replicate 101 0 ++ [0x17, 3, 3, 0, 2, 104, 105]) :: []) .eof rfl
  have := (hd.at_end [1] (.error TlsObfsStream.headerEof) (by decide) (by decide +kernel)).1
  revert this
  decide +kernel

end TlsObfs

end RustClash
