import RustClash.Lib.ByteOrder
import RustClash.Lib.Loop
import RustClash.Lib.Symmetric
import RustClash.Proxynet.Error

/-!
# TLS records

`TlsRecordStream` cuts what its transport delivers into records, opens them once
there are read keys, and seals what is written, one record at a time.  The bytes
of `inbound` between `start` and `end` are all that is kept of the buffer, which
grows when it is full.  The AEAD under a traffic key is a parameter of its
`RecordProtection`.
-/

namespace RustClash

namespace Reality

def maxPlaintext : Nat := 16384
def maxCiphertext : Nat := maxPlaintext + 256
def tagLen : Nat := 16
def nonceLen : Nat := 12
def headerLen : Nat := 5

inductive ContentType where
  | changeCipherSpec
  | alert
  | handshake
  | applicationData
deriving DecidableEq, Repr

namespace ContentType

def toU8 : ContentType → UInt8
  | changeCipherSpec => 20
  | alert => 21
  | handshake => 22
  | applicationData => 23

def fromU8 (v : UInt8) : Option ContentType :=
  if v = 20 then some changeCipherSpec
  else if v = 21 then some alert
  else if v = 22 then some handshake
  else if v = 23 then some applicationData
  else none

end ContentType

def hsErr (message : String) : ProxyError := ⟨.invalidResponse, message⟩
def authErr (message : String) : ProxyError := ⟨.authFailed, message⟩

structure RecordProtection where
  iv : Octets nonceLen
  aead : Aead UInt8
  seq : UInt64

def buildNonce (iv : Bytes) (seq : UInt64) : Bytes :=
  iv.take 4 ++ toBe 8 (ofBe (iv.drop 4) ^^^ seq.toNat)

namespace RecordProtection

def protect (p : RecordProtection) (plaintext header : Bytes) : Bytes × RecordProtection :=
  (p.aead.encrypt (buildNonce p.iv.bytes p.seq) header plaintext, { p with seq := p.seq + 1 })

def unprotect (p : RecordProtection) (ciphertextAndTag header : Bytes) :
    Except ProxyError Bytes × RecordProtection :=
  (match p.aead.decrypt (buildNonce p.iv.bytes p.seq) header ciphertextAndTag with
    | some plaintext => .ok plaintext
    | none => .error (authErr "A TLS record from the peer failed authentication, so it was not produced under this session's keys."),
    { p with seq := p.seq + 1 })

end RecordProtection

structure Record where
  ty : ContentType
  payload : Bytes

end Reality

open Reality

structure TlsRecordStream (τ : Type) where
  transport : τ
  inbound : Bytes
  outbound : Bytes
  outboundOff : Nat
  outboundPlain : Nat
  write : Option RecordProtection
  read : Option RecordProtection

namespace TlsRecordStream

variable {τ : Type}

def new (transport : τ) : TlsRecordStream τ := ⟨transport, [], [], 0, 0, none, none⟩

/-! ## Reading -/

/-- The content type at the end of an opened record and the payload before it. -/
def innerRecord (inner : Bytes) : Except ProxyError Record :=
  match inner.reverse.dropWhile (· == 0) with
  | [] => .error (hsErr "The peer sent a TLS record with no content type.")
  | ty :: payload =>
      match ContentType.fromU8 ty with
      | some real => .ok ⟨real, payload.reverse⟩
      | none => .error (hsErr "bad inner type")

/-- The record of type `ty` at the head of the buffer, which is not there any more. -/
def openRecord (st : TlsRecordStream τ) (ty : ContentType) (header body : Bytes) :
    Except ProxyError (Option Record) × TlsRecordStream τ :=
  match st.read with
  | none => (.ok (some ⟨ty, body⟩), st)
  | some read =>
      if ty = .changeCipherSpec then (.ok (some ⟨ty, body⟩), st)
      else if body.length < tagLen then
        (.error (hsErr "The peer sent an encrypted TLS record shorter than its own tag."), st)
      else
        let (opened, read) := read.unprotect body header
        (opened >>= innerRecord |>.map some, { st with read := some read })

def tryReadBuffered (st : TlsRecordStream τ) :
    Except ProxyError (Option Record) × TlsRecordStream τ :=
  if st.inbound.length < headerLen then (.ok none, st)
  else
    let header := st.inbound.take headerLen
    let length := ofBe16 (header.getD 3 0) (header.getD 4 0)
    if maxCiphertext < length then
      (.error (hsErr s!"The peer sent a {length}-byte TLS record, over the {maxCiphertext}-byte limit of RFC 8446."), st)
    else if st.inbound.length < headerLen + length then (.ok none, st)
    else
      match ContentType.fromU8 (header.getD 0 0) with
      | none => (.error (hsErr "bad content type"), st)
      | some ty =>
          let body := (st.inbound.drop headerLen).take length
          { st with inbound := st.inbound.drop (headerLen + length) }.openRecord ty header body

def pushInbound (st : TlsRecordStream τ) (data : Bytes) : TlsRecordStream τ :=
  { st with inbound := st.inbound ++ data }

def stealInboundLeftover (st : TlsRecordStream τ) : Bytes × TlsRecordStream τ :=
  (st.inbound, { st with inbound := [] })

def closedMidRecord : ProxyError :=
  ⟨.connectionFailed, "The peer closed the connection mid-record."⟩

/-- `From<std::io::Error> for ProxyError`. -/
def ofIo (e : IoError) : ProxyError := ⟨.connectionFailed, e.message⟩

/-- A read that completes no record wakes the task and answers `Pending`. -/
def pollReadRecord [AsyncRead τ] (st : TlsRecordStream τ) :
    Poll (Except ProxyError Record) × TlsRecordStream τ :=
  match st.tryReadBuffered with
  | (.ok (some r), st) => (.ready (.ok r), st)
  | (.error e, st) => (.ready (.error e), st)
  | (.ok none, st) =>
      match pollRead st.transport 8192 with
      | (.ready (.ok d), transport) =>
          let st := { st with transport }
          if d.items.isEmpty then (.ready (.error closedMidRecord), st)
          else
            match (st.pushInbound d.items).tryReadBuffered with
            | (.ok (some r), st) => (.ready (.ok r), st)
            | (.ok none, st) => (.pending, st)
            | (.error e, st) => (.ready (.error e), st)
      | (.ready (.error e), transport) => (.ready (.error (ofIo e)), { st with transport })
      | (.pending, transport) => (.pending, { st with transport })

/-! ## Writing -/

def stage (st : TlsRecordStream τ) (ty : ContentType) (payload : Bytes) :
    Bytes × TlsRecordStream τ :=
  match st.write with
  | none =>
      let minor : UInt8 := if payload ≠ [] ∧ ty = .handshake then 1 else 3
      ([ty.toU8, 3, minor] ++ toBe16 payload.length ++ payload, st)
  | some write =>
      let header := [ContentType.applicationData.toU8, 3, 3] ++ toBe16 (payload.length + 1 + tagLen)
      let (out, write) := write.protect (payload ++ [ty.toU8]) header
      (header ++ out, { st with write := some write })

def writeZero : IoError := ⟨.writeZero, "TLS record write returned zero"⟩
def flushZero : IoError := ⟨.writeZero, "TLS record flush returned zero"⟩

section

variable [AsyncWrite τ]

/-- Report the staged record. -/
def finishOutbound (st : TlsRecordStream τ) : Nat × TlsRecordStream τ :=
  (st.outboundPlain, { st with outbound := [], outboundOff := 0, outboundPlain := 0 })

def pollDrainApp (st : TlsRecordStream τ) (zero : IoError) :
    Poll (IoResult Unit) × TlsRecordStream τ :=
  let (r, outboundOff, transport) := drain pollWrite zero st.outbound st.outboundOff st.transport
  (r, { st with outboundOff, transport })

/-- The loop of `poll_write_app`. -/
def pollOutbound (st : TlsRecordStream τ) : Poll (IoResult Nat) × TlsRecordStream τ :=
  match st.pollDrainApp writeZero with
  | (.pending, st) => (.pending, st)
  | (.ready (.error e), st) => (.ready (.error e), st)
  | (.ready (.ok ()), st) => (.ready (.ok st.finishOutbound.1), st.finishOutbound.2)

def pollWriteApp (st : TlsRecordStream τ) (buf : Bytes) :
    Poll (IoResult Nat) × TlsRecordStream τ :=
  if st.outboundOff < st.outbound.length then st.pollOutbound
  else if !st.outbound.isEmpty then (.ready (.ok st.finishOutbound.1), st.finishOutbound.2)
  else if buf.isEmpty then (.ready (.ok 0), st)
  else
    let n := min buf.length maxPlaintext
    let (outbound, st) := st.stage .applicationData (buf.take n)
    { st with outbound, outboundOff := 0, outboundPlain := n }.pollOutbound

def pollFlushApp (st : TlsRecordStream τ) : Poll (IoResult Unit) × TlsRecordStream τ :=
  match st.pollDrainApp flushZero with
  | (.pending, st) => (.pending, st)
  | (.ready (.error e), st) => (.ready (.error e), st)
  | (.ready (.ok ()), st) =>
      let (r, transport) := pollFlush st.transport
      (r, { st with transport })

end

end TlsRecordStream

end RustClash
