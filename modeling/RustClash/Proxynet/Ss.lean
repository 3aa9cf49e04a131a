import RustClash.Lib.ByteOrder
import RustClash.Lib.ReadExact
import RustClash.Proxynet.Error
import RustClash.Proxynet.Primitives

/-!
# Shadowsocks

`ShadowedStream` seals what is written in chunks behind a salt, and opens such a
stream.  Each chunk is two sealed messages, its length and its payload, and each
message has the next nonce.  The state of a direction is kept between polls.

A salt is drawn from `rng`.  The cipher of a direction is there once its salt is
written or read; `unkeyed` stands for the panic of an `expect` on one that is not,
which no state reaches.
-/

namespace RustClash

/-- The primitives that Shadowsocks uses besides the others. -/
structure SsPrimitives extends Primitives where
  aes256Gcm : (key : Bytes) → Aead UInt8
  hkdfSha1 : (salt psk info : Bytes) → (len : Nat) → Octets len

namespace Ss

def maxPayload : Nat := 0x3FFF
def tagLen : Nat := 16
def nonceLen : Nat := 12

inductive SsCipher where
  | aes128Gcm
  | aes256Gcm
  | chaCha20Poly1305
deriving DecidableEq, Repr

namespace SsCipher

def parse (name : String) : Option SsCipher :=
  let name := String.ofList ((trim name.toList).map toAsciiLowercase)
  if name = "aes-128-gcm" ∨ name = "aead_aes_128_gcm" then some aes128Gcm
  else if name = "aes-256-gcm" ∨ name = "aead_aes_256_gcm" then some aes256Gcm
  else if name = "chacha20-ietf-poly1305" ∨ name = "chacha20-poly1305" ∨
      name = "aead_chacha20_ietf_poly1305" then some chaCha20Poly1305
  else none

def keyLen : SsCipher → Nat
  | aes128Gcm => 16
  | aes256Gcm => 32
  | chaCha20Poly1305 => 32

/-- `Aead::new`. -/
def aead (p : SsPrimitives) : SsCipher → Bytes → Aead UInt8
  | aes128Gcm, key => p.aes128Gcm key
  | aes256Gcm, key => p.aes256Gcm key
  | chaCha20Poly1305, key => p.chaCha20Poly1305 key

end SsCipher

def «seal» (c : Aead UInt8) (nonce buf : Bytes) : Bytes := c.encrypt nonce [] buf

def shortPacket : IoError := .other "ss short packet"
def decryptFailed : IoError := .other "ss decrypt"

def «open» (c : Aead UInt8) (nonce buf : Bytes) : IoResult Bytes :=
  if buf.length < tagLen then .error shortPacket
  else
    match c.decrypt nonce [] buf with
    | some plain => .ok plain
    | none => .error decryptFailed

structure NonceSeq where
  buf : Bytes
deriving DecidableEq

namespace NonceSeq

def new : NonceSeq := ⟨List.replicate nonceLen 0⟩

def next (n : NonceSeq) : Bytes × NonceSeq := (n.buf, ⟨increment n.buf⟩)

end NonceSeq

/-- One round of `evp_bytes_to_key`: the key so far and the last hash. -/
def evpRound (p : SsPrimitives) (pass : Bytes) (size : Nat) (st : Bytes × Bytes) :
    (Bytes × Bytes) ⊕ Bytes :=
  if st.1.length < size then
    let last := p.md5 (st.2 ++ pass)
    .inl (st.1 ++ last.bytes, last.bytes)
  else .inr (st.1.take size)

def evpLoop (p : SsPrimitives) (pass : Bytes) (size : Nat) : Loop (Bytes × Bytes) Bytes where
  body := evpRound p pass size
  measure st := size - st.1.length
  decreases := by
    intro st st' h
    simp only [evpRound] at h
    split at h
    · cases h
      simp only [List.length_append, (p.md5 _).size]
      omega
    · cases h

def evpBytesToKey (p : SsPrimitives) (pass : Bytes) (size : Nat) : Bytes :=
  (evpLoop p pass size).run ([], [])

/-- `hkdf_sha1`; the lengths of the keys are far below the limit of HKDF. -/
def hkdfSha1 (p : SsPrimitives) (psk salt : Bytes) (outLen : Nat) : Bytes :=
  (p.hkdfSha1 salt psk (ascii "ss-subkey") outLen).bytes

inductive ReadState where
  | salt
  | length
  | data (n : Nat)
  | pending (n : Nat)
deriving DecidableEq

inductive WriteState where
  | salt
  | chunk
  | flush (consumed total written : Nat)
deriving DecidableEq

end Ss

open Ss

structure ShadowedStream (p : SsPrimitives) (σ : Type) where
  inner : σ
  kind : SsCipher
  psk : Bytes
  enc : Option (Aead UInt8)
  dec : Option (Aead UInt8)
  encNonce : NonceSeq
  decNonce : NonceSeq
  readBuf : Bytes
  writeBuf : Bytes
  readState : ReadState
  writeState : WriteState
  readPos : Nat
  rng : Nat → UInt8

namespace ShadowedStream

variable {p : SsPrimitives} {σ : Type}

def withCipher (p : SsPrimitives) (inner : σ) (kind : SsCipher) (password : String)
    (rng : Nat → UInt8) : ShadowedStream p σ where
  inner := inner
  kind := kind
  psk := evpBytesToKey p (utf8 password) kind.keyLen
  enc := none
  dec := none
  encNonce := .new
  decNonce := .new
  readBuf := []
  writeBuf := []
  readState := .salt
  writeState := .salt
  readPos := 0
  rng := rng

def new (p : SsPrimitives) (inner : σ) (method password : String) (rng : Nat → UInt8) :
    IoResult (ShadowedStream p σ) :=
  match SsCipher.parse method with
  | some kind => .ok (withCipher p inner kind password rng)
  | none => .error (.other s!"unsupported shadowsocks cipher {method}")

def earlyEof : IoError := ⟨.unexpectedEof, "ss eof"⟩
def unkeyed : IoError := .other "ss cipher"

/-- The cipher that a salt makes of the key. -/
def cipher (st : ShadowedStream p σ) (salt : Bytes) : Aead UInt8 :=
  st.kind.aead p (hkdfSha1 p st.psk salt st.kind.keyLen)

/-! ## Reading -/

/-- What one pass of the loop of `poll_read` does. -/
abbrev Pass (p : SsPrimitives) (σ : Type) (cap : Nat) :=
  ShadowedStream p σ ⊕ (Answer UInt8 IoError cap × ShadowedStream p σ)

section

variable [AsyncRead σ]

def pollReadExact (st : ShadowedStream p σ) (size : Nat) :
    Poll (IoResult Unit) × ShadowedStream p σ :=
  let (r, readBuf, readPos, inner) :=
    readExact pollRead earlyEof 0 size st.readBuf st.readPos st.inner
  (r, { st with readBuf, readPos, inner })

/-- A message in the buffer, opened with the next nonce. -/
def openNext {cap : Nat} (st : ShadowedStream p σ) (next : ShadowedStream p σ → Pass p σ cap) :
    Pass p σ cap :=
  let (nonce, decNonce) := st.decNonce.next
  let st := { st with decNonce }
  match st.dec with
  | none => .inr (.ready (.error unkeyed), st)
  | some dec =>
      match Ss.open dec nonce st.readBuf with
      | .error e => .inr (.ready (.error e), st)
      | .ok plain => next { st with readBuf := plain }

def passSalt (st : ShadowedStream p σ) (cap : Nat) : Pass p σ cap :=
  match st.pollReadExact st.kind.keyLen with
  | (.pending, st) => .inr (.pending, st)
  | (.ready (.error e), st) => .inr (.ready (.error e), st)
  | (.ready (.ok ()), st) =>
      let salt := st.readBuf
      .inl { st with readBuf := [], dec := some (st.cipher salt), readState := .length }

/-- An end of the stream in place of a length is the end. -/
def passLength (st : ShadowedStream p σ) (cap : Nat) : Pass p σ cap :=
  match st.pollReadExact (2 + tagLen) with
  | (.pending, st) => .inr (.pending, st)
  | (.ready (.error e), st) =>
      if e.kind = .unexpectedEof then .inr (.ready (.ok (.empty cap)), st)
      else .inr (.ready (.error e), st)
  | (.ready (.ok ()), st) =>
      st.openNext fun st =>
        let payloadLen := ofBe16 (st.readBuf.getD 0 0) (st.readBuf.getD 1 0)
        .inl { st with readState := .data payloadLen }

def passData (st : ShadowedStream p σ) (cap n : Nat) : Pass p σ cap :=
  match st.pollReadExact (n + tagLen) with
  | (.pending, st) => .inr (.pending, st)
  | (.ready (.error e), st) => .inr (.ready (.error e), st)
  | (.ready (.ok ()), st) => st.openNext fun st => .inl { st with readState := .pending n }

def passPending (st : ShadowedStream p σ) (cap n : Nat) : Pass p σ cap :=
  let take := min cap n
  .inr (.ready (.ok (.fill cap (st.readBuf.take n))), { st with
    readBuf := st.readBuf.drop take
    readState := if take < n then .pending (n - take) else .length })

def pass (st : ShadowedStream p σ) (cap : Nat) : Pass p σ cap :=
  match st.readState with
  | .salt => st.passSalt cap
  | .length => st.passLength cap
  | .data n => st.passData cap n
  | .pending n => st.passPending cap n

end

def measure (st : ShadowedStream p σ) : Nat :=
  match st.readState with
  | .salt => 3
  | .length => 2
  | .data _ => 1
  | .pending _ => 0

theorem openNext_inl {cap : Nat} {st st' : ShadowedStream p σ}
    {next : ShadowedStream p σ → Pass p σ cap} (h : st.openNext next = .inl st') :
    ∃ st'', next st'' = .inl st' := by
  simp only [openNext] at h
  split at h
  · cases h
  · split at h
    · cases h
    · exact ⟨_, h⟩

/-- One pass of the loop of `poll_read`; each goes on to the next state. -/
def readLoop (p : SsPrimitives) (σ : Type) [AsyncRead σ] (cap : Nat) :
    Loop (ShadowedStream p σ) (Answer UInt8 IoError cap × ShadowedStream p σ) where
  body st := st.pass cap
  measure := measure
  decreases := by
    intro st st' h
    simp only [pass] at h
    split at h
    · next hstate =>
        simp only [passSalt] at h
        split at h
        · cases h
        · cases h
        · cases h
          simp only [measure, hstate]
          decide
    · next hstate =>
        simp only [passLength] at h
        split at h
        · cases h
        · split at h <;> cases h
        · obtain ⟨st'', h⟩ := openNext_inl h
          cases h
          simp only [measure, hstate]
          decide
    · next n hstate =>
        simp only [passData] at h
        split at h
        · cases h
        · cases h
        · obtain ⟨st'', h⟩ := openNext_inl h
          cases h
          simp only [measure, hstate]
          decide
    · cases h

instance [AsyncRead σ] : AsyncRead (ShadowedStream p σ) where
  pollRead st cap := (readLoop p σ cap).run st

/-! ## Writing -/

section

variable [AsyncWrite σ]

/-- The loop of `poll_write` in the state that hands `write_buf` on. -/
def writeFlush (st : ShadowedStream p σ) (consumed total written : Nat) :
    Poll (IoResult Nat) × ShadowedStream p σ :=
  let (r, writeBuf, written, inner) :=
    handOn pollWrite earlyEof total st.writeBuf written st.inner
  let st : ShadowedStream p σ := { st with writeBuf, inner }
  match r with
  | .pending => (.pending, { st with writeState := .flush consumed total written })
  | .ready (.error e) => (.ready (.error e), { st with writeState := .flush consumed total written })
  | .ready (.ok ()) => (.ready (.ok consumed), { st with writeState := .chunk })

def writeChunk (st : ShadowedStream p σ) (buf : Bytes) :
    Poll (IoResult Nat) × ShadowedStream p σ :=
  match st.enc with
  | none => (.ready (.error unkeyed), st)
  | some enc =>
      let consume := min buf.length maxPayload
      let (nonce, encNonce) := st.encNonce.next
      let piece := Ss.seal enc nonce (toBe16 consume)
      let (nonce, encNonce) := encNonce.next
      let payload := Ss.seal enc nonce (buf.take consume)
      let writeBuf := st.writeBuf ++ (piece ++ payload)
      { st with encNonce, writeBuf }.writeFlush consume writeBuf.length 0

def writeSalt (st : ShadowedStream p σ) (buf : Bytes) :
    Poll (IoResult Nat) × ShadowedStream p σ :=
  let salt := (List.range st.kind.keyLen).map st.rng
  { st with writeBuf := salt, enc := some (st.cipher salt) }.writeChunk buf

instance : AsyncWrite (ShadowedStream p σ) where
  pollWrite st buf :=
    match st.writeState with
    | .salt => st.writeSalt buf
    | .chunk => st.writeChunk buf
    | .flush consumed total written => st.writeFlush consumed total written
  pollFlush st :=
    let (r, inner) := pollFlush st.inner
    (r, { st with inner })

end

instance [AsyncRead σ] [AsyncWrite σ] : AsyncIo (ShadowedStream p σ) where

end ShadowedStream

end RustClash
