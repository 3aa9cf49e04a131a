import RustClash.Lib.ReadExact
import RustClash.Proxynet.Vmess.Crypto

/-!
# The VMess stream, reading

`VmessAuthStream` opens the response header and the chunks after it.  Its state
holds the buffer and the cursor of `poll_read_exact` between polls.  The header
state reads twice, and a poll that ends in the second reading leaves nothing of
the first but what is in the buffer.

The primitives are a parameter of the type, as the ciphers are part of the code
that is compiled in.
-/

namespace RustClash

open Vmess

namespace Vmess

inductive ReadState where
  | header
  | length
  | data (size padding : Nat)
  | pending (n : Nat)
deriving DecidableEq

end Vmess

structure VmessAuthStream (p : Primitives) (σ : Type) where
  inner : σ
  sess : ClientSession
  dec : BodyAead
  decNonce : VmessNonce
  decSize : ShakeSizeParser
  readBuf : Bytes
  readPos : Nat
  readState : ReadState

namespace VmessAuthStream

variable {p : Primitives} {σ : Type}

def withCipher (p : Primitives) (inner : σ) (sess : ClientSession) (dec : BodyAead) :
    VmessAuthStream p σ where
  inner := inner
  sess := sess
  dec := dec
  decNonce := .new sess.responseBodyIv.bytes 12
  decSize := .new p sess.responseBodyIv.bytes
  readBuf := []
  readPos := 0
  readState := .header

def new (p : Primitives) (inner : σ) (sess : ClientSession) (security : String) :
    Except ProxyError (VmessAuthStream p σ) :=
  (BodyAead.new p security sess.responseBodyKey.bytes).map (withCipher p inner sess)

def earlyEof : IoError := ⟨.unexpectedEof, "vmess eof"⟩
def respLen : IoError := .other "vmess resp len"
def respHeader : IoError := .other "vmess resp header"
def headerMismatch : IoError := .other "vmess response header mismatch"

/-! ## The response header -/

/-- The sealed length of the response header, opened. -/
def openLength (p : Primitives) (sess : ClientSession) (sealed : Bytes) : Option Nat :=
  let key := kdf1 p 16 sess.responseBodyKey.bytes saltAeadRespHeaderLenKey
  let iv := kdf1 p 12 sess.responseBodyIv.bytes saltAeadRespHeaderLenIv
  ((p.aes128Gcm key).decrypt iv [] sealed).map fun tmp => ofBe16 (tmp.getD 0 0) (tmp.getD 1 0)

/-- The sealed response header, opened. -/
def openHeader (p : Primitives) (sess : ClientSession) (sealed : Bytes) : Option Bytes :=
  let key := kdf1 p 16 sess.responseBodyKey.bytes saltAeadRespHeaderPayloadKey
  let iv := kdf1 p 12 sess.responseBodyIv.bytes saltAeadRespHeaderPayloadIv
  (p.aes128Gcm key).decrypt iv [] sealed

/-- What one pass of the loop of `poll_read` does. -/
abbrev Pass (p : Primitives) (σ : Type) (cap : Nat) :=
  VmessAuthStream p σ ⊕ (Answer UInt8 IoError cap × VmessAuthStream p σ)

section

variable [AsyncRead σ]

def pollReadExact (st : VmessAuthStream p σ) (size : Nat) :
    Poll (IoResult Unit) × VmessAuthStream p σ :=
  let (r, readBuf, readPos, inner) :=
    readExact pollRead earlyEof 0 size st.readBuf st.readPos st.inner
  (r, { st with readBuf, readPos, inner })

/-- `ready!(self.poll_read_exact(cx, size))?`, and what follows it. -/
def exact {cap : Nat} (st : VmessAuthStream p σ) (size : Nat)
    (next : VmessAuthStream p σ → Pass p σ cap) : Pass p σ cap :=
  match st.pollReadExact size with
  | (.pending, st) => .inr (.pending, st)
  | (.ready (.error e), st) => .inr (.ready (.error e), st)
  | (.ready (.ok ()), st) => next st

/-- The header is in the buffer. -/
def checkHeader {cap : Nat} (st : VmessAuthStream p σ) : Pass p σ cap :=
  if st.readBuf.head? ≠ some st.sess.responseHeader then .inr (.ready (.error headerMismatch), st)
  else .inl { st with readState := .length }

def passHeader (st : VmessAuthStream p σ) (cap : Nat) : Pass p σ cap :=
  if !st.sess.aead then
    st.exact 4 fun st =>
      checkHeader { st with
        readBuf := p.aes128CfbDecrypt st.sess.responseBodyKey.bytes st.sess.responseBodyIv.bytes
          (st.readBuf.take 4) ++ st.readBuf.drop 4 }
  else
    st.exact 18 fun st =>
      match openLength p st.sess (st.readBuf.take 18) with
      | none => .inr (.ready (.error respLen), st)
      | some len =>
          st.exact (len + 16) fun st =>
            match openHeader p st.sess (st.readBuf.take (len + 16)) with
            | none => .inr (.ready (.error respHeader), st)
            | some payload => checkHeader { st with readBuf := payload }

def passLength (st : VmessAuthStream p σ) (cap : Nat) : Pass p σ cap :=
  let n := ShakeSizeParser.sizeBytes
  st.exact n fun st =>
    let hdr := st.readBuf.take n
    let (padding, decSize) := st.decSize.nextPaddingLen
    let (size, decSize) := decSize.decode hdr
    .inl { st with decSize, readState := .data size.toNat padding.toNat }

def passData (st : VmessAuthStream p σ) (cap size padding : Nat) : Pass p σ cap :=
  st.exact size fun st =>
    let readBuf := st.readBuf.take (size - padding)
    let (nonce, decNonce) := st.decNonce.next
    match st.dec.open p nonce readBuf with
    | .error e => .inr (.ready (.error e.toIo), { st with readBuf, decNonce })
    | .ok tmp => .inl { st with readBuf := tmp, decNonce, readState := .pending tmp.length }

def passPending (st : VmessAuthStream p σ) (cap n : Nat) : Pass p σ cap :=
  let take := min cap n
  .inr (.ready (.ok (.fill cap (st.readBuf.take n))), { st with
    readBuf := st.readBuf.drop take
    readState := if take < n then .pending (n - take) else .length })

def pass (st : VmessAuthStream p σ) (cap : Nat) : Pass p σ cap :=
  match st.readState with
  | .header => st.passHeader cap
  | .length => st.passLength cap
  | .data size padding => st.passData cap size padding
  | .pending n => st.passPending cap n

end

def measure (st : VmessAuthStream p σ) : Nat :=
  match st.readState with
  | .header => 3
  | .length => 2
  | .data _ _ => 1
  | .pending _ => 0

/-- `poll_read_exact` changes the buffer, the cursor and the layer below. -/
theorem exact_inl [AsyncRead σ] {cap size : Nat} {st st' : VmessAuthStream p σ}
    {next : VmessAuthStream p σ → Pass p σ cap} (h : st.exact size next = .inl st') :
    ∃ readBuf readPos inner, next { st with readBuf, readPos, inner } = .inl st' := by
  simp only [exact, pollReadExact] at h
  split at h
  · cases h
  · cases h
  · next hr =>
      rw [← (Prod.mk.inj hr).2] at h
      exact ⟨_, _, _, h⟩

theorem checkHeader_inl {cap : Nat} {st st' : VmessAuthStream p σ}
    (h : (st.checkHeader : Pass p σ cap) = .inl st') : st'.readState = .length := by
  simp only [checkHeader] at h
  split at h
  · cases h
  · cases h
    rfl

/-- One pass of the loop of `poll_read`; each goes on to the next state. -/
def readLoop (p : Primitives) (σ : Type) [AsyncRead σ] (cap : Nat) :
    Loop (VmessAuthStream p σ) (Answer UInt8 IoError cap × VmessAuthStream p σ) where
  body st := st.pass cap
  measure := measure
  decreases := by
    intro st st' h
    simp only [pass] at h
    split at h
    · next hstate =>
        have hst' : st'.readState = .length := by
          simp only [passHeader] at h
          split at h
          · obtain ⟨_, _, _, h⟩ := exact_inl h
            exact checkHeader_inl h
          · obtain ⟨_, _, _, h⟩ := exact_inl h
            simp only at h
            split at h
            · cases h
            · obtain ⟨_, _, _, h⟩ := exact_inl h
              simp only at h
              split at h
              · cases h
              · exact checkHeader_inl h
        simp only [measure, hstate, hst']
        decide
    · next hstate =>
        obtain ⟨_, _, _, h⟩ := exact_inl h
        cases h
        simp only [measure, hstate]
        decide
    · next size padding hstate =>
        obtain ⟨_, _, _, h⟩ := exact_inl h
        simp only at h
        split at h
        · cases h
        · cases h
          simp only [measure, hstate]
          decide
    · cases h

instance [AsyncRead σ] : AsyncRead (VmessAuthStream p σ) where
  pollRead st cap := (readLoop p σ cap).run st

end VmessAuthStream

end RustClash
