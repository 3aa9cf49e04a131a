import RustClash.Lib.TlsHello
import RustClash.Net.Cursor
import RustClash.Net.Transport
import RustClash.Proxynet.Primitives

/-!
# The simple-obfs TLS stream, writing

The half of a `TlsObfsStream` that writes.  The first write goes out as the session
ticket of a ClientHello, as much of it as a record takes; what is written later goes out
in records.  The header of a record promises what the write it was made for could fill,
and later writes may fill the rest of it.
-/

namespace RustClash

namespace TlsObfs

inductive TlsWrite where
  | hello
  | flush (cur : Cursor)
  | recHdr (payload : UInt16) (off : Nat)
  | recBody (left : Nat)
deriving DecidableEq

/-- The clock and the bytes that `build_tls_client_hello` draws. -/
structure HelloDraws where
  unix : UInt32
  random : Octets 32
  session : Octets 32

def tlsRecord : Bytes := [0x17, 0x03, 0x03]

def maxPayload : Nat := 16 * 1024

def suites : Bytes :=
  [0xc0, 0x2c, 0xc0, 0x30, 0x00, 0x9f, 0xcc, 0xa9, 0xcc, 0xa8, 0xcc, 0xaa, 0xc0, 0x2b, 0xc0,
    0x2f, 0x00, 0x9e, 0xc0, 0x24, 0xc0, 0x28, 0x00, 0x6b, 0xc0, 0x23, 0xc0, 0x27, 0x00, 0x67,
    0xc0, 0x0a, 0xc0, 0x14, 0x00, 0x39, 0xc0, 0x09, 0xc0, 0x13, 0x00, 0x33, 0x00, 0x9d, 0x00,
    0x9c, 0x00, 0x3d, 0x00, 0x3c, 0x00, 0x35, 0x00, 0x2f, 0x00, 0xff]

def others : Bytes :=
  [0x00, 0x0b, 0x00, 0x04, 0x03, 0x01, 0x00, 0x02, 0x00, 0x0a, 0x00, 0x0a, 0x00, 0x08, 0x00,
    0x1d, 0x00, 0x17, 0x00, 0x19, 0x00, 0x18, 0x00, 0x0d, 0x00, 0x20, 0x00, 0x1e, 0x06, 0x01,
    0x06, 0x02, 0x06, 0x03, 0x05, 0x01, 0x05, 0x02, 0x05, 0x03, 0x04, 0x01, 0x04, 0x02, 0x04,
    0x03, 0x03, 0x01, 0x03, 0x02, 0x03, 0x03, 0x02, 0x01, 0x02, 0x02, 0x02, 0x03, 0x00, 0x16,
    0x00, 0x00, 0x00, 0x17, 0x00, 0x00]

def buildTlsClientHello (host payload : Bytes) (draws : HelloDraws) : Bytes :=
  let random := toBe 4 draws.unix.toNat ++ draws.random.bytes.drop 4
  let ticket := toBe16 0x0023 ++ (toBe16 payload.length ++ payload)
  let sniInnerLen := 3 + host.length
  let sni := toBe16 0x0000 ++ (toBe16 (sniInnerLen + 2) ++ (toBe16 sniInnerLen ++
    0 :: (toBe16 host.length ++ host)))
  let extLen := ticket.length + sni.length + others.length
  let helloBody := toBe16 0x0303 ++ (random ++ 32 :: (draws.session.bytes ++
    (toBe16 suites.length ++ (suites ++ 1 :: 0 :: (toBe16 extLen ++ (ticket ++ (sni ++ others)))))))
  let hsLen := helloBody.length
  let recLen := 4 + hsLen
  0x16 :: (toBe16 0x0301 ++ (toBe16 recLen ++ 0x01 ::
    UInt8.ofNat ((hsLen >>> 16) &&& 0xff) :: (toBe16 hsLen ++ helloBody)))

/-- What the header promises of a record that is made for a write. -/
def payloadOf (buf : Bytes) : UInt16 := UInt16.ofNat (min buf.length maxPayload)

theorem toNat_payloadOf (buf : Bytes) : (payloadOf buf).toNat = min buf.length maxPayload := by
  rw [payloadOf, UInt16.toNat_ofNat']
  exact Nat.mod_eq_of_lt (Nat.lt_of_le_of_lt (Nat.min_le_right _ _) (by decide))

theorem payloadOf_ne_zero {buf : Bytes} (h : buf ≠ []) : payloadOf buf ≠ 0 := by
  intro hzero
  have hmin := toNat_payloadOf buf
  have hpos := List.length_pos_iff.mpr h
  rw [hzero, UInt16.toNat_zero, maxPayload] at hmin
  omega

def headerZero : IoError := ⟨.writeZero, "obfs tls header"⟩
def bodyZero : IoError := ⟨.writeZero, "obfs tls body"⟩

/-- The header of a record. -/
def header (payload : UInt16) : Bytes := tlsRecord ++ toBe16 payload.toNat

@[simp] theorem length_header (payload : UInt16) : (header payload).length = 5 := rfl

end TlsObfs

open TlsObfs

/-- What a `TlsObfsStream` writes with, and what its ClientHello will draw. -/
structure TlsObfsWriteHalf (σ : Type) where
  inner : σ
  host : String
  write : TlsWrite
  draws : HelloDraws

namespace TlsObfsWriteHalf

variable {σ : Type}

def new (inner : σ) (host : String) (draws : HelloDraws) : TlsObfsWriteHalf σ :=
  ⟨inner, host, .hello, draws⟩

section

variable [AsyncWrite σ]

def passFlush (st : TlsObfsWriteHalf σ) (buf : Bytes) (cur : Cursor) :
    TlsObfsWriteHalf σ ⊕ (Poll (IoResult Nat) × TlsObfsWriteHalf σ) :=
  match pollWriteBuf st.inner cur with
  | (.pending, cur, inner) => .inr (.pending, { st with inner, write := .flush cur })
  | (.ready (.error e), cur, inner) =>
      .inr (.ready (.error e), { st with inner, write := .flush cur })
  | (.ready (.ok _), cur, inner) =>
      if cur.data.length ≤ cur.pos then
        .inr (.ready (.ok (min buf.length maxPayload)), { st with inner, write := .recBody 0 })
      else .inl { st with inner, write := .flush cur }

/-- Behind a header for no bytes an empty write would go round again, for ever: it is left after
each header. -/
def passHdr (st : TlsObfsWriteHalf σ) (buf : Bytes) (payload : UInt16) (off : Nat) :
    TlsObfsWriteHalf σ ⊕ (Poll (IoResult Nat) × TlsObfsWriteHalf σ) :=
  match pollWrite st.inner ((header payload).drop off) with
  | (.pending, inner) => .inr (.pending, { st with inner })
  | (.ready (.error e), inner) => .inr (.ready (.error e), { st with inner })
  | (.ready (.ok 0), inner) => .inr (.ready (.error headerZero), { st with inner })
  | (.ready (.ok (n + 1)), inner) =>
      if 5 ≤ off + (n + 1) then
        let st : TlsObfsWriteHalf σ := { st with inner, write := .recBody payload.toNat }
        if payload = 0 ∧ buf = [] then .inr (.pending, st) else .inl st
      else .inl { st with inner, write := .recHdr payload (off + (n + 1)) }

def passBody (st : TlsObfsWriteHalf σ) (buf : Bytes) (left : Nat) :
    TlsObfsWriteHalf σ ⊕ (Poll (IoResult Nat) × TlsObfsWriteHalf σ) :=
  match pollWrite st.inner (buf.take left) with
  | (.pending, inner) => .inr (.pending, { st with inner })
  | (.ready (.error e), inner) => .inr (.ready (.error e), { st with inner })
  | (.ready (.ok 0), inner) => .inr (.ready (.error bodyZero), { st with inner })
  | (.ready (.ok (n + 1)), inner) =>
      .inr (.ready (.ok (n + 1)), { st with inner, write := .recBody (left - (n + 1)) })

/-- What one pass of the loop of `poll_write` does. -/
def writePass (st : TlsObfsWriteHalf σ) (buf : Bytes) :
    TlsObfsWriteHalf σ ⊕ (Poll (IoResult Nat) × TlsObfsWriteHalf σ) :=
  match st.write with
  | .hello =>
      let hello := buildTlsClientHello (utf8 st.host) (buf.take maxPayload) st.draws
      .inl { st with write := .flush (.new hello) }
  | .flush cur => st.passFlush buf cur
  | .recHdr payload off => st.passHdr buf payload off
  | .recBody 0 => .inl { st with write := .recHdr (payloadOf buf) 0 }
  | .recBody (left + 1) => st.passBody buf (left + 1)

variable [ZeroLaw σ]

def measure (buf : Bytes) (st : TlsObfsWriteHalf σ) : Nat :=
  match st.write with
  | .hello =>
      (buildTlsClientHello (utf8 st.host) (buf.take maxPayload) st.draws).length +
        ZeroLaw.bound.zeros st.inner + 1
  | .flush cur => cur.remaining.length + ZeroLaw.bound.zeros st.inner
  | .recHdr payload off => (if payload = 0 ∧ buf ≠ [] then 8 else 1) + (5 - off)
  | .recBody 0 => 7
  | .recBody (_ + 1) => 0

theorem passHdr_lt {st st' : TlsObfsWriteHalf σ} {buf : Bytes} {payload : UInt16} {off : Nat}
    (hwrite : st.write = .recHdr payload off) (h : st.passHdr buf payload off = .inl st') :
    measure buf st' < measure buf st := by
  simp only [passHdr] at h
  split at h
  · cases h
  · cases h
  · cases h
  · split at h
    · split at h
      · cases h
      · next hspin =>
          cases h
          cases hp : payload.toNat with
          | zero =>
              have hzero : payload = 0 := UInt16.toNat_inj.mp hp
              have hne : buf ≠ [] := fun hnil => hspin ⟨hzero, hnil⟩
              simp only [measure, hwrite]
              rw [if_pos ⟨hzero, hne⟩]
              omega
          | succ left =>
              simp only [measure, hwrite]
              split <;> omega
    · next hoff =>
        cases h
        simp only [measure, hwrite]
        omega

def writeLoop (σ : Type) [AsyncWrite σ] [ZeroLaw σ] (buf : Bytes) :
    Loop (TlsObfsWriteHalf σ) (Poll (IoResult Nat) × TlsObfsWriteHalf σ) where
  body st := st.writePass buf
  measure := measure buf
  decreases := by
    intro st st' h
    simp only [writePass] at h
    split at h
    · next hwrite =>
        cases h
        simp only [measure, hwrite, Cursor.remaining_new]
        exact Nat.lt_succ_self _
    · next cur hwrite =>
        simp only [passFlush] at h
        split at h
        · cases h
        · cases h
        · next n cur' inner hw =>
            split at h
            · cases h
            · next hpos =>
                cases h
                simp only [measure, hwrite]
                exact pollWriteBuf_lt ZeroLaw.bound hw (Nat.not_le.mp hpos)
    · next payload off hwrite => exact passHdr_lt hwrite h
    · next hwrite =>
        cases h
        simp only [measure, hwrite]
        split
        · next hspin => exact absurd hspin.1 (payloadOf_ne_zero hspin.2)
        · omega
    · simp only [passBody] at h
      split at h <;> cases h

instance : AsyncWrite (TlsObfsWriteHalf σ) where
  pollWrite st buf := (writeLoop σ buf).run st
  pollFlush st :=
    let (r, inner) := pollFlush st.inner
    (r, { st with inner })

end

end TlsObfsWriteHalf

end RustClash
