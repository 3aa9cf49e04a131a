import RustClash.Lib.ByteOrder
import RustClash.Proxynet.Error
import RustClash.Proxynet.Vmess.Kdf

/-!
# The body ciphers and counters of VMess

The AEAD of the chunks, their nonces, and the parser of their sizes, which draws
masks and padding lengths from a SHAKE stream: `reader` is what it draws next.
-/

namespace RustClash

namespace Vmess

/-- The cipher of the chunks, with its key. -/
inductive BodyAead where
  | aes128 (key : Bytes)
  | chaCha (key : Bytes)
deriving DecidableEq

namespace BodyAead

/-- The key is only 16 bytes long, and is hashed twice for one of 32. -/
def chaChaKey (p : Primitives) (key : Bytes) : Bytes :=
  let k1 := p.md5 key
  k1.bytes ++ (p.md5 k1.bytes).bytes

/-- `auto` has been replaced before. -/
def new (p : Primitives) (name : String) (key : Bytes) : Except ProxyError BodyAead :=
  let name := String.ofList (name.toList.map toAsciiLowercase)
  if name = "aes-128-gcm" then .ok (.aes128 key)
  else if name = "chacha20-poly1305" ∨ name = "chacha20-ietf-poly1305" then
    .ok (.chaCha (chaChaKey p key))
  else .error ⟨.authRequired, s!"unsupported vmess cipher {name}"⟩

def tagLen : Nat := 16

/-- The cipher under the key. -/
def aead (p : Primitives) : BodyAead → Aead UInt8
  | .aes128 key => p.aes128Gcm key
  | .chaCha key => p.chaCha20Poly1305 key

def shortChunk : ProxyError := ⟨.invalidResponse, "vmess short chunk"⟩
def decryptFailed : ProxyError := ⟨.invalidResponse, "vmess decrypt"⟩

def «seal» (p : Primitives) (c : BodyAead) (nonce buf : Bytes) : Bytes :=
  (c.aead p).encrypt nonce [] buf

/-- A chunk is opened as a whole, tag included. -/
def «open» (p : Primitives) (c : BodyAead) (nonce buf : Bytes) : Except ProxyError Bytes :=
  if buf.length < tagLen then .error shortChunk
  else
    match (c.aead p).decrypt nonce [] buf with
    | some plain => .ok plain
    | none => .error decryptFailed

end BodyAead

/-- The first two bytes of a nonce count the chunks; `count` is what they were last. -/
structure VmessNonce where
  nonce : Bytes
  size : Nat
  count : UInt16

namespace VmessNonce

def new (iv : Bytes) (size : Nat) : VmessNonce :=
  ⟨iv ++ List.replicate (size - iv.length) 0, size, 0xffff⟩

/-- The counter wraps at 65536 chunks. -/
def next (n : VmessNonce) : Bytes × VmessNonce :=
  let count := n.count + 1
  let nonce := toBe16 count.toNat ++ n.nonce.drop 2
  (nonce.take n.size, { n with count, nonce })

end VmessNonce

/-- The stream that masks and padding lengths are drawn from, in turn. -/
structure ShakeSizeParser where
  reader : Nat → UInt8

namespace ShakeSizeParser

def new (p : Primitives) (nonce : Bytes) : ShakeSizeParser := ⟨p.shake128 nonce⟩

def sizeBytes : Nat := 2

def nextU16 (s : ShakeSizeParser) : UInt16 × ShakeSizeParser :=
  (UInt16.ofNat (ofBe16 (s.reader 0) (s.reader 1)), ⟨fun n => s.reader (n + 2)⟩)

/-- The size behind the mask. -/
def decode (s : ShakeSizeParser) (b : Bytes) : UInt16 × ShakeSizeParser :=
  let (mask, s) := s.nextU16
  (mask ^^^ UInt16.ofNat (ofBe16 (b.getD 0 0) (b.getD 1 0)), s)

def encode (s : ShakeSizeParser) (size : UInt16) : Bytes × ShakeSizeParser :=
  let (mask, s) := s.nextU16
  (toBe16 (mask ^^^ size).toNat, s)

/-- Less than 64 bytes. -/
def nextPaddingLen (s : ShakeSizeParser) : UInt16 × ShakeSizeParser :=
  let (n, s) := s.nextU16
  (n % 64, s)

end ShakeSizeParser

/-! ## Sessions -/

/-- The keys of a connection, and the byte that the response has to repeat. -/
structure ClientSession where
  requestBodyKey : Octets 16
  requestBodyIv : Octets 16
  responseBodyKey : Octets 16
  responseBodyIv : Octets 16
  responseHeader : UInt8
  aead : Bool

/-- A session of 33 random bytes. -/
def ClientSession.new (p : Primitives) (aead : Bool) (rnd : Octets 33) : ClientSession :=
  let requestBodyKey : Octets 16 := rnd.truncate 16 (by decide)
  let requestBodyIv : Octets 16 :=
    ⟨(rnd.bytes.drop 16).take 16, by rw [List.length_take, List.length_drop, rnd.size]; rfl⟩
  { requestBodyKey
    requestBodyIv
    responseBodyKey :=
      if aead then (p.sha256 requestBodyKey.bytes).truncate 16 (by decide)
      else p.md5 requestBodyKey.bytes
    responseBodyIv :=
      if aead then (p.sha256 requestBodyIv.bytes).truncate 16 (by decide)
      else p.md5 requestBodyIv.bytes
    responseHeader := rnd.bytes.getD 32 0
    aead }

/-- The session of 32 zero bytes and a 7. -/
def sampleSession : ClientSession := .new .sums true ⟨List.replicate 32 0 ++ [7], rfl⟩

end Vmess

end RustClash
