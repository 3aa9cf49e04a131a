import RustClash.Proxynet.Primitives
import RustClash.Proxynet.Record

/-!
# The key schedule of TLS 1.3

Hashes, ciphers and the exchange on Curve25519 come from other crates and are
parameters; what is derived from them, and under which labels, is here.
-/

namespace RustClash

namespace Reality

inductive HashKind where
  | sha256
  | sha384
deriving DecidableEq, Repr

def HashKind.len : HashKind → Nat
  | sha256 => 32
  | sha384 => 48

end Reality

open Reality

/-- What the crates that the handshake calls compute. -/
structure TlsPrimitives where
  digest : (hash : HashKind) → Bytes → Octets hash.len
  hmac : (hash : HashKind) → (key data : Bytes) → Octets hash.len
  /-- `Hkdf::from_prk` and `expand`. -/
  hkdfExpand : HashKind → (prk info : Bytes) → (len : Nat) → Octets len
  /-- `Hkdf::<Sha256>::new` and `expand`. -/
  hkdfSha256 : (salt ikm info : Bytes) → (len : Nat) → Octets len
  hmacSha512 : (key data : Bytes) → Octets 64
  /-- `diffie_hellman`. -/
  x25519 : (secret point : Octets 32) → Octets 32
  /-- `PublicKey::from`. -/
  x25519Public : (secret : Octets 32) → Octets 32
  aes128Gcm : (key : Bytes) → Aead UInt8
  aes256Gcm : (key : Bytes) → Aead UInt8
  chaCha20Poly1305 : (key : Bytes) → Aead UInt8
  /-- The standard engine of `base64`. -/
  decodeBase64 : List Char → Option Bytes
  /-- `idna::domain_to_ascii`. -/
  domainToAscii : String → Option String

namespace Reality

variable (p : TlsPrimitives)

def HashKind.empty (hash : HashKind) : Octets hash.len := p.digest hash []

def extract (hash : HashKind) (salt ikm : Bytes) : Octets hash.len :=
  let salt := if salt.isEmpty then List.replicate hash.len 0 else salt
  p.hmac hash salt ikm

def expandLabel (hash : HashKind) (secret label context : Bytes) (len : Nat) : Octets len :=
  let labelPrefix := ascii "tls13 "
  let info := toBe16 len ++ [UInt8.ofNat (labelPrefix.length + label.length)] ++ labelPrefix ++
    label ++ [UInt8.ofNat context.length] ++ context
  p.hkdfExpand hash secret info len

/-- The secret is as long as the hash. -/
def deriveSecret (hash : HashKind) (secret : Bytes) (label : String) (transcript : Bytes) :
    Octets hash.len :=
  expandLabel p hash secret (ascii label) transcript hash.len

def trafficKeys (hash : HashKind) (traffic : Bytes) (keyLen : Nat) :
    Octets keyLen × Octets nonceLen :=
  (expandLabel p hash traffic (ascii "key") [] keyLen,
    expandLabel p hash traffic (ascii "iv") [] nonceLen)

def finishedVerify (hash : HashKind) (baseKey transcript : Bytes) : Octets hash.len :=
  let finishedKey := expandLabel p hash baseKey (ascii "finished") [] hash.len
  p.hmac hash finishedKey.bytes transcript

/-! ## Cipher suites -/

structure CipherSuite where
  hash : HashKind
  keyLen : Nat
  chacha : Bool
deriving DecidableEq, Repr

def CipherSuite.fromId (id : Nat) : Option CipherSuite :=
  if id = 0x1301 then some ⟨.sha256, 16, false⟩
  else if id = 0x1302 then some ⟨.sha384, 32, false⟩
  else if id = 0x1303 then some ⟨.sha256, 32, true⟩
  else none

def RecordProtection.new (suite : CipherSuite) (traffic : Bytes) : RecordProtection :=
  let (key, iv) := trafficKeys p suite.hash traffic suite.keyLen
  let aead :=
    if suite.chacha then p.chaCha20Poly1305 key.bytes
    else if suite.keyLen = 16 then p.aes128Gcm key.bytes
    else p.aes256Gcm key.bytes
  ⟨iv, aead, 0⟩

/-! ## The secrets of a handshake -/

structure HandshakeSecrets (hash : HashKind) where
  client : Octets hash.len
  server : Octets hash.len
  master : Octets hash.len

def deriveHandshakeSecrets (hash : HashKind) (shared transcript : Bytes) :
    HandshakeSecrets hash :=
  let zeros := List.replicate hash.len 0
  let empty := (hash.empty p).bytes
  let early := extract p hash zeros zeros
  let derived := deriveSecret p hash early.bytes "derived" empty
  let hs := extract p hash derived.bytes shared
  let client := deriveSecret p hash hs.bytes "c hs traffic" transcript
  let server := deriveSecret p hash hs.bytes "s hs traffic" transcript
  let derived := deriveSecret p hash hs.bytes "derived" empty
  ⟨client, server, extract p hash derived.bytes zeros⟩

end Reality

end RustClash
