import RustClash.Proxynet.Address
import RustClash.Proxynet.Vmess.Crypto

/-!
# The VMess request

What a client sends to open a connection.  `requestHeader` is the plaintext header
of `encode_request`; it is sealed under an authentication id and a nonce, or, for a
session without AEAD, encrypted behind a hash of the time.

What the source draws at random, and the two times it asks for, are `Draws`.
-/

namespace RustClash

namespace Vmess

def cmdTcp : UInt8 := 0x01
def securityAes128Gcm : UInt8 := 0x03
def securityChaCha20 : UInt8 := 0x04
def optChunkStream : UInt8 := 0x01
def optChunkMasking : UInt8 := 0x04
def optGlobalPadding : UInt8 := 0x08

/-- The security value that `dial_vmess` asks for. -/
def securityValue (name : String) : Except ProxyError UInt8 :=
  if name = "aes-128-gcm" then .ok securityAes128Gcm
  else if name = "chacha20-poly1305" then .ok securityChaCha20
  else .error ⟨.authRequired, s!"unsupported vmess cipher {name}"⟩

/-- A security value fits its half of a byte. -/
theorem securityValue_lt {name : String} {security : UInt8}
    (h : securityValue name = .ok security) : security < 16 := by
  simp only [securityValue] at h
  split at h
  · cases h
    decide
  · split at h
    · cases h
      decide
    · cases h

structure Draws where
  now : UInt64
  delta : UInt32
  paddingByte : UInt8
  padding : Octets (paddingByte % 16).toNat
  sealNow : UInt64
  authRand : Octets 4
  nonce8 : Octets 8

def fnv1a32 (data : Bytes) : UInt32 :=
  data.foldl (fun h b => (h ^^^ b.toUInt32) * 0x01000193) 0x811c9dc5

def cmdKey (p : Primitives) (uuid : Octets 16) : Octets 16 :=
  p.md5 (uuid.bytes ++ ascii "c48619fe-8f02-49e0-b9e9-edf763e17e21")

def createAuthId (p : Primitives) (key : Bytes) (ts : UInt64) (rand : Octets 4) : Octets 16 :=
  let buf := toBe 8 ts.toNat ++ rand.bytes
  let crc := p.crc32 buf
  p.aes128 (kdf1 p 16 key saltAuthIdEncryptionKey)
    ⟨buf ++ toBe 4 crc.toNat, by simp [buf, rand.size]⟩

/-- What `seal_aead_header` sends, under an authentication id and a nonce. -/
def sealWith (p : Primitives) (key data : Bytes) (authId : Octets 16) (nonce8 : Octets 8) :
    Bytes :=
  let lenKey := kdf3 p 16 key saltVmessHeaderPayloadLengthAeadKey authId.bytes nonce8.bytes
  let lenIv := kdf3 p 12 key saltVmessHeaderPayloadLengthAeadIv authId.bytes nonce8.bytes
  let pkey := kdf3 p 16 key saltVmessHeaderPayloadAeadKey authId.bytes nonce8.bytes
  let piv := kdf3 p 12 key saltVmessHeaderPayloadAeadIv authId.bytes nonce8.bytes
  authId.bytes ++ (p.aes128Gcm lenKey).encrypt lenIv authId.bytes (toBe16 data.length) ++
    nonce8.bytes ++ (p.aes128Gcm pkey).encrypt piv authId.bytes data

def sealAeadHeader (p : Primitives) (key data : Bytes) (d : Draws) : Bytes :=
  sealWith p key data (createAuthId p key d.sealNow d.authRand) d.nonce8

/-- The header before the checksum, from the address on which `write_socks_port_first`
wrote. -/
def headerFields (sess : ClientSession) (security : UInt8) (addr : Bytes) (d : Draws) : Bytes :=
  0x01 :: (sess.requestBodyIv.bytes ++ (sess.requestBodyKey.bytes ++
    sess.responseHeader :: (optChunkStream ||| optChunkMasking ||| optGlobalPadding) ::
      (((d.paddingByte % 16) <<< 4) ||| security) :: 0 :: cmdTcp :: (addr ++ d.padding.bytes)))

/-- The plaintext header. -/
def requestHeader (host : String) (port : UInt16) (security : UInt8) (sess : ClientSession)
    (d : Draws) : Except ProxyError Bytes := do
  let addr ← ProxyAddress.writeSocksPortFirst host port (2 + ProxyAddress.maxLength)
  let buf := headerFields sess security addr d
  return buf ++ toBe 4 (fnv1a32 buf).toNat

def uuidUnusable : ProxyError := ⟨.authRequired, "VMess uuid is unusable"⟩

/-- What a session without AEAD sends: a hash of the time, which is moved by up to half
a minute, and the header encrypted under that time. -/
def legacyHeader (p : Primitives) (id : Octets 16) (data : Bytes) (d : Draws) : Bytes :=
  let timestamp := d.now + (d.delta % 60).toUInt64 - 30
  let ts := toBe 8 timestamp.toNat
  let iv := p.md5 (ts ++ ts ++ ts ++ ts)
  (p.hmacMd5 id.bytes ts).bytes ++ p.aes128CfbEncrypt (cmdKey p id).bytes iv.bytes data

def encodeRequest (p : Primitives) (uuid host : String) (port : UInt16) (security : UInt8)
    (sess : ClientSession) (d : Draws) : Except ProxyError Bytes := do
  let some id := Uuid.uuidWriteBe p uuid | throw uuidUnusable
  let buf ← requestHeader host port security sess d
  if sess.aead then return sealAeadHeader p (cmdKey p id).bytes buf d
  return legacyHeader p id buf d

end Vmess

end RustClash
