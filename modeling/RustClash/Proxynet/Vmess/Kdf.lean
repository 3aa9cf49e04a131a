import RustClash.Proxynet.Primitives

/-!
# The VMess key derivation

HMAC over HMAC-SHA256, three levels deep: `VmessKdf` is the construction of
`VmessKdf1` and of the macro behind `VmessKdf2` and `VmessKdf3`, over any hasher
that is fed piece by piece.  What it computes is HMAC over the hash of the hasher it is
built from.  So the three levels are HMAC over HMAC, over HMAC-SHA256 with the salt for
its key, however their input is cut.
-/

namespace RustClash

/-- A hasher with 32 bytes of output. -/
class Hasher (η : Type) where
  update : η → Bytes → η
  finalize : η → Octets 32

instance (p : Primitives) : Hasher p.HmacSha256 where
  update := p.hmacSha256Update
  finalize := p.hmacSha256Finalize

namespace Vmess

/-- What the key is combined with for the inner hash. -/
def ipad : UInt8 := 0x36

/-- And for the outer one. -/
def opad : UInt8 := 0x5C

/-- The bytes of a block. -/
def blockLen : Nat := 64

/-- The bytes of a hash. -/
def tagLen : Nat := 32

/-! The salts, one for each of the keys and nonces that are derived. -/

def saltAuthIdEncryptionKey : Bytes := ascii "AES Auth ID Encryption"
def saltAeadRespHeaderLenKey : Bytes := ascii "AEAD Resp Header Len Key"
def saltAeadRespHeaderLenIv : Bytes := ascii "AEAD Resp Header Len IV"
def saltAeadRespHeaderPayloadKey : Bytes := ascii "AEAD Resp Header Key"
def saltAeadRespHeaderPayloadIv : Bytes := ascii "AEAD Resp Header IV"
def saltVmessAeadKdf : Bytes := ascii "VMess AEAD KDF"
def saltVmessHeaderPayloadAeadKey : Bytes := ascii "VMess Header AEAD Key"
def saltVmessHeaderPayloadAeadIv : Bytes := ascii "VMess Header AEAD Nonce"
def saltVmessHeaderPayloadLengthAeadKey : Bytes := ascii "VMess Header AEAD Key_Length"
def saltVmessHeaderPayloadLengthAeadIv : Bytes := ascii "VMess Header AEAD Nonce_Length"

/-- HMAC that is being computed: the outer key block, the inner hasher and the one that the outer
hash starts with. -/
structure VmessKdf (η : Type) where
  okey : Bytes
  hasher : η
  hasherOuter : η

namespace VmessKdf

variable {η : Type} [Hasher η]

/-- The key, hashed when it is longer than a block, in a block of zeros. -/
def blockKey (hasher : η) (key : Bytes) : Bytes :=
  let key :=
    if blockLen < key.length then (Hasher.finalize (Hasher.update hasher key)).bytes.take tagLen
    else key
  key ++ List.replicate (blockLen - key.length) 0

/-- The inner hasher is fed the inner key block. -/
def new (hasher : η) (key : Bytes) : VmessKdf η where
  okey := (blockKey hasher key).map (· ^^^ opad)
  hasher := Hasher.update hasher ((blockKey hasher key).map (· ^^^ ipad))
  hasherOuter := hasher

/-- So the levels can be nested. -/
instance : Hasher (VmessKdf η) where
  update h m := { h with hasher := Hasher.update h.hasher m }
  finalize h :=
    let h1 := Hasher.finalize h.hasher
    Hasher.finalize (Hasher.update (Hasher.update h.hasherOuter h.okey) h1.bytes)

end VmessKdf

section

variable (p : Primitives)

abbrev VmessKdf1 := VmessKdf p.HmacSha256
abbrev VmessKdf2 := VmessKdf (VmessKdf1 p)
abbrev VmessKdf3 := VmessKdf (VmessKdf2 p)

/-- The first level: over HMAC-SHA256 with the salt. -/
def getVmessKdf1 (key1 : Bytes) : VmessKdf1 p := .new (p.hmacSha256New saltVmessAeadKdf) key1

/-- The first level of an input as a whole. -/
def vmessKdf1OneShot (id key1 : Bytes) : Octets 32 :=
  Hasher.finalize (Hasher.update (getVmessKdf1 p key1) id)

/-- The second level: over the first. -/
def getVmessKdf2 (key1 key2 : Bytes) : VmessKdf2 p := .new (getVmessKdf1 p key1) key2

/-- The third level: over the second. -/
def getVmessKdf3 (key1 key2 key3 : Bytes) : VmessKdf3 p := .new (getVmessKdf2 p key1 key2) key3

/-- The third level of an input as a whole. -/
def vmessKdf3OneShot (id key1 key2 key3 : Bytes) : Octets 32 :=
  Hasher.finalize (Hasher.update (getVmessKdf3 p key1 key2 key3) id)

/-- The first `n` bytes of the first level of the key derivation. -/
def kdf1 (n : Nat) (id salt : Bytes) : Bytes :=
  (vmessKdf1OneShot p id salt).bytes.take n

/-- The first `n` bytes of the third level. -/
def kdf3 (n : Nat) (id salt authId nonce8 : Bytes) : Bytes :=
  (vmessKdf3OneShot p id salt authId nonce8).bytes.take n

theorem length_kdf1 {n : Nat} (id salt : Bytes) (h : n ≤ 32) : (kdf1 p n id salt).length = n := by
  rw [kdf1, List.length_take, Octets.size]
  omega

theorem length_kdf3 {n : Nat} (id salt authId nonce8 : Bytes) (h : n ≤ 32) :
    (kdf3 p n id salt authId nonce8).length = n := by
  rw [kdf3, List.length_take, Octets.size]
  omega

end

/-! ## Nested HMAC -/

section

open Hmac

/-- The hasher yields the hash of all that it is fed. -/
def Streams {η : Type} [Hasher η] (h : η) (hash : Bytes → Bytes) : Prop :=
  Hmac.Streams Hasher.update (fun h : η => (Hasher.finalize h).bytes) h hash

namespace VmessKdf

variable {η : Type} [Hasher η] {h : η} {hash : Bytes → Bytes}

theorem blockKey_eq (hs : Streams h hash) (key : Bytes) :
    blockKey h key = Hmac.blockKey hash blockLen key := by
  have hkey : (Hasher.finalize (Hasher.update h key)).bytes = hash key := hs.once key
  have hlen : (hash key).length = tagLen := by
    rw [← hkey, Octets.size]
    rfl
  rw [blockKey, Hmac.blockKey, hkey, List.take_of_length_le (Nat.le_of_eq hlen)]

/-- What is fed goes to the inner hasher. -/
theorem foldl_update (k : VmessKdf η) (chunks : List Bytes) :
    chunks.foldl Hasher.update k = { k with hasher := chunks.foldl Hasher.update k.hasher } := by
  induction chunks generalizing k with
  | nil => rfl
  | cons chunk chunks ih => exact ih _

/-- Over a hasher of a hash, HMAC over that hash. -/
theorem streams_new (hs : Streams h hash) (key : Bytes) :
    Streams (VmessKdf.new h key) (hmac hash blockLen key) := by
  intro chunks
  have hinner := hs.fed ((blockKey h key).map (· ^^^ ipad)) chunks
  have houter := hs.twice ((blockKey h key).map (· ^^^ opad))
    (hash ((blockKey h key).map (· ^^^ ipad) ++ chunks.flatten))
  rw [foldl_update]
  show (Hasher.finalize (Hasher.update (Hasher.update h ((blockKey h key).map (· ^^^ opad)))
    (Hasher.finalize (chunks.foldl Hasher.update
      (Hasher.update h ((blockKey h key).map (· ^^^ ipad))))).bytes)).bytes = _
  rw [hinner, houter, blockKey_eq hs]
  rfl

end VmessKdf

variable {p : Primitives} {hmacSha256 : Bytes → Bytes → Bytes}

/-- HMAC-SHA256 as it is fed piece by piece is that of the whole data. -/
def HmacSha256Streams (p : Primitives) (hmacSha256 : Bytes → Bytes → Bytes) : Prop :=
  ∀ key, Streams (p.hmacSha256New key) (hmacSha256 key)

/-- The hash of the last of the keys: nested HMAC over HMAC-SHA256 with the salt. -/
def kdfHash (hmacSha256 : Bytes → Bytes → Bytes) (keys : List Bytes) : Bytes → Bytes :=
  nested (hmacSha256 saltVmessAeadKdf) blockLen keys

section

variable (hs : HmacSha256Streams p hmacSha256) (key1 key2 key3 : Bytes)

include hs

theorem streams_kdf1 : Streams (getVmessKdf1 p key1) (kdfHash hmacSha256 [key1]) :=
  VmessKdf.streams_new (hs saltVmessAeadKdf) key1

theorem streams_kdf2 : Streams (getVmessKdf2 p key1 key2) (kdfHash hmacSha256 [key1, key2]) :=
  VmessKdf.streams_new (streams_kdf1 hs key1) key2

theorem streams_kdf3 :
    Streams (getVmessKdf3 p key1 key2 key3) (kdfHash hmacSha256 [key1, key2, key3]) :=
  VmessKdf.streams_new (streams_kdf2 hs key1 key2) key3

end

/-- The key derivation is nested HMAC, for keys and inputs of any lengths and however the input is
fed to it. -/
theorem kdf_nested (hs : HmacSha256Streams p hmacSha256) (key1 key2 key3 : Bytes) :
    (∀ id, (vmessKdf1OneShot p id key1).bytes = kdfHash hmacSha256 [key1] id) ∧
    (∀ id, (vmessKdf3OneShot p id key1 key2 key3).bytes =
      kdfHash hmacSha256 [key1, key2, key3] id) ∧
    Streams (getVmessKdf1 p key1) (kdfHash hmacSha256 [key1]) ∧
    Streams (getVmessKdf2 p key1 key2) (kdfHash hmacSha256 [key1, key2]) ∧
    Streams (getVmessKdf3 p key1 key2 key3) (kdfHash hmacSha256 [key1, key2, key3]) :=
  ⟨(streams_kdf1 hs key1).once, (streams_kdf3 hs key1 key2 key3).once, streams_kdf1 hs key1,
    streams_kdf2 hs key1 key2, streams_kdf3 hs key1 key2 key3⟩

/-- A second key that is longer than a block, which is hashed. -/
theorem kdf_nested_sums : ∃ hmacSha256, HmacSha256Streams .sums hmacSha256 ∧
    (vmessKdf3OneShot .sums [7] [1] (List.replicate 65 1) [3]).bytes =
      kdfHash hmacSha256 [[1], List.replicate 65 1, [3]] [7] := by
  have hs : HmacSha256Streams .sums
      fun key data => sumFrom (sumFrom 0 key) data :: List.replicate 31 0 := by
    intro key chunks
    have hsum (h : UInt8) : chunks.foldl sumFrom h = sumFrom h chunks.flatten :=
      (List.foldl_flatten ..).symm
    exact congrArg (· :: List.replicate 31 0) (hsum (sumFrom 0 key))
  exact ⟨_, hs, (kdf_nested hs [1] (List.replicate 65 1) [3]).2.1 [7]⟩

end

end Vmess

end RustClash
