import RustClash.Core.Str
import RustClash.Lib.Symmetric
import RustClash.Net.Io

/-!
# Cryptographic primitives and user ids

The primitives of the cryptography crates are a parameter.  `HmacSha256` is a
hasher that is fed piece by piece; the others are functions of whole inputs.
-/

namespace RustClash

/-- The bytes of a byte string literal. -/
def ascii (s : String) : Bytes := s.toList.map fun c => UInt8.ofNat c.toNat

/-- `str::as_bytes`. -/
def utf8 (s : String) : Bytes := s.toList.flatMap String.utf8EncodeChar

structure Primitives where
  HmacSha256 : Type
  hmacSha256New : (key : Bytes) → HmacSha256
  hmacSha256Update : HmacSha256 → Bytes → HmacSha256
  hmacSha256Finalize : HmacSha256 → Octets 32
  hmacMd5 : (key data : Bytes) → Octets 16
  md5 : Bytes → Octets 16
  sha1 : Bytes → Octets 20
  sha256 : Bytes → Octets 32
  shake128 : Bytes → Nat → UInt8
  crc32 : Bytes → UInt32
  aes128 : (key : Bytes) → Octets 16 → Octets 16
  aes128Gcm : (key : Bytes) → Aead UInt8
  chaCha20Poly1305 : (key : Bytes) → Aead UInt8
  aes128CfbEncrypt : (key iv data : Bytes) → Bytes
  aes128CfbDecrypt : (key iv data : Bytes) → Bytes

/-- A cipher whose tag is its key. -/
def keyTagged (key : Bytes) : Aead UInt8 where
  encrypt _ _ plain := plain ++ (key ++ List.replicate 16 0).take 16
  decrypt _ _ sealed :=
    if 16 ≤ sealed.length ∧ sealed.drop (sealed.length - 16) = (key ++ List.replicate 16 0).take 16
    then some (sealed.take (sealed.length - 16)) else none

theorem keyTagged_lawful (key : Bytes) : (keyTagged key).Lawful 16 := by
  have htag : ((key ++ List.replicate 16 (0 : UInt8)).take 16).length = 16 := by simp
  constructor <;> intro nonce aad plain
  · simp [keyTagged]
  · simp [keyTagged]

def sumFrom (h : UInt8) (data : Bytes) : UInt8 := data.foldl UInt8.add h

/-- Primitives to evaluate with: a hash is a sum, and a cipher only tags. -/
def Primitives.sums : Primitives where
  HmacSha256 := UInt8
  hmacSha256New := sumFrom 0
  hmacSha256Update := sumFrom
  hmacSha256Finalize h := ⟨h :: List.replicate 31 0, rfl⟩
  hmacMd5 key data := ⟨sumFrom (sumFrom 0 key) data :: List.replicate 15 0, rfl⟩
  md5 data := ⟨sumFrom 0 data :: List.replicate 15 0, rfl⟩
  sha1 data := ⟨sumFrom 0 data :: List.replicate 19 0, rfl⟩
  sha256 data := ⟨sumFrom 0 data :: List.replicate 31 0, rfl⟩
  shake128 _ _ := 0
  crc32 data := (sumFrom 0 data).toUInt32
  aes128 _ block := block
  aes128Gcm := keyTagged
  chaCha20Poly1305 := keyTagged
  aes128CfbEncrypt _ _ data := data
  aes128CfbDecrypt _ _ data := data

/-- The first `n` of at least `n` bytes. -/
def Octets.truncate {m : Nat} (n : Nat) (bs : Octets m) (h : n ≤ m) : Octets n :=
  ⟨bs.bytes.take n, by rw [List.length_take, bs.size, Nat.min_eq_left h]⟩

namespace Uuid

def uuidSize : Nat := 16
def maxDerived : Nat := 30
def minCanonical : Nat := 32
def maxCanonical : Nat := 36

/-- The value of a hexadecimal digit. -/
def hexDigit (c : Char) : Option Nat :=
  if '0' ≤ c ∧ c ≤ '9' then some (c.toNat - '0'.toNat)
  else if 'a' ≤ c ∧ c ≤ 'f' then some (c.toNat - 'a'.toNat + 10)
  else if 'A' ≤ c ∧ c ≤ 'F' then some (c.toNat - 'A'.toNat + 10)
  else none

/-- `hex::decode`, on the values of the digits. -/
def hexBytes : List Nat → Bytes
  | hi :: lo :: rest => UInt8.ofNat (16 * hi + lo) :: hexBytes rest
  | _ => []

theorem length_hexBytes : ∀ ds : List Nat, (hexBytes ds).length = ds.length / 2
  | [] => rfl
  | [_] => by simp [hexBytes]
  | _ :: _ :: rest => by
      rw [hexBytes, List.length_cons, length_hexBytes rest, List.length_cons, List.length_cons]
      omega

def parseCanonical (id : List Char) : Option (Octets uuidSize) :=
  let digits := id.filterMap hexDigit
  if h : digits.length = 32 then
    some ⟨hexBytes digits, by rw [length_hexBytes, h]; rfl⟩
  else none

/-- Sixteen zero bytes and the name are hashed; version and variant are written over. -/
def deriveUuid (p : Primitives) (id : List Char) : Octets uuidSize :=
  let hash := p.sha1 (List.replicate uuidSize 0 ++ utf8 (String.ofList id))
  let dest := hash.bytes.take uuidSize
  ⟨(dest.set 6 ((dest.getD 6 0 &&& 0x0F) ||| 0x50)).set 8 ((dest.getD 8 0 &&& 0x3F) ||| 0x80), by
    rw [List.length_set, List.length_set, List.length_take, hash.size]
    rfl⟩

/-- `uuid_write_be`; `none` is an id that is refused. -/
def uuidWriteBe (p : Primitives) (id : String) : Option (Octets uuidSize) :=
  let id := trim id.toList
  let len := (utf8 (String.ofList id)).length
  if minCanonical ≤ len ∧ len ≤ maxCanonical then parseCanonical id
  else if !id.isEmpty ∧ len ≤ maxDerived then some (deriveUuid p id)
  else none

end Uuid

end RustClash
