import Mathlib.Data.List.Basic

/-!
# Symmetric cryptography

A cipher under a key, as its user sees it: `encrypt` seals a message under a nonce
and associated data, `decrypt` opens what was sealed or refuses.  `Aead.Lawful`
is what every use relies on; nothing is said of what else a cipher opens.

A hasher is fed piece by piece and finished once.  It streams a hash when it yields the hash
of all it was fed, however that was cut.  HMAC is defined over a hash that need not be one
itself, so it can be nested.
-/

universe u

structure Aead (β : Type u) where
  encrypt : (nonce aad plain : List β) → List β
  decrypt : (nonce aad sealed : List β) → Option (List β)

/-- Opening inverts sealing, and a tag of `tagLen` items is all that is added. -/
structure Aead.Lawful {β : Type u} (c : Aead β) (tagLen : Nat) : Prop where
  decrypt_encrypt : ∀ nonce aad plain, c.decrypt nonce aad (c.encrypt nonce aad plain) = some plain
  length_encrypt : ∀ nonce aad plain, (c.encrypt nonce aad plain).length = plain.length + tagLen

/-! ## HMAC over any hash -/

namespace Hmac

/-- The key of a block: hashed if it is longer, with zeros behind it if it is shorter. -/
def blockKey (hash : List UInt8 → List UInt8) (blockLen : Nat) (key : List UInt8) : List UInt8 :=
  let key := if blockLen < key.length then hash key else key
  key ++ List.replicate (blockLen - key.length) 0

def hmac (hash : List UInt8 → List UInt8) (blockLen : Nat) (key data : List UInt8) : List UInt8 :=
  let key := blockKey hash blockLen key
  hash (key.map (· ^^^ 0x5C) ++ hash (key.map (· ^^^ 0x36) ++ data))

/-- HMAC over HMAC, with the last key outermost. -/
def nested (hash : List UInt8 → List UInt8) (blockLen : Nat) :
    (keys : List (List UInt8)) → List UInt8 → List UInt8
  | [] => hash
  | key :: keys => nested (hmac hash blockLen key) blockLen keys

variable {η : Type u} (update : η → List UInt8 → η) (finalize : η → List UInt8)

/-- However the data is cut, the hasher yields the hash of all of it. -/
def Streams (h : η) (hash : List UInt8 → List UInt8) : Prop :=
  ∀ chunks : List (List UInt8), finalize (chunks.foldl update h) = hash chunks.flatten

namespace Streams

variable {update : η → List UInt8 → η} {finalize : η → List UInt8} {h : η}
  {hash : List UInt8 → List UInt8}

theorem once (hs : Streams update finalize h hash) (data : List UInt8) :
    finalize (update h data) = hash data := by
  have hone := hs [data]
  rwa [List.flatten_singleton] at hone

theorem twice (hs : Streams update finalize h hash) (first second : List UInt8) :
    finalize (update (update h first) second) = hash (first ++ second) := by
  have htwo := hs [first, second]
  rwa [List.flatten_cons, List.flatten_singleton] at htwo

/-- A hasher that was fed streams the hash of what follows. -/
theorem fed (hs : Streams update finalize h hash) (first : List UInt8) :
    Streams update finalize (update h first) fun data => hash (first ++ data) :=
  fun chunks => hs (first :: chunks)

end Streams

end Hmac
