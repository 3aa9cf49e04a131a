import RustClash.Lib.ByteOrder

/-!
# Tag, length and value

The encodings of ASN.1: a value is a tag, the octets of a length and that many
octets.  Length octets may be longer than the length needs.  `EncodingRules` say
which are taken, and what may stand behind the fields of a sequence that a reader
asks for.
-/

/-- The octets of a length, in the short form or in a long one. -/
inductive LengthOctets : Nat → List UInt8 → Prop
| short :
  n < 128 ->
  LengthOctets n [UInt8.ofNat n]
| long :
  bs ≠ [] ->
  bs.length < 127 ->
  LengthOctets (ofBe bs) (UInt8.ofNat (128 + bs.length) :: bs)

structure EncodingRules where
  length : Nat → List UInt8 → Prop
  behind : List UInt8 → Prop

namespace EncodingRules

/-- Any form of a length, and anything behind the fields. -/
def lax : EncodingRules := ⟨LengthOctets, fun _ => True⟩

variable (r : EncodingRules)

def Tlv (tag : UInt8) (body bytes : List UInt8) : Prop :=
  ∃ len, r.length body.length len ∧ bytes = tag :: len ++ body

/-- A value of any type. -/
def Value (bytes : List UInt8) : Prop := ∃ tag body, r.Tlv tag body bytes

/-- A sequence that begins with `fields`. -/
def Sequence (fields bytes : List UInt8) : Prop := ∃ rest, r.behind rest ∧ r.Tlv 0x30 (fields ++ rest) bytes

end EncodingRules
