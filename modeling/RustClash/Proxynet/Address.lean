import RustClash.Lib.ByteOrder
import RustClash.Net.Addr
import RustClash.Proxynet.Error
import RustClash.Proxynet.Primitives

/-!
# Target addresses

`ProxyAddress` writes the target of a request: an IP literal by its octets, any
other host as a domain name.  The codes of the three types are the caller's.
-/

namespace RustClash

namespace ProxyAddress

def maxLength : Nat := 1 + 1 + 255

def hostTooLong : ProxyError :=
  ⟨.stringTooLong, "Target host name exceeds the maximum of 255 bytes."⟩
def bufferTooSmall : ProxyError := ⟨.stringTooLong, "address buffer too small"⟩

def writeTypeAndAddress (host : String) (ipv4Type domainType ipv6Type : UInt8) :
    Except ProxyError Bytes :=
  match parseIpAddr host with
  | some (.v4 ip) => .ok (ipv4Type :: ip.octets)
  | some (.v6 ip) => .ok (ipv6Type :: ip.octets)
  | none =>
      let bytes := utf8 host
      if 255 < bytes.length then .error hostTooLong
      else .ok (domainType :: UInt8.ofNat bytes.length :: bytes)

/-- The address and the port, for a buffer of `room` bytes. -/
def writeSocksPortLast (host : String) (port : UInt16) (room : Nat) : Except ProxyError Bytes := do
  let addr ← writeTypeAndAddress host 0x01 0x03 0x04
  if room < addr.length + 2 then throw bufferTooSmall
  return addr ++ toBe16 port.toNat

/-- The port and the address, for a buffer of `room` bytes. -/
def writeSocksPortFirst (host : String) (port : UInt16) (room : Nat) : Except ProxyError Bytes :=
  if room < 2 then .error bufferTooSmall
  else (writeTypeAndAddress host 0x01 0x03 0x04).map (toBe16 port.toNat ++ ·)

/-- An address fits the buffers that are made for one. -/
theorem length_writeTypeAndAddress {host : String} {ipv4Type domainType ipv6Type : UInt8}
    {bytes : Bytes} (h : writeTypeAndAddress host ipv4Type domainType ipv6Type = .ok bytes) :
    bytes.length ≤ maxLength := by
  unfold writeTypeAndAddress at h
  split at h
  · cases h
    exact Nat.le_of_ble_eq_true rfl
  · next ip _ =>
      cases h
      rw [List.length_cons, ip.size]
      decide
  · simp only at h
    split at h
    · cases h
    · cases h
      simp only [List.length_cons, maxLength]
      omega

end ProxyAddress

end RustClash
