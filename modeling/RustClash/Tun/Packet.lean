import RustClash.Lib.ByteOrder
import RustClash.Lib.Checked
import RustClash.Net.Addr
import RustClash.Net.Io

/-!
# IPv4 packets of the TUN device

The functions of `packet.rs`: headers are read out of a packet and rewritten in
place.  `&mut packet[i..j]` is `Checked.within`.  Checksums are summed in `u32`,
which no packet of the device fills.
-/

namespace RustClash

namespace Packet

open Checked

def protoTcp : UInt8 := 6
def protoUdp : UInt8 := 17
def ipHdrMin : Nat := 20
def udpHdr : Nat := 8
def tcpHdrMin : Nat := 20

/-- `u16::from_be_bytes([bytes[i], bytes[i + 1]])`. -/
def readU16 (bytes : Bytes) (i : Nat) : Checked UInt16 := do
  let hi ← get bytes i
  let lo ← get bytes (i + 1)
  pure (UInt16.ofNat (ofBe16 hi lo))

/-- `Ipv4Addr::new(bytes[i], …, bytes[i + 3])`. -/
def readIpv4Addr (bytes : Bytes) (i : Nat) : Checked Ipv4Addr := do
  let a ← get bytes i
  let b ← get bytes (i + 1)
  let c ← get bytes (i + 2)
  let d ← get bytes (i + 3)
  pure ⟨a, b, c, d⟩

/-- What `parse_ipv4` answers. -/
structure Ipv4 where
  headerLen : Nat
  proto : UInt8
  src : Ipv4Addr
  dst : Ipv4Addr
  totalLen : Nat
deriving DecidableEq, Repr

def parseIpv4 (packet : Bytes) : Checked (Option Ipv4) := do
  if packet.length < ipHdrMin then return none
  let first ← get packet 0
  if first >>> 4 ≠ 4 then return none
  let headerLen := (first &&& 0x0F).toNat * 4
  if headerLen < ipHdrMin ∨ packet.length < headerLen then return none
  let declared ← readU16 packet 2
  let totalLen :=
    if declared.toNat < headerLen ∨ packet.length < declared.toNat then packet.length
    else declared.toNat
  let proto ← get packet 9
  let src ← readIpv4Addr packet 12
  let dst ← readIpv4Addr packet 16
  return some ⟨headerLen, proto, src, dst, totalLen⟩

/-! ## Checksums -/

/-- The loop of `sum_words`. -/
def sumWordsFrom : (data : Bytes) → (sum : Nat) → Nat
  | hi :: lo :: rest, sum => sumWordsFrom rest (sum + ofBe16 hi lo)
  | [b], sum => sum + ofBe16 b 0
  | [], sum => sum

def sumWords (data : Bytes) : Nat := sumWordsFrom data 0

/-- The loop of `fold`. -/
def foldCarries (sum : Nat) : Nat :=
  if sum ≤ 0xFFFF then sum else foldCarries (sum % 0x10000 + sum / 0x10000)
termination_by sum

def fold (sum : Nat) : Nat := 0xFFFF - foldCarries sum

def addIp (sum : Nat) (ip : Ipv4Addr) : Nat := sum + ofBe16 ip.a ip.b + ofBe16 ip.c ip.d

def updateIpChecksum (packet : Bytes) (headerLen : Nat) : Checked Bytes := do
  let packet ← copy packet 10 12 [0, 0]
  let header ← slice packet 0 headerLen
  copy packet 10 12 (toBe16 (fold (sumWords header)))

def setAddresses (packet : Bytes) (headerLen : Nat) (src dst : Ipv4Addr) : Checked Bytes := do
  let packet ← copy packet 12 16 src.octets
  let packet ← copy packet 16 20 dst.octets
  updateIpChecksum packet headerLen

/-! ## Segments -/

/-- Source and destination port and the length of the payload. -/
def parseUdp (segment : Bytes) : Checked (Option (UInt16 × UInt16 × Nat)) := do
  if segment.length < udpHdr then return none
  let src ← readU16 segment 0
  let dst ← readU16 segment 2
  let declared ← readU16 segment 4
  let udpLen :=
    if declared.toNat < udpHdr ∨ segment.length < declared.toNat then segment.length
    else declared.toNat
  return some (src, dst, udpLen - udpHdr)

/-- Source and destination port, the flags and the offset of the data. -/
def parseTcp (segment : Bytes) : Checked (Option (UInt16 × UInt16 × UInt8 × Nat)) := do
  if segment.length < tcpHdrMin then return none
  let src ← readU16 segment 0
  let dst ← readU16 segment 2
  let offset ← get segment 12
  let dataOff := (offset >>> 4).toNat * 4
  if dataOff < tcpHdrMin ∨ segment.length < dataOff then return none
  let flags ← get segment 13
  return some (src, dst, flags, dataOff)

def setTcpPorts (segment : Bytes) (src dst : UInt16) : Checked Bytes := do
  let segment ← copy segment 0 2 (toBe16 src.toNat)
  copy segment 2 4 (toBe16 dst.toNat)

def updateTcpChecksum (packet : Bytes) (ipHdrLen : Nat) (src dst : Ipv4Addr) :
    Checked Bytes := do
  let hdrTotal ← readU16 packet 2
  let totalLen :=
    if ipHdrLen ≤ hdrTotal.toNat ∧ hdrTotal.toNat ≤ packet.length then hdrTotal.toNat
    else packet.length
  let tcpLen := totalLen - ipHdrLen
  if tcpLen < tcpHdrMin then return packet
  let packet ← copy packet (ipHdrLen + 16) (ipHdrLen + 18) [0, 0]
  let segment ← slice packet ipHdrLen (ipHdrLen + tcpLen)
  let sum := addIp (addIp 0 src) dst + protoTcp.toNat + tcpLen + sumWords segment
  copy packet (ipHdrLen + 16) (ipHdrLen + 18) (toBe16 (fold sum))

end Packet

end RustClash
