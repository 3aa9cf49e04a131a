import Mathlib.Tactic.SplitIfs
import RustClash.Tun.PacketSpec
import RustClash.Tun.Stack

/-!
# Packets between new endpoints

`readdress_spec`: what `readdress` makes of a TCP packet is a TCP packet between
the new endpoints, equal to the old one but for addresses, ports and checksums,
and both of its checksums verify.
-/

namespace RustClash

namespace Stack

open Checked Packet OnesComplement

/-- A TCP packet from `source` to `destination` whose header reads as `ip`. -/
structure IsTcpPacket (packet : Bytes) (ip : Ipv4) (source destination : SocketAddrV4) :
    Prop where
  ipv4 : IsIpv4 packet ip
  proto : ip.proto = protoTcp
  src : ip.src = source.ip
  dst : ip.dst = destination.ip
  tcp : IsTcp ((packet.take ip.totalLen).drop ip.headerLen) source.port destination.port

/-- The places of a packet that hold addresses, ports and checksums. -/
def Rewritable (headerLen k : Nat) : Prop :=
  (10 ≤ k ∧ k < 20) ∨ (headerLen ≤ k ∧ k < headerLen + 4) ∨
    (headerLen + 16 ≤ k ∧ k < headerLen + 18)

/-- `out` is the packet `packet` sent on from `src` to `dst`. -/
structure Readdressed (packet out : Bytes) (ip : Ipv4) (src dst : SocketAddrV4) : Prop where
  length : out.length = ip.totalLen
  endpoints : IsTcpPacket out { ip with src := src.ip, dst := dst.ip } src dst
  frame : ∀ k, ¬ Rewritable ip.headerLen k → out[k]? = (packet.take ip.totalLen)[k]?
  ipChecksum : IpChecksumOk out ip.headerLen
  tcpChecksum : TcpChecksumOk out ip.headerLen

/-! ## Addresses -/

/-- The packet with new addresses and without an IP checksum. -/
def addressed (packet : Bytes) (src dst : Ipv4Addr) : Bytes :=
  overwrite (overwrite packet 12 src.octets) 16 dst.octets

theorem length_addressed {packet : Bytes} (src dst : Ipv4Addr) (h : 20 ≤ packet.length) :
    (addressed packet src dst).length = packet.length := by
  have h1 : (overwrite packet 12 src.octets).length = packet.length :=
    length_overwrite (by rw [length_octets]; omega)
  rw [addressed, length_overwrite (by rw [h1, length_octets]; omega), h1]

/-- The checksum field `update_ip_checksum` computes. -/
def ipChecksum (packet : Bytes) (headerLen : Nat) : Bytes :=
  toBe16 (0xFFFF - endAround (wordSum ((overwrite packet 10 [0, 0]).take headerLen)))

theorem setAddresses_eq {packet : Bytes} {headerLen : Nat} (src dst : Ipv4Addr)
    (h : 20 ≤ headerLen) (hl : headerLen ≤ packet.length) :
    setAddresses packet headerLen src dst =
      .ok (overwrite (addressed packet src dst) 10 (ipChecksum (addressed packet src dst) headerLen)) := by
  have hlen := length_addressed src dst (Nat.le_trans h hl)
  have hzero : (overwrite (addressed packet src dst) 10 [0, 0]).length = packet.length := by
    rw [length_overwrite (by simp only [List.length_cons, List.length_nil]; omega), hlen]
  have h1 : (overwrite packet 12 src.octets).length = packet.length :=
    length_overwrite (by rw [length_octets]; omega)
  rw [setAddresses, copy_ok (by rfl) (by omega)]
  show (copy (overwrite packet 12 src.octets) 16 20 dst.octets >>= _) = _
  rw [copy_ok (by rfl) (by omega)]
  show updateIpChecksum (addressed packet src dst) headerLen = _
  rw [updateIpChecksum, copy_ok (by rfl) (by omega)]
  show (slice (overwrite (addressed packet src dst) 10 [0, 0]) 0 headerLen >>= _) = _
  rw [slice_ok (by omega) (by omega)]
  show copy (overwrite (addressed packet src dst) 10 [0, 0]) 10 12
    (toBe16 (fold (sumWords (List.drop 0 (List.take headerLen _))))) = _
  rw [fold_eq, sumWords_eq, List.drop_zero, copy_ok (by rfl) (by omega),
    overwrite_cover (by rw [length_toBe16]; omega) (by rfl)]
  rfl

/-- Writing the ports over the segment of a packet. -/
theorem setPorts_eq {packet : Bytes} {headerLen totalLen : Nat} (src dst : UInt16)
    (h : headerLen + 4 ≤ totalLen) (ht : totalLen ≤ packet.length) :
    (within packet headerLen totalLen fun segment => setTcpPorts segment src dst) =
      .ok (overwrite packet headerLen (toBe16 src.toNat ++ toBe16 dst.toNat)) := by
  have hseg : ((packet.take totalLen).drop headerLen).length = totalLen - headerLen := by
    rw [List.length_drop, List.length_take]
    omega
  have hports : setTcpPorts ((packet.take totalLen).drop headerLen) src dst =
      .ok (overwrite ((packet.take totalLen).drop headerLen) 0
        (toBe16 src.toNat ++ toBe16 dst.toNat)) := by
    have h1 : (overwrite ((packet.take totalLen).drop headerLen) 0 (toBe16 src.toNat)).length =
        totalLen - headerLen := by
      rw [length_overwrite (by rw [length_toBe16]; omega), hseg]
    rw [setTcpPorts, copy_ok (by rfl) (by omega)]
    show copy _ 2 4 _ = _
    rw [copy_ok (by rfl) (by omega)]
    simp [overwrite, toBe16]
  rw [within_ok (by omega) ht hports, overwrite_slice
    (by simp only [List.length_append, length_toBe16]; omega) ht, Nat.add_zero]

/-- The checksum field `update_tcp_checksum` computes. -/
def tcpChecksum (packet : Bytes) (headerLen totalLen : Nat) (src dst : Ipv4Addr) : Bytes :=
  toBe16 (0xFFFF - endAround (pseudoSum src dst (totalLen - headerLen) +
    wordSum (((overwrite packet (headerLen + 16) [0, 0]).take totalLen).drop headerLen)))

theorem updateTcpChecksum_eq {packet : Bytes} {headerLen : Nat} (src dst : Ipv4Addr)
    (h : 4 ≤ headerLen) (hl : headerLen ≤ packet.length)
    (ht : headerLen + 20 ≤ totalAt packet headerLen) :
    updateTcpChecksum packet headerLen src dst =
      .ok (overwrite packet (headerLen + 16)
        (tcpChecksum packet headerLen (totalAt packet headerLen) src dst)) := by
  have htotal : (if headerLen ≤ (u16At packet 2).toNat ∧ (u16At packet 2).toNat ≤ packet.length
      then (u16At packet 2).toNat else packet.length) = totalAt packet headerLen := by
    simp only [totalAt]
    split <;> split <;> omega
  have hle : totalAt packet headerLen ≤ packet.length := by
    simp only [totalAt]
    split <;> omega
  have hzero : (overwrite packet (headerLen + 16) [0, 0]).length = packet.length :=
    length_overwrite (by simp only [List.length_cons, List.length_nil]; omega)
  rw [updateTcpChecksum, readU16_ok (by omega)]
  show (if (if _ then _ else _) - headerLen < tcpHdrMin then _ else _) = _
  rw [htotal, if_neg (by simp only [tcpHdrMin]; omega), copy_ok (by rfl) (by omega)]
  show (slice (overwrite packet (headerLen + 16) [0, 0]) headerLen _ >>= _) = _
  rw [slice_ok (by omega) (by omega), show headerLen + (totalAt packet headerLen - headerLen) =
    totalAt packet headerLen by omega]
  show copy (overwrite packet (headerLen + 16) [0, 0]) _ _ _ = _
  rw [fold_eq, sumWords_eq, copy_ok (by rfl) (by omega),
    overwrite_cover (by rw [length_toBe16]; omega) (by rfl)]
  rfl

/-! ## The whole packet -/

section

variable {packet : Bytes} {ip : Ipv4} {source destination : SocketAddrV4}

/-- The packet with new addresses and a new IP checksum. -/
def withAddresses (packet : Bytes) (headerLen : Nat) (src dst : Ipv4Addr) : Bytes :=
  overwrite (addressed packet src dst) 10 (ipChecksum (addressed packet src dst) headerLen)

/-- The packet with everything but its TCP checksum rewritten. -/
def withPorts (packet : Bytes) (headerLen : Nat) (src dst : SocketAddrV4) : Bytes :=
  overwrite (withAddresses packet headerLen src.ip dst.ip) headerLen
    (toBe16 src.port.toNat ++ toBe16 dst.port.toNat)

def withChecksum (packet : Bytes) (headerLen totalLen : Nat) (src dst : SocketAddrV4) : Bytes :=
  overwrite (withPorts packet headerLen src dst) (headerLen + 16)
    (tcpChecksum (withPorts packet headerLen src dst) headerLen totalLen src.ip dst.ip)

theorem length_withAddresses (headerLen : Nat) (src dst : Ipv4Addr) (h : 20 ≤ packet.length) :
    (withAddresses packet headerLen src dst).length = packet.length := by
  have hlen := length_addressed src dst h
  rw [withAddresses, length_overwrite (by rw [ipChecksum, length_toBe16]; omega), hlen]

theorem length_withPorts {headerLen : Nat} (src dst : SocketAddrV4) (h : 20 ≤ packet.length)
    (hl : headerLen + 4 ≤ packet.length) :
    (withPorts packet headerLen src dst).length = packet.length := by
  have hlen := length_withAddresses headerLen src.ip dst.ip h
  rw [withPorts, length_overwrite (by
    rw [List.length_append, length_toBe16, length_toBe16, hlen]
    omega), hlen]

/-- Where each byte of the packet with new ports comes from. -/
theorem getElem?_withPorts {headerLen : Nat} (src dst : SocketAddrV4) (h : 20 ≤ headerLen)
    (hl : headerLen + 4 ≤ packet.length) (k : Nat) :
    (withPorts packet headerLen src dst)[k]? =
      if headerLen ≤ k ∧ k < headerLen + 4 then
        (toBe16 src.port.toNat ++ toBe16 dst.port.toNat)[k - headerLen]?
      else if 16 ≤ k ∧ k < 20 then dst.ip.octets[k - 16]?
      else if 12 ≤ k ∧ k < 16 then src.ip.octets[k - 12]?
      else if 10 ≤ k ∧ k < 12 then
        (ipChecksum (addressed packet src.ip dst.ip) headerLen)[k - 10]?
      else packet[k]? := by
  have hc : (ipChecksum (addressed packet src.ip dst.ip) headerLen).length = 2 := rfl
  have hp : (toBe16 src.port.toNat ++ toBe16 dst.port.toNat).length = 4 := rfl
  have hA := length_addressed src.ip dst.ip (show 20 ≤ packet.length by omega)
  have hB := length_withAddresses headerLen src.ip dst.ip
    (show 20 ≤ packet.length by omega)
  have h1 : (overwrite packet 12 src.ip.octets).length = packet.length :=
    length_overwrite (by rw [length_octets]; omega)
  rw [withPorts, getElem?_overwrite (by omega), hp, withAddresses,
    getElem?_overwrite (by omega), hc, addressed, getElem?_overwrite (by rw [length_octets]; omega), length_octets,
    getElem?_overwrite (by rw [length_octets]; omega), length_octets]
  split_ifs <;> first | rfl | omega

/-- The places that are not rewritten keep their bytes. -/
theorem withChecksum_frame {headerLen totalLen : Nat} (src dst : SocketAddrV4)
    (h : 20 ≤ headerLen) (hl : headerLen + 20 ≤ packet.length) {k : Nat}
    (hk : ¬ Rewritable headerLen k) :
    (withChecksum packet headerLen totalLen src dst)[k]? = packet[k]? := by
  have hlen := length_withPorts src dst (show 20 ≤ packet.length by omega)
    (show headerLen + 4 ≤ packet.length by omega)
  obtain ⟨hip, hrest⟩ := not_or.mp hk
  obtain ⟨hports, hsum⟩ := not_or.mp hrest
  have hports' : (withPorts packet headerLen src dst)[k]? = packet[k]? := by
    rw [getElem?_withPorts src dst h (by omega), if_neg hports, if_neg (by omega),
      if_neg (by omega), if_neg (by omega)]
  rw [withChecksum, getElem?_overwrite (by rw [tcpChecksum, length_toBe16]; omega), tcpChecksum,
    length_toBe16, hports']
  split
  · rfl
  · rw [if_neg (by omega)]

/-- Below the checksum of the segment the last write is not seen. -/
theorem withChecksum_below {headerLen totalLen : Nat} (src dst : SocketAddrV4)
    (h : 20 ≤ headerLen) (hl : headerLen + 20 ≤ packet.length) {k : Nat} (hk : k < headerLen + 16) :
    (withChecksum packet headerLen totalLen src dst)[k]? =
      (withPorts packet headerLen src dst)[k]? := by
  have hlen := length_withPorts src dst (show 20 ≤ packet.length by omega)
    (show headerLen + 4 ≤ packet.length by omega)
  rw [withChecksum, getElem?_overwrite (by rw [tcpChecksum, length_toBe16]; omega), if_pos hk]

/-- The header of the result carries a valid checksum. -/
theorem withPorts_ipChecksum {headerLen : Nat} (src dst : SocketAddrV4) (h : 20 ≤ headerLen)
    (hl : headerLen + 4 ≤ packet.length) (hv : 0 < (packet.getD 0 0).toNat) :
    IpChecksumOk (withPorts packet headerLen src dst) headerLen := by
  have hA := length_addressed src.ip dst.ip (show 20 ≤ packet.length by omega)
  have hB := length_withAddresses headerLen src.ip dst.ip (show 20 ≤ packet.length by omega)
  have htake : (withPorts packet headerLen src dst).take headerLen =
      overwrite ((addressed packet src.ip dst.ip).take headerLen) 10
        (ipChecksum (addressed packet src.ip dst.ip) headerLen) := by
    rw [withPorts, take_overwrite_of_le (Nat.le_refl _)
      (by rw [List.length_append, length_toBe16, length_toBe16]; omega), withAddresses,
      take_overwrite (by rw [ipChecksum, length_toBe16]; omega)
        (by rw [ipChecksum, length_toBe16]; omega)]
  have hzero : (overwrite (addressed packet src.ip dst.ip) 10 [0, 0]).take headerLen =
      overwrite ((addressed packet src.ip dst.ip).take headerLen) 10 [0, 0] :=
    take_overwrite (by simp only [List.length_cons, List.length_nil]; omega)
      (by simp only [List.length_cons, List.length_nil]; omega)
  have hpos : 0 < wordSum (overwrite ((addressed packet src.ip dst.ip).take headerLen) 10 [0, 0]) := by
    refine wordSum_pos ?_
    have h1 : (overwrite packet 12 src.ip.octets).length = packet.length :=
      length_overwrite (by rw [length_octets]; omega)
    rw [← hzero, List.getD_eq_getElem?_getD, List.getElem?_take_of_lt (by omega),
      getElem?_overwrite (by simp only [List.length_cons, List.length_nil]; omega),
      if_pos (by omega), addressed, getElem?_overwrite (by rw [length_octets]; omega),
      if_pos (by omega), getElem?_overwrite (by rw [length_octets]; omega), if_pos (by omega),
      ← List.getD_eq_getElem?_getD]
    exact hv
  rw [IpChecksumOk, htake, ipChecksum, hzero]
  have hver := @verifies_overwrite ((addressed packet src.ip dst.ip).take headerLen) 0 10 (by rfl)
    (by rw [List.length_take]; omega) (by rw [Nat.zero_add]; exact hpos)
  simpa only [Nat.zero_add] using hver

/-- The segment of the result carries a valid checksum. -/
theorem withChecksum_tcpChecksum {headerLen totalLen : Nat} (src dst : SocketAddrV4)
    (h : 20 ≤ headerLen) (hl : headerLen + 20 ≤ totalLen) (ht : totalLen ≤ packet.length) :
    Verifies (pseudoSum src.ip dst.ip (totalLen - headerLen) +
      wordSum (((withChecksum packet headerLen totalLen src dst).take totalLen).drop headerLen)) := by
  have hlen := length_withPorts src dst (show 20 ≤ packet.length by omega)
    (show headerLen + 4 ≤ packet.length by omega)
  have hseg : (((withPorts packet headerLen src dst).take totalLen).drop headerLen).length =
      totalLen - headerLen := by
    rw [List.length_drop, List.length_take]
    omega
  have hcut : ∀ new : Bytes, new.length = 2 →
      ((overwrite (withPorts packet headerLen src dst) (headerLen + 16) new).take totalLen).drop
        headerLen =
      overwrite (((withPorts packet headerLen src dst).take totalLen).drop headerLen) 16 new := by
    intro new hnew
    rw [take_overwrite (by omega) (by omega), drop_overwrite (by omega)
      (by rw [List.length_take]; omega), Nat.add_sub_cancel_left]
  rw [withChecksum, hcut _ (by rfl), tcpChecksum, hcut _ (by rfl)]
  refine verifies_overwrite (by rfl) (by omega) ?_
  simp only [pseudoSum, protoTcp]
  exact Nat.lt_of_lt_of_le (by decide) (Nat.le_trans (Nat.le_add_left _ _)
    (Nat.le_trans (Nat.le_add_right _ _) (Nat.le_add_right _ _)))

/-- A packet has room for its IP header and the smallest TCP header. -/
structure Room (packet : Bytes) (ip : Ipv4) : Prop where
  header : 20 ≤ ip.headerLen
  segment : ip.headerLen + 20 ≤ ip.totalLen
  total : ip.totalLen ≤ packet.length

theorem IsTcpPacket.room (h : IsTcpPacket packet ip source destination) : Room packet ip where
  header := h.ipv4.min
  segment := by
    have hle := h.ipv4.total_le
    have hmin := h.tcp.min
    rw [List.length_drop, List.length_take, tcpHdrMin] at hmin
    omega
  total := h.ipv4.total_le

/-- What is sent in the place of `packet`. -/
def readdressed (packet : Bytes) (ip : Ipv4) (src dst : SocketAddrV4) : Bytes :=
  (withChecksum packet ip.headerLen ip.totalLen src dst).take ip.totalLen

theorem Room.length_withPorts (h : Room packet ip) (src dst : SocketAddrV4) :
    (withPorts packet ip.headerLen src dst).length = packet.length := by
  obtain ⟨hmin, hseg, hle⟩ := h
  exact Stack.length_withPorts src dst (by omega) (by omega)

theorem Room.length_withChecksum (h : Room packet ip) (src dst : SocketAddrV4) :
    (withChecksum packet ip.headerLen ip.totalLen src dst).length = packet.length := by
  have hlen := h.length_withPorts src dst
  obtain ⟨hmin, hseg, hle⟩ := h
  rw [withChecksum, length_overwrite (by rw [tcpChecksum, length_toBe16]; omega), hlen]

theorem Room.length_readdressed (h : Room packet ip) (src dst : SocketAddrV4) :
    (readdressed packet ip src dst).length = ip.totalLen := by
  rw [readdressed, List.length_take, h.length_withChecksum, Nat.min_eq_left h.total]

theorem Room.frame (h : Room packet ip) (src dst : SocketAddrV4) {k : Nat}
    (hk : ¬ Rewritable ip.headerLen k) :
    (readdressed packet ip src dst)[k]? = (packet.take ip.totalLen)[k]? := by
  obtain ⟨hmin, hseg, hle⟩ := h
  rw [readdressed, List.getElem?_take, List.getElem?_take,
    withChecksum_frame src dst hmin (by omega) hk]

theorem Room.getD_frame (h : Room packet ip) (src dst : SocketAddrV4) {k : Nat}
    (hk : ¬ Rewritable ip.headerLen k) (ht : k < ip.totalLen) :
    (readdressed packet ip src dst).getD k 0 = packet.getD k 0 := by
  rw [List.getD_eq_getElem?_getD, h.frame src dst hk, List.getElem?_take_of_lt ht,
    ← List.getD_eq_getElem?_getD]

/-- Below the checksum of the segment the packet is the one with new ports. -/
theorem Room.getD_below (h : Room packet ip) (src dst : SocketAddrV4) {k : Nat}
    (hk : k < ip.headerLen + 16) : (readdressed packet ip src dst).getD k 0 =
      ((withPorts packet ip.headerLen src dst)[k]?).getD 0 := by
  obtain ⟨hmin, hseg, hle⟩ := h
  rw [readdressed, List.getD_eq_getElem?_getD, List.getElem?_take_of_lt (by omega),
    withChecksum_below src dst hmin (by omega) hk]

theorem Room.src (h : Room packet ip) (src dst : SocketAddrV4) :
    ipv4At (readdressed packet ip src dst) 12 = src.ip := by
  have hbelow := fun k => @h.getD_below _ _ src dst k
  obtain ⟨hmin, hseg, hle⟩ := h
  rw [ipv4At, hbelow _ (by omega), hbelow _ (by omega), hbelow _ (by omega), hbelow _ (by omega)]
  simp [getElem?_withPorts src dst hmin (show ip.headerLen + 4 ≤ packet.length by omega),
    Ipv4Addr.octets, show ¬ ip.headerLen ≤ 12 by omega, show ¬ ip.headerLen ≤ 13 by omega,
    show ¬ ip.headerLen ≤ 14 by omega, show ¬ ip.headerLen ≤ 15 by omega]

theorem Room.dst (h : Room packet ip) (src dst : SocketAddrV4) :
    ipv4At (readdressed packet ip src dst) 16 = dst.ip := by
  have hbelow := fun k => @h.getD_below _ _ src dst k
  obtain ⟨hmin, hseg, hle⟩ := h
  rw [ipv4At, hbelow _ (by omega), hbelow _ (by omega), hbelow _ (by omega), hbelow _ (by omega)]
  simp [getElem?_withPorts src dst hmin (show ip.headerLen + 4 ≤ packet.length by omega),
    Ipv4Addr.octets, show ¬ ip.headerLen ≤ 16 by omega, show ¬ ip.headerLen ≤ 17 by omega,
    show ¬ ip.headerLen ≤ 18 by omega, show ¬ ip.headerLen ≤ 19 by omega]

theorem Room.ports (h : Room packet ip) (src dst : SocketAddrV4) :
    u16At ((readdressed packet ip src dst).drop ip.headerLen) 0 = src.port ∧
      u16At ((readdressed packet ip src dst).drop ip.headerLen) 2 = dst.port := by
  have hport : ∀ i, i < 4 → ((readdressed packet ip src dst).drop ip.headerLen).getD i 0 =
      (toBe16 src.port.toNat ++ toBe16 dst.port.toNat).getD i 0 := by
    intro i hi
    rw [List.getD_eq_getElem?_getD, List.getElem?_drop, ← List.getD_eq_getElem?_getD,
      h.getD_below src dst (by omega), getElem?_withPorts src dst h.header
        (Nat.le_trans (Nat.add_le_add_left (by decide) _) (Nat.le_trans h.segment h.total)),
      if_pos ⟨by omega, by omega⟩, Nat.add_sub_cancel_left, ← List.getD_eq_getElem?_getD]
  constructor
  · rw [u16At, hport 0 (by decide), hport 1 (by decide)]
    exact uint16_ofBe16_toBe16 src.port
  · rw [u16At, hport 2 (by decide), hport 3 (by decide)]
    exact uint16_ofBe16_toBe16 dst.port

/-! ## Rewriting a TCP packet -/

/-- A place of the header that is not rewritten keeps its byte. -/
theorem IsTcpPacket.header_kept (h : IsTcpPacket packet ip source destination)
    (src dst : SocketAddrV4) {k : Nat} (hk : k < 10) :
    (readdressed packet ip src dst).getD k 0 = packet.getD k 0 := by
  obtain ⟨hmin, hseg, hle⟩ := h.room
  refine h.room.getD_frame src dst (fun hr => ?_) (by omega)
  rcases hr with hr | hr | hr <;> omega

theorem IsTcpPacket.readdressed_ipv4 (h : IsTcpPacket packet ip source destination)
    (src dst : SocketAddrV4) :
    IsIpv4 (readdressed packet ip src dst) { ip with src := src.ip, dst := dst.ip } where
  version := by rw [h.header_kept src dst (by decide)]; exact h.ipv4.version
  ihl := by rw [h.header_kept src dst (by decide)]; exact h.ipv4.ihl
  min := h.ipv4.min
  fits := by rw [h.room.length_readdressed]; exact h.ipv4.header_le
  total := by
    have hword : u16At (readdressed packet ip src dst) 2 = u16At packet 2 := by
      rw [u16At, h.header_kept src dst (by decide), h.header_kept src dst (by decide), u16At]
    have htotal := h.ipv4.total
    have hheader := h.ipv4.header_le
    have hle := h.ipv4.total_le
    rw [totalAt] at htotal
    show ip.totalLen = totalAt _ ip.headerLen
    rw [totalAt, hword, h.room.length_readdressed]
    split at htotal <;> split <;> omega
  proto := by rw [h.header_kept src dst (by decide)]; exact h.ipv4.proto
  src := (h.room.src src dst).symm
  dst := (h.room.dst src dst).symm

theorem IsTcpPacket.readdressed_tcp (h : IsTcpPacket packet ip source destination)
    (src dst : SocketAddrV4) :
    IsTcp (((readdressed packet ip src dst).take ip.totalLen).drop ip.headerLen) src.port
      dst.port := by
  have hlen := h.room.length_readdressed src dst
  have hports := h.room.ports src dst
  obtain ⟨hmin, hseg, hle⟩ := h.room
  have hoff : dataOffset ((readdressed packet ip src dst).drop ip.headerLen) =
      dataOffset ((packet.take ip.totalLen).drop ip.headerLen) := by
    have hr : ¬ Rewritable ip.headerLen (ip.headerLen + 12) := by
      simp only [Rewritable]
      omega
    simp only [dataOffset, List.getD_eq_getElem?_getD, List.getElem?_drop]
    rw [h.room.frame src dst hr]
  have hsize : ((readdressed packet ip src dst).drop ip.headerLen).length =
      ((packet.take ip.totalLen).drop ip.headerLen).length := by
    rw [List.length_drop, List.length_drop, List.length_take, hlen, Nat.min_eq_left hle]
  rw [List.take_of_length_le (by omega)]
  exact ⟨hsize ▸ h.tcp.min, hoff ▸ h.tcp.offset, by rw [hoff, hsize]; exact h.tcp.fits,
    hports.1.symm, hports.2.symm⟩

/-- The three calls that rewrite a TCP packet stay in range. -/
theorem readdress_eq (h : IsTcpPacket packet ip source destination) (src dst : SocketAddrV4) :
    readdress packet ip src dst = .ok (readdressed packet ip src dst) := by
  have htotal : totalAt (withPorts packet ip.headerLen src dst) ip.headerLen = ip.totalLen := by
    have hword : u16At (withPorts packet ip.headerLen src dst) 2 = u16At packet 2 := by
      have hle := h.room.segment
      rw [u16At, List.getD_eq_getElem?_getD, List.getD_eq_getElem?_getD,
        ← h.room.getD_below src dst (by omega), ← h.room.getD_below src dst (by omega),
        h.header_kept src dst (by decide), h.header_kept src dst (by decide), u16At]
    rw [totalAt, hword, h.room.length_withPorts, h.ipv4.total, totalAt]
  have hC := h.room.length_withPorts src dst
  have hD := h.room.length_withChecksum src dst
  obtain ⟨hmin, hseg, hle⟩ := h.room
  have hB := length_withAddresses ip.headerLen src.ip dst.ip (show 20 ≤ packet.length by omega)
  rw [readdress, setAddresses_eq _ _ hmin (by omega)]
  show (within (withAddresses packet ip.headerLen src.ip dst.ip) _ _ _ >>= _) = _
  rw [setPorts_eq _ _ (by omega) (by omega)]
  show (updateTcpChecksum (withPorts packet ip.headerLen src dst) _ _ _ >>= _) = _
  rw [updateTcpChecksum_eq _ _ (by omega) (by omega) (by omega), htotal]
  show slice (withChecksum packet ip.headerLen ip.totalLen src dst) 0 _ = _
  rw [slice_ok (Nat.zero_le _) (by omega), List.drop_zero]
  rfl

/-- What is sent in the place of a TCP packet is the packet between the new endpoints. -/
theorem readdressed_spec (h : IsTcpPacket packet ip source destination) (src dst : SocketAddrV4) :
    Readdressed packet (readdressed packet ip src dst) ip src dst where
  length := h.room.length_readdressed src dst
  endpoints := ⟨h.readdressed_ipv4 src dst, h.proto, rfl, rfl, h.readdressed_tcp src dst⟩
  frame k hk := h.room.frame src dst hk
  ipChecksum := by
    have hC := h.room.length_withPorts src dst
    obtain ⟨hmin, hseg, hle⟩ := h.room
    have htake : (readdressed packet ip src dst).take ip.headerLen =
        (withPorts packet ip.headerLen src dst).take ip.headerLen := by
      rw [readdressed, List.take_take, Nat.min_eq_left (by omega), withChecksum,
        take_overwrite_of_le (by omega) (by rw [tcpChecksum, length_toBe16]; omega)]
    have hfirst : 0 < (packet.getD 0 0).toNat := by
      by_contra hz
      have hzero : packet.getD 0 0 = 0 := UInt8.toNat_inj.mp (Nat.eq_zero_of_not_pos hz)
      have hv := h.ipv4.version
      rw [hzero] at hv
      exact absurd hv (by decide)
    have hok := withPorts_ipChecksum src dst hmin (by omega) hfirst
    rw [IpChecksumOk] at hok ⊢
    rw [htake]
    exact hok
  tcpChecksum := by
    have hlen := h.room.length_readdressed src dst
    have hok := withChecksum_tcpChecksum src dst h.room.header h.room.segment h.room.total
    rw [TcpChecksumOk, h.room.src, h.room.dst, hlen]
    exact hok

end

end Stack

end RustClash
