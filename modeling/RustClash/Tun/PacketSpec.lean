import RustClash.Lib.OnesComplement
import RustClash.Tun.Packet

/-!
# What the packet functions do

`IsIpv4` and `IsTcp` say which packets the parsers accept and what they read out
of them.  No access is out of range on any packet.  `Readdressed` is what the
rewriting functions leave together: a packet between other endpoints, equal to
the old one at all other places, whose two checksums verify.
-/

namespace RustClash

namespace Packet

open Checked OnesComplement

/-! ## Reading -/

def u16At (bytes : Bytes) (i : Nat) : UInt16 :=
  UInt16.ofNat (ofBe16 (bytes.getD i 0) (bytes.getD (i + 1) 0))

def ipv4At (bytes : Bytes) (i : Nat) : Ipv4Addr :=
  ⟨bytes.getD i 0, bytes.getD (i + 1) 0, bytes.getD (i + 2) 0, bytes.getD (i + 3) 0⟩

@[simp] theorem length_octets (ip : Ipv4Addr) : ip.octets.length = 4 := rfl

theorem readU16_ok {bytes : Bytes} {i : Nat} (h : i + 1 < bytes.length) :
    readU16 bytes i = .ok (u16At bytes i) := by
  rw [readU16, get_ok (by omega) 0, get_ok h 0]
  rfl

theorem readIpv4Addr_ok {bytes : Bytes} {i : Nat} (h : i + 3 < bytes.length) :
    readIpv4Addr bytes i = .ok (ipv4At bytes i) := by
  rw [readIpv4Addr, get_ok (by omega) 0, get_ok (by omega) 0, get_ok (by omega) 0, get_ok h 0]
  rfl

/-- A declared length counts where it is possible; otherwise all there is counts. -/
theorem declared_bounds {declared min len : Nat} (h : min ≤ len) :
    min ≤ (if declared < min ∨ len < declared then len else declared) ∧
      (if declared < min ∨ len < declared then len else declared) ≤ len := by
  split <;> omega

/-- The length a packet is taken to have: the declared one where it is possible. -/
def totalAt (packet : Bytes) (headerLen : Nat) : Nat :=
  if (u16At packet 2).toNat < headerLen ∨ packet.length < (u16At packet 2).toNat then packet.length
  else (u16At packet 2).toNat

/-- A packet with an IPv4 header that reads as `ip`. -/
structure IsIpv4 (packet : Bytes) (ip : Ipv4) : Prop where
  version : packet.getD 0 0 >>> 4 = 4
  ihl : ip.headerLen = (packet.getD 0 0 &&& 0x0F).toNat * 4
  min : ipHdrMin ≤ ip.headerLen
  fits : ip.headerLen ≤ packet.length
  total : ip.totalLen = totalAt packet ip.headerLen
  proto : ip.proto = packet.getD 9 0
  src : ip.src = ipv4At packet 12
  dst : ip.dst = ipv4At packet 16

theorem IsIpv4.total_le {packet : Bytes} {ip : Ipv4} (h : IsIpv4 packet ip) :
    ip.totalLen ≤ packet.length := by
  rw [h.total, totalAt]
  exact (declared_bounds h.fits).2

theorem IsIpv4.header_le {packet : Bytes} {ip : Ipv4} (h : IsIpv4 packet ip) :
    ip.headerLen ≤ ip.totalLen := by
  rw [h.total, totalAt]
  exact (declared_bounds h.fits).1

/-- `parse_ipv4` reads the header of any packet that has one, and nothing out of range. -/
theorem parseIpv4_spec (packet : Bytes) :
    (parseIpv4 packet = .ok none ∧ ∀ ip, ¬ IsIpv4 packet ip) ∨
      ∃ ip, parseIpv4 packet = .ok (some ip) ∧ IsIpv4 packet ip := by
  simp only [parseIpv4]
  split
  · next hlen =>
      refine .inl ⟨rfl, fun ip h => ?_⟩
      have := h.min
      have := h.fits
      omega
  · next hlen =>
      have hlen : 20 ≤ packet.length := Nat.not_lt.mp hlen
      rw [get_ok (by omega : 0 < packet.length) 0]
      simp only [bind, Except.bind]
      split
      · next hv => exact .inl ⟨rfl, fun ip h => hv h.version⟩
      · next hv =>
          split
          · next hh =>
              refine .inl ⟨rfl, fun ip h => ?_⟩
              have hmin := h.min
              have hfits := h.fits
              rw [h.ihl] at hmin hfits
              omega
          · next hh =>
              obtain ⟨hmin, hfits⟩ := not_or.mp hh
              rw [readU16_ok (by omega), get_ok (by omega) 0, readIpv4Addr_ok (by omega),
                readIpv4Addr_ok (by omega)]
              exact .inr ⟨_, rfl, of_not_not hv, rfl, Nat.not_lt.mp hmin,
                Nat.not_lt.mp hfits, rfl, rfl, rfl, rfl⟩

theorem IsIpv4.unique {packet : Bytes} {ip ip' : Ipv4} (h : IsIpv4 packet ip)
    (h' : IsIpv4 packet ip') : ip = ip' := by
  have hl : ip.headerLen = ip'.headerLen := h.ihl.trans h'.ihl.symm
  have ht : ip.totalLen = ip'.totalLen := by rw [h.total, h'.total, hl]
  have hp := h.proto.trans h'.proto.symm
  have hs := h.src.trans h'.src.symm
  have hd := h.dst.trans h'.dst.symm
  cases ip
  cases ip'
  simp_all

theorem parseIpv4_eq {packet : Bytes} {ip : Ipv4} (h : IsIpv4 packet ip) :
    parseIpv4 packet = .ok (some ip) := by
  rcases parseIpv4_spec packet with ⟨_, hno⟩ | ⟨ip', hp, h'⟩
  · exact absurd h (hno ip)
  · rw [hp, h.unique h']

/-- The length of a TCP header. -/
def dataOffset (segment : Bytes) : Nat := (segment.getD 12 0 >>> 4).toNat * 4

/-- A segment with a TCP header between these ports. -/
structure IsTcp (segment : Bytes) (src dst : UInt16) : Prop where
  min : tcpHdrMin ≤ segment.length
  offset : tcpHdrMin ≤ dataOffset segment
  fits : dataOffset segment ≤ segment.length
  src : src = u16At segment 0
  dst : dst = u16At segment 2

theorem parseTcp_spec (segment : Bytes) :
    (parseTcp segment = .ok none ∧ ∀ src dst, ¬ IsTcp segment src dst) ∨
      ∃ src dst flags off, parseTcp segment = .ok (some (src, dst, flags, off)) ∧
        IsTcp segment src dst := by
  simp only [parseTcp]
  split
  · next hlen => exact .inl ⟨rfl, fun src dst h => Nat.not_lt.mpr h.min hlen⟩
  · next hlen =>
      have hlen : 20 ≤ segment.length := Nat.not_lt.mp hlen
      rw [readU16_ok (by omega), readU16_ok (by omega), get_ok (by omega) 0, get_ok (by omega) 0]
      simp only [bind, Except.bind]
      split
      · next ho =>
          refine .inl ⟨rfl, fun src dst h => ?_⟩
          rcases ho with ho | ho
          · exact Nat.not_lt.mpr h.offset ho
          · exact Nat.not_lt.mpr h.fits ho
      · next ho =>
          obtain ⟨hmin, hfits⟩ := not_or.mp ho
          exact .inr ⟨_, _, _, _, rfl, hlen, Nat.not_lt.mp hmin, Nat.not_lt.mp hfits, rfl, rfl⟩

theorem parseUdp_spec (segment : Bytes) : parseUdp segment = .ok none ∨
    ∃ src dst len, parseUdp segment = .ok (some (src, dst, len)) ∧
      udpHdr + len ≤ segment.length := by
  simp only [parseUdp]
  split
  · exact .inl rfl
  · next hlen =>
      have hlen : 8 ≤ segment.length := Nat.not_lt.mp hlen
      rw [readU16_ok (by omega), readU16_ok (by omega), readU16_ok (by omega)]
      obtain ⟨hmin, hmax⟩ := @declared_bounds (u16At segment 4).toNat udpHdr segment.length hlen
      refine .inr ⟨_, _, _, rfl, ?_⟩
      simp only [udpHdr] at hmin hmax ⊢
      omega

/-! ## Checksums -/

theorem sumWordsFrom_eq : ∀ (data : Bytes) (sum : Nat), sumWordsFrom data sum = sum + wordSum data
  | [], _ => rfl
  | [_], _ => rfl
  | hi :: lo :: rest, sum => by
      rw [sumWordsFrom, sumWordsFrom_eq rest, wordSum, Nat.add_assoc]

theorem sumWords_eq (data : Bytes) : sumWords data = wordSum data := by
  rw [sumWords, sumWordsFrom_eq, Nat.zero_add]

/-- The sum of a packet that the device delivers fits `u32`. -/
theorem sumWords_lt {data : Bytes} (h : data.length ≤ 0xFFFF) : sumWords data < 2 ^ 31 := by
  have := wordSum_le data
  rw [sumWords_eq]
  omega

theorem foldCarries_eq (sum : Nat) : foldCarries sum = endAround sum := by
  induction sum using Nat.strongRecOn with
  | ind sum ih =>
      rw [foldCarries]
      split
      · next h => exact (endAround_of_le h).symm
      · rw [ih _ (by omega), endAround_carry]

theorem fold_eq (sum : Nat) : fold sum = 0xFFFF - endAround sum := by
  rw [fold, foldCarries_eq]

/-- What the pseudo-header of a segment adds to its checksum. -/
def pseudoSum (src dst : Ipv4Addr) (tcpLen : Nat) : Nat :=
  addIp (addIp 0 src) dst + protoTcp.toNat + tcpLen

def IpChecksumOk (packet : Bytes) (headerLen : Nat) : Prop :=
  Verifies (wordSum (packet.take headerLen))

/-- The checksum over the pseudo-header, which has the addresses of the packet itself,
and the segment. -/
def TcpChecksumOk (packet : Bytes) (headerLen : Nat) : Prop :=
  Verifies (pseudoSum (ipv4At packet 12) (ipv4At packet 16) (packet.length - headerLen) +
    wordSum (packet.drop headerLen))

end Packet

end RustClash
