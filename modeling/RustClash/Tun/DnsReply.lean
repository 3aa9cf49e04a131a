import RustClash.Core.DnsEcho
import RustClash.Tun.PacketU32
import RustClash.Tun.RoundTrip
import RustClash.Tun.Routing

/-!
# Answers to DNS queries

`handle_dns` puts an answer into a packet of its own: an IPv4 header of twenty bytes, a UDP
header of eight and the answer, from where the query went to where it came from.  `IsReply`
is what such a packet is.  Answers are short enough for it (`length_answer_le`), so that
`process_packet` stops on no packet and sends no other answers.
-/

namespace RustClash

open Str Checked OnesComplement

namespace Packet

/-! ## Writing -/

def setTotalLengthU32 (packet : Bytes) (totalLen : Nat) : Checked Bytes := do
  let packet ← copy packet 2 4 (toBe16 totalLen)
  let first ← get packet 0
  updateIpChecksumU32 packet ((first &&& 0x0F).toNat * 4)

def writeUdpU32 (segment : Bytes) (srcPort dstPort : UInt16) (payload : Bytes)
    (src dst : Ipv4Addr) : Checked Bytes := do
  let udpLen := udpHdr + payload.length
  let segment ← copy segment 0 2 (toBe16 srcPort.toNat)
  let segment ← copy segment 2 4 (toBe16 dstPort.toNat)
  let segment ← copy segment 4 6 (toBe16 udpLen)
  let segment ← copy segment 6 8 [0, 0]
  let segment ← copy segment udpHdr udpLen payload
  let words ← slice segment 0 udpLen
  let sum ← segmentSumU32 src dst protoUdp udpLen words
  let csum ← foldU32 sum
  copy segment 6 8 (toBe16 (if csum = 0 then 0xFFFF else csum))

/-- The packet that `handle_dns` builds for an answer to a query from `src` to `dst`. -/
def replyPacket (src dst : Ipv4Addr) (srcPort : UInt16) (answer : Bytes) : Checked Bytes := do
  let out := List.replicate (20 + udpHdr + answer.length) 0
  let out ← copy out 0 1 [0x45]
  let out ← copy out 8 9 [64]
  let out ← copy out 9 10 [protoUdp]
  let out ← setAddressesU32 out 20 dst src
  let out ← setTotalLengthU32 out (20 + udpHdr + answer.length)
  let out ← within out 20 out.length fun segment => writeUdpU32 segment 53 srcPort answer dst src
  slice out 0 (20 + udpHdr + answer.length)

/-! ## What is written -/

def ipHeader (total csum : Nat) (src dst : Ipv4Addr) : Bytes :=
  [0x45, 0] ++ toBe16 total ++ [0, 0, 0, 0, 64, protoUdp] ++ toBe16 csum ++ src.octets ++ dst.octets

def udpHeader (src dst : UInt16) (len csum : Nat) : Bytes :=
  toBe16 src.toNat ++ toBe16 dst.toNat ++ toBe16 len ++ toBe16 csum

/-- The checksum of an answer, which is not zero. -/
def udpChecksum (srcPort dstPort : UInt16) (payload : Bytes) (src dst : Ipv4Addr) : Nat :=
  let csum := fold (addIp (addIp 0 src) dst + protoUdp.toNat + (udpHdr + payload.length) +
    sumWords (udpHeader srcPort dstPort (udpHdr + payload.length) 0 ++ payload))
  if csum = 0 then 0xFFFF else csum

theorem updateIpChecksumU32_header (total csum : Nat) (src dst : Ipv4Addr) (rest : Bytes) :
    updateIpChecksumU32 (ipHeader total csum src dst ++ rest) 20 =
      .ok (ipHeader total (fold (sumWords (ipHeader total 0 src dst))) src dst ++ rest) := by
  have hlen (n : Nat) : (ipHeader total n src dst ++ rest).length = 20 + rest.length := by
    rw [List.length_append]
    rfl
  have hzero : overwrite (ipHeader total csum src dst ++ rest) 10 [0, 0] =
      ipHeader total 0 src dst ++ rest := rfl
  have hsum : sumWordsU32 (ipHeader total 0 src dst) = .ok (sumWords (ipHeader total 0 src dst)) :=
    sumWordsU32_eq (show 20 ≤ 0xFFFF by decide)
  have hlt : sumWords (ipHeader total 0 src dst) < 2 ^ 31 :=
    sumWords_lt (show 20 ≤ 0xFFFF by decide)
  have htake : (ipHeader total 0 src dst ++ rest).take 20 = ipHeader total 0 src dst := rfl
  rw [updateIpChecksumU32, copy_ok (by rfl) (by rw [hlen]; omega), ok_bind, hzero,
    slice_ok (Nat.zero_le 20) (by rw [hlen]; omega), ok_bind, List.drop_zero, htake, hsum, ok_bind,
    foldU32_eq (Nat.lt_trans hlt (by decide)), ok_bind]
  exact copy_ok (by rfl) (by rw [hlen]; omega)

theorem length_udpHeader (src dst : UInt16) (len csum : Nat) (payload : Bytes) :
    (udpHeader src dst len csum ++ payload).length = 8 + payload.length := by
  rw [List.length_append]
  rfl

theorem writeUdpU32_eq {payload : Bytes} (h : 8 + payload.length ≤ 0xFFFF)
    (srcPort dstPort : UInt16) (src dst : Ipv4Addr) :
    writeUdpU32 (List.replicate (8 + payload.length) 0) srcPort dstPort payload src dst =
      .ok (udpHeader srcPort dstPort (udpHdr + payload.length)
        (udpChecksum srcPort dstPort payload src dst) ++ payload) := by
  have hblank : List.replicate (8 + payload.length) 0 =
      udpHeader 0 0 0 0 ++ List.replicate payload.length 0 := List.replicate_add ..
  have hlen (src dst : UInt16) (len csum : Nat) :
      (udpHeader src dst len csum ++ List.replicate payload.length 0).length =
        8 + payload.length := by
    rw [length_udpHeader, List.length_replicate]
  have hfull : (udpHeader srcPort dstPort (udpHdr + payload.length) 0 ++ payload).length =
      udpHdr + payload.length := length_udpHeader ..
  have hpayload : overwrite (udpHeader srcPort dstPort (udpHdr + payload.length) 0 ++
      List.replicate payload.length 0) udpHdr payload =
        udpHeader srcPort dstPort (udpHdr + payload.length) 0 ++ payload := by
    have hdrop : (udpHeader srcPort dstPort (udpHdr + payload.length) 0 ++
        List.replicate payload.length 0).drop (udpHdr + payload.length) = [] :=
      List.drop_of_length_le (Nat.le_of_eq (hlen ..))
    rw [overwrite, hdrop, List.append_nil]
    rfl
  have htake : (udpHeader srcPort dstPort (udpHdr + payload.length) 0 ++ payload).take
      (udpHdr + payload.length) =
        udpHeader srcPort dstPort (udpHdr + payload.length) 0 ++ payload :=
    List.take_of_length_le (Nat.le_of_eq hfull)
  obtain ⟨hsum, hlt⟩ := @segmentSumU32_eq src dst protoUdp (udpHdr + payload.length)
    (udpHeader srcPort dstPort (udpHdr + payload.length) 0 ++ payload) h (hfull ▸ h)
  have hsrc : overwrite (udpHeader 0 0 0 0 ++ List.replicate payload.length 0) 0
      (toBe16 srcPort.toNat) = udpHeader srcPort 0 0 0 ++ List.replicate payload.length 0 := rfl
  have hdst : overwrite (udpHeader srcPort 0 0 0 ++ List.replicate payload.length 0) 2
      (toBe16 dstPort.toNat) = udpHeader srcPort dstPort 0 0 ++ List.replicate payload.length 0 :=
    rfl
  have hlength : overwrite (udpHeader srcPort dstPort 0 0 ++ List.replicate payload.length 0) 4
      (toBe16 (udpHdr + payload.length)) =
        udpHeader srcPort dstPort (udpHdr + payload.length) 0 ++ List.replicate payload.length 0 :=
    rfl
  have hzero : overwrite (udpHeader srcPort dstPort (udpHdr + payload.length) 0 ++
      List.replicate payload.length 0) 6 [0, 0] =
        udpHeader srcPort dstPort (udpHdr + payload.length) 0 ++ List.replicate payload.length 0 :=
    rfl
  rw [hblank, writeUdpU32, copy_ok (by rfl) (by rw [hlen]; omega), ok_bind, hsrc,
    copy_ok (by rfl) (by rw [hlen]; omega), ok_bind, hdst,
    copy_ok (by rfl) (by rw [hlen]; omega), ok_bind, hlength,
    copy_ok (by rfl) (by rw [hlen]; omega), ok_bind, hzero,
    copy_ok (by rfl) (by rw [hlen]; exact Nat.le_refl _), ok_bind, hpayload,
    slice_ok (Nat.zero_le _) (Nat.le_of_eq hfull.symm), ok_bind, List.drop_zero, htake, hsum,
    ok_bind, foldU32_eq hlt, ok_bind]
  exact copy_ok (by rfl)
    (Nat.le_trans (Nat.le_add_right 8 payload.length) (Nat.le_of_eq hfull.symm))

/-- The fields of the header that are written one by one. -/
def bareHeader (version ttl proto : UInt8) : Bytes :=
  [version, 0, 0, 0, 0, 0, 0, 0, ttl, proto, 0, 0, 0, 0, 0, 0, 0, 0, 0, 0]

/-- The checksum of the header of an answer. -/
def headerChecksum (total : Nat) (src dst : Ipv4Addr) : Nat :=
  fold (sumWords (ipHeader total 0 src dst))

theorem setAddressesU32_bare (src dst : Ipv4Addr) (rest : Bytes) :
    setAddressesU32 (bareHeader 0x45 64 protoUdp ++ rest) 20 src dst =
      .ok (ipHeader 0 (headerChecksum 0 src dst) src dst ++ rest) := by
  let blank : Ipv4Addr := ⟨0, 0, 0, 0⟩
  have hlen (src dst : Ipv4Addr) : 20 ≤ (ipHeader 0 0 src dst ++ rest).length := by
    rw [List.length_append]
    exact Nat.le_add_right 20 _
  have hbare : bareHeader 0x45 64 protoUdp ++ rest = ipHeader 0 0 blank blank ++ rest := rfl
  have hsrc : overwrite (ipHeader 0 0 blank blank ++ rest) 12 src.octets =
      ipHeader 0 0 src blank ++ rest := rfl
  have hdst : overwrite (ipHeader 0 0 src blank ++ rest) 16 dst.octets =
      ipHeader 0 0 src dst ++ rest := rfl
  rw [hbare, setAddressesU32, copy_ok (by rfl) (Nat.le_trans (by decide) (hlen _ _)), ok_bind, hsrc,
    copy_ok (by rfl) (hlen _ _), ok_bind, hdst]
  exact updateIpChecksumU32_header 0 0 src dst rest

theorem setTotalLengthU32_header (total total' csum : Nat) (src dst : Ipv4Addr) (rest : Bytes) :
    setTotalLengthU32 (ipHeader total csum src dst ++ rest) total' =
      .ok (ipHeader total' (headerChecksum total' src dst) src dst ++ rest) := by
  have hlen : 20 ≤ (ipHeader total csum src dst ++ rest).length := by
    rw [List.length_append]
    exact Nat.le_add_right 20 _
  have htotal : overwrite (ipHeader total csum src dst ++ rest) 2 (toBe16 total') =
      ipHeader total' csum src dst ++ rest := rfl
  have hfirst : get (ipHeader total' csum src dst ++ rest) 0 = .ok 0x45 := rfl
  rw [setTotalLengthU32, copy_ok (by rfl) (Nat.le_trans (by decide) hlen), ok_bind, htotal, hfirst,
    ok_bind]
  exact updateIpChecksumU32_header total' csum src dst rest

/-- The packet of an answer, written out. -/
theorem replyPacket_eq {answer : Bytes} (h : 28 + answer.length ≤ 0xFFFF) (src dst : Ipv4Addr)
    (srcPort : UInt16) : replyPacket src dst srcPort answer =
      .ok (ipHeader (28 + answer.length) (headerChecksum (28 + answer.length) dst src) dst src ++
        (udpHeader 53 srcPort (8 + answer.length) (udpChecksum 53 srcPort answer dst src) ++
          answer)) := by
  generalize hbody : udpHeader 53 srcPort (8 + answer.length)
    (udpChecksum 53 srcPort answer dst src) ++ answer = body
  have hbodylen : body.length = 8 + answer.length := by
    rw [← hbody, length_udpHeader]
  let blank : Bytes := List.replicate (8 + answer.length) 0
  have hblanklen : blank.length = 8 + answer.length := List.length_replicate
  have hblank : List.replicate (20 + udpHdr + answer.length) (0 : UInt8) =
      bareHeader 0 0 0 ++ blank := by
    rw [Nat.add_assoc]
    exact List.replicate_add ..
  have hbare (version ttl proto : UInt8) : 20 ≤ (bareHeader version ttl proto ++ blank).length := by
    rw [List.length_append]
    exact Nat.le_add_right 20 _
  have hversion : overwrite (bareHeader 0 0 0 ++ blank) 0 [0x45] = bareHeader 0x45 0 0 ++ blank :=
    rfl
  have httl : overwrite (bareHeader 0x45 0 0 ++ blank) 8 [64] = bareHeader 0x45 64 0 ++ blank := rfl
  have hproto : overwrite (bareHeader 0x45 64 0 ++ blank) 9 [protoUdp] =
      bareHeader 0x45 64 protoUdp ++ blank := rfl
  rw [replyPacket, hblank, copy_ok (by rfl) (Nat.le_trans (by decide) (hbare ..)), ok_bind,
    hversion, copy_ok (by rfl) (Nat.le_trans (by decide) (hbare ..)), ok_bind, httl,
    copy_ok (by rfl) (Nat.le_trans (by decide) (hbare ..)), ok_bind, hproto, setAddressesU32_bare,
    ok_bind, setTotalLengthU32_header, ok_bind]
  generalize hhead : ipHeader (20 + udpHdr + answer.length)
    (headerChecksum (20 + udpHdr + answer.length) dst src) dst src = head
  have hheadlen : head.length = 20 := hhead ▸ rfl
  have hlen : (head ++ blank).length = 28 + answer.length := by
    rw [List.length_append, hheadlen, hblanklen]
    omega
  have hsegment : ((head ++ blank).take (head ++ blank).length).drop 20 = blank := by
    rw [List.take_length, ← hheadlen, List.drop_left]
  have hwithin : within (head ++ blank) 20 (head ++ blank).length (fun segment =>
      writeUdpU32 segment 53 srcPort answer dst src) = .ok (overwrite (head ++ blank) 20 body) := by
    refine within_ok (by omega) (Nat.le_refl _) ?_
    rw [hsegment, ← hbody]
    exact writeUdpU32_eq (by omega) 53 srcPort dst src
  have hwritten : overwrite (head ++ blank) 20 body = head ++ body := by
    rw [overwrite, ← hheadlen, List.take_left, List.drop_of_length_le, List.append_nil]
    rw [List.length_append, hblanklen, hbodylen]
  have hwhole : (head ++ body).length = 20 + udpHdr + answer.length := by
    rw [List.length_append, hheadlen, hbodylen, Nat.add_assoc]
    rfl
  rw [hwithin, ok_bind, hwritten, slice_ok (Nat.zero_le _) (Nat.le_of_eq hwhole.symm), ← hwhole,
    List.take_length, List.drop_zero, ← hhead]
  rfl

/-! ## Answers that are well formed -/

/-- The checksum of a datagram over the pseudo-header, which has the addresses of the packet. -/
def UdpChecksumOk (packet : Bytes) (headerLen : Nat) : Prop :=
  Verifies (addIp (addIp 0 (ipv4At packet 12)) (ipv4At packet 16) + protoUdp.toNat +
    (packet.length - headerLen) + wordSum (packet.drop headerLen))

/-- A packet that carries `answer` from port 53 of `src` to a port of `dst`. -/
structure IsReply (out : Bytes) (src dst : Ipv4Addr) (port : UInt16) (answer : Bytes) : Prop where
  ipv4 : IsIpv4 out ⟨20, protoUdp, src, dst, out.length⟩
  total : (u16At out 2).toNat = out.length
  fromPort : u16At out 20 = 53
  toPort : u16At out 22 = port
  udpLength : 20 + (u16At out 24).toNat = out.length
  ipChecksum : IpChecksumOk out 20
  /-- A checksum of zero would say that there is none. -/
  summed : u16At out 26 ≠ 0
  udpChecksum : UdpChecksumOk out 20
  payload : out.drop 28 = answer

theorem toNat_u16_of_be {n : Nat} (h : n ≤ 0xFFFF) {hi lo : UInt8} (hbe : [hi, lo] = toBe16 n) :
    (UInt16.ofNat (ofBe16 hi lo)).toNat = n := by
  obtain ⟨rfl, rfl⟩ : hi = UInt8.ofNat (n / 256) ∧ lo = UInt8.ofNat n := by
    injection hbe with hhi hlo
    exact ⟨hhi, List.head_eq_of_cons_eq hlo⟩
  rw [ofBe16_toBe16 (by omega), UInt16.toNat_ofNat_of_lt' (Nat.lt_succ_of_le h)]

theorem headerChecksum_verifies (total : Nat) (src dst : Ipv4Addr) :
    Verifies (wordSum (ipHeader total (headerChecksum total src dst) src dst)) := by
  have hpos : 0 < wordSum (ipHeader total 0 src dst) :=
    wordSum_pos (show 0 < (0x45 : UInt8).toNat by decide)
  have hzero : overwrite (ipHeader total 0 src dst) 10 [0, 0] = ipHeader total 0 src dst := rfl
  have hfull (n : Nat) : overwrite (ipHeader total 0 src dst) 10 (toBe16 n) =
      ipHeader total n src dst := rfl
  have hlen : (ipHeader total 0 src dst).length = 20 := rfl
  have hver := @verifies_overwrite (ipHeader total 0 src dst) 0 10 (by rfl) (by rw [hlen]; decide)
    (by rwa [hzero, Nat.zero_add])
  rw [headerChecksum, fold_eq, sumWords_eq]
  simpa only [hzero, hfull, Nat.zero_add] using hver

theorem udpChecksum_bounds (srcPort dstPort : UInt16) (payload : Bytes) (src dst : Ipv4Addr) :
    0 < udpChecksum srcPort dstPort payload src dst ∧
      udpChecksum srcPort dstPort payload src dst ≤ 0xFFFF := by
  dsimp only [udpChecksum]
  rw [fold_eq]
  split <;> omega

theorem udpChecksum_verifies (srcPort dstPort : UInt16) (payload : Bytes) (src dst : Ipv4Addr) :
    Verifies (addIp (addIp 0 src) dst + protoUdp.toNat + (udpHdr + payload.length) +
      wordSum (udpHeader srcPort dstPort (udpHdr + payload.length)
        (udpChecksum srcPort dstPort payload src dst) ++ payload)) := by
  generalize hbase : addIp (addIp 0 src) dst + protoUdp.toNat + (udpHdr + payload.length) = base
  generalize hheader : udpHeader srcPort dstPort (udpHdr + payload.length) 0 ++ payload = bare
  have hsum : wordSum (udpHeader srcPort dstPort (udpHdr + payload.length)
      (udpChecksum srcPort dstPort payload src dst) ++ payload) =
        wordSum bare + udpChecksum srcPort dstPort payload src dst := by
    have hfull : overwrite bare 6 (toBe16 (udpChecksum srcPort dstPort payload src dst)) =
        udpHeader srcPort dstPort (udpHdr + payload.length)
          (udpChecksum srcPort dstPort payload src dst) ++ payload := hheader ▸ rfl
    have hzero : overwrite bare 6 [0, 0] = bare := hheader ▸ rfl
    have hlen : bare.length = 8 + payload.length := hheader ▸ length_udpHeader ..
    have hbe := @wordSum_overwrite bare 6 (by rfl) (by omega)
      (UInt8.ofNat (udpChecksum srcPort dstPort payload src dst / 256))
      (UInt8.ofNat (udpChecksum srcPort dstPort payload src dst))
    rw [hzero, ofBe16_toBe16 (Nat.lt_succ_of_le (udpChecksum_bounds ..).2)] at hbe
    rw [← hfull]
    exact hbe
  have hchecksum : udpChecksum srcPort dstPort payload src dst =
      if 0xFFFF - endAround (base + wordSum bare) = 0 then 0xFFFF
      else 0xFFFF - endAround (base + wordSum bare) := by
    dsimp only [udpChecksum]
    rw [hheader, hbase, sumWords_eq, fold_eq]
  have hpos : 0 < base + wordSum bare := by
    have hproto : 0 < protoUdp.toNat := by decide
    omega
  rw [hsum, ← Nat.add_assoc, hchecksum]
  exact verifies_add_nonzero hpos

/-- What `handle_dns` builds is a packet that carries the answer. -/
theorem isReply_replyPacket {answer : Bytes} (h : 28 + answer.length ≤ 0xFFFF) (src dst : Ipv4Addr)
    (srcPort : UInt16) : ∃ out, replyPacket src dst srcPort answer = .ok out ∧
      IsReply out dst src srcPort answer := by
  refine ⟨_, replyPacket_eq h src dst srcPort, ?_⟩
  have hbounds := udpChecksum_bounds 53 srcPort answer dst src
  have hip := headerChecksum_verifies (28 + answer.length) dst src
  have hudp := udpChecksum_verifies 53 srcPort answer dst src
  generalize udpChecksum 53 srcPort answer dst src = csum at hbounds hudp ⊢
  generalize headerChecksum (28 + answer.length) dst src = ipsum at hip ⊢
  have hlen : (ipHeader (28 + answer.length) ipsum dst src ++
      (udpHeader 53 srcPort (8 + answer.length) csum ++ answer)).length = 28 + answer.length := by
    rw [List.length_append, length_udpHeader, ← Nat.add_assoc]
    rfl
  have htotal : (u16At (ipHeader (28 + answer.length) ipsum dst src ++
      (udpHeader 53 srcPort (8 + answer.length) csum ++ answer)) 2).toNat = 28 + answer.length :=
    toNat_u16_of_be h rfl
  have hversion : (0x45 : UInt8) >>> 4 = 4 := by decide
  have hihl : 20 = ((0x45 : UInt8) &&& 0x0F).toNat * 4 := by decide
  refine ⟨⟨hversion, hihl, Nat.le_refl 20, ?_, ?_, rfl, rfl, rfl⟩, htotal.trans hlen.symm, ?_, ?_,
    ?_, hip, ?_, ?_, rfl⟩
  · show 20 ≤ _
    rw [hlen]
    omega
  · show _ = totalAt _ 20
    rw [totalAt, htotal, hlen, if_neg (by omega)]
  · exact UInt16.toNat.inj (toNat_u16_of_be (n := 53) (by decide) rfl)
  · exact UInt16.toNat.inj (toNat_u16_of_be (Nat.le_of_lt_succ srcPort.toNat_lt) rfl)
  · rw [hlen]
    have hudplen : (u16At (ipHeader (28 + answer.length) ipsum dst src ++
      (udpHeader 53 srcPort (8 + answer.length) csum ++ answer)) 24).toNat = 8 + answer.length :=
      toNat_u16_of_be (by omega) rfl
    omega
  · intro hzero
    have hsum : (u16At (ipHeader (28 + answer.length) ipsum dst src ++
      (udpHeader 53 srcPort (8 + answer.length) csum ++ answer)) 26).toNat = csum :=
      toNat_u16_of_be hbounds.2 rfl
    rw [hzero] at hsum
    exact absurd hsum (Nat.ne_of_lt hbounds.1)
  · rw [UdpChecksumOk, hlen, show 28 + answer.length - 20 = udpHdr + answer.length by
      show _ = 8 + answer.length; omega]
    exact hudp

end Packet

namespace Dns

variable (idna : String → Option String)

/-! ## Answers written into a buffer -/

def buildNamedAResponseChecked (id : UInt16) (qname : Str) (ip : Ipv4Addr) : Checked Bytes := do
  let name := encodeDnsName idna qname
  let buf := List.replicate (12 + name.length + 4 + 16) 0
  let buf ← copy buf 0 2 (toBe16 id.toNat)
  let buf ← copy buf 2 4 (toBe16 0x8580)
  let buf ← copy buf 4 6 (toBe16 1)
  let buf ← copy buf 6 8 (toBe16 1)
  let o := 12
  let buf ← copy buf o (o + name.length) name
  let o := o + name.length
  let buf ← copy buf o (o + 2) (toBe16 1)
  let o := o + 2
  let buf ← copy buf o (o + 2) (toBe16 1)
  let o := o + 2
  let buf ← copy buf o (o + 2) (toBe16 0xC00C)
  let o := o + 2
  let buf ← copy buf o (o + 2) (toBe16 1)
  let o := o + 2
  let buf ← copy buf o (o + 2) (toBe16 1)
  let o := o + 2
  let buf ← copy buf o (o + 4) (toBe 4 300)
  let o := o + 4
  let buf ← copy buf o (o + 2) (toBe16 4)
  let o := o + 2
  let buf ← copy buf o (o + 4) ip.octets
  return buf.take (o + 4)

def buildEmptyDnsChecked (id : UInt16) (qname : Str) (qtype : UInt16) : Checked Bytes := do
  let name := encodeDnsName idna qname
  let buf := List.replicate (12 + name.length + 4) 0
  let buf ← copy buf 0 2 (toBe16 id.toNat)
  let buf ← copy buf 2 4 (toBe16 0x8180)
  let buf ← copy buf 4 6 (toBe16 1)
  let o := 12
  let buf ← copy buf o (o + name.length) name
  let o := o + name.length
  let buf ← copy buf o (o + 2) (toBe16 qtype.toNat)
  let o := o + 2
  copy buf o (o + 2) (toBe16 1)

theorem skip_blank {xs : Bytes} {k n : Nat} (h : k ≤ n) : xs ++ List.replicate n 0 =
    xs ++ List.replicate k 0 ++ List.replicate (n - k) 0 := by
  rw [List.append_assoc, ← List.replicate_add, Nat.add_sub_cancel' h]

/-- The buffer has room for all that is written. -/
theorem buildNamedAResponseChecked_eq (id : UInt16) (qname : Str) (ip : Ipv4Addr) :
    buildNamedAResponseChecked idna id qname ip = .ok (buildNamedAResponse idna id qname ip) := by
  rw [buildNamedAResponseChecked, buildNamedAResponse]
  generalize encodeDnsName idna qname = name
  dsimp only
  have hstart : List.replicate (12 + name.length + 4 + 16) (0 : UInt8) =
      [] ++ List.replicate (12 + name.length + 4 + 16) 0 := rfl
  rw [hstart, copy_blank (by rfl) (by rfl) (by simp only [length_toBe16]; omega), ok_bind,
    copy_blank (by rfl) (by rfl) (by simp only [length_toBe16]; omega), ok_bind,
    copy_blank (by rfl) (by rfl) (by simp only [length_toBe16]; omega), ok_bind,
    copy_blank (by rfl) (by rfl) (by simp only [length_toBe16]; omega), ok_bind,
    @skip_blank _ 4 _ (by simp only [length_toBe16]; omega)]
  generalize hhead : [] ++ toBe16 id.toNat ++ toBe16 0x8580 ++ toBe16 1 ++ toBe16 1 ++
    List.replicate 4 0 = head
  have hlen : head.length = 12 := hhead ▸ rfl
  have hname : (head ++ name).length = 12 + name.length := by rw [List.length_append, hlen]
  rw [copy_blank hlen (by rfl) (by simp only [length_toBe16]; omega), ok_bind]
  generalize hdone : head ++ name = done at hname ⊢
  have hblank : 12 + name.length + 4 + 16 - (toBe16 id.toNat).length - (toBe16 0x8580).length -
      (toBe16 1).length - (toBe16 1).length - 4 - name.length = 20 := by
    simp only [length_toBe16]
    omega
  have hnext {xs new : Bytes} {n m : Nat} (hxs : xs.length = n) (hnew : new.length = m) :
      (xs ++ new).length = n + m := by rw [List.length_append, hxs, hnew]
  have h1 := @hnext _ (toBe16 1) _ 2 hname rfl
  have h2 := @hnext _ (toBe16 1) _ 2 h1 rfl
  have h3 := @hnext _ (toBe16 0xC00C) _ 2 h2 rfl
  have h4 := @hnext _ (toBe16 1) _ 2 h3 rfl
  have h5 := @hnext _ (toBe16 1) _ 2 h4 rfl
  have h6 := @hnext _ (toBe 4 300) _ 4 h5 rfl
  have h7 := @hnext _ (toBe16 4) _ 2 h6 rfl
  have h8 := @hnext _ ip.octets _ 4 h7 rfl
  rw [hblank, copy_blank hname (by rfl) (by decide), ok_bind,
    copy_blank h1 (by rfl) (by decide), ok_bind, copy_blank h2 (by rfl) (by decide), ok_bind,
    copy_blank h3 (by rfl) (by decide), ok_bind, copy_blank h4 (by rfl) (by decide), ok_bind,
    copy_blank h5 (by rfl) (by decide), ok_bind, copy_blank h6 (by rfl) (by decide), ok_bind,
    copy_blank h7 (by rfl) (Nat.le_refl 4), ok_bind, List.take_left' h8, ← hdone, ← hhead]
  rfl

theorem buildEmptyDnsChecked_eq (id : UInt16) (qname : Str) (qtype : UInt16) :
    buildEmptyDnsChecked idna id qname qtype = .ok (buildEmptyDns idna id qname qtype) := by
  rw [buildEmptyDnsChecked, buildEmptyDns]
  generalize encodeDnsName idna qname = name
  dsimp only
  have hstart : List.replicate (12 + name.length + 4) (0 : UInt8) =
      [] ++ List.replicate (12 + name.length + 4) 0 := rfl
  rw [hstart, copy_blank (by rfl) (by rfl) (by simp only [length_toBe16]; omega), ok_bind,
    copy_blank (by rfl) (by rfl) (by simp only [length_toBe16]; omega), ok_bind,
    copy_blank (by rfl) (by rfl) (by simp only [length_toBe16]; omega), ok_bind,
    @skip_blank _ 6 _ (by simp only [length_toBe16]; omega)]
  generalize hhead : [] ++ toBe16 id.toNat ++ toBe16 0x8180 ++ toBe16 1 ++ List.replicate 6 0 = head
  have hlen : head.length = 12 := hhead ▸ rfl
  have hname : (head ++ name).length = 12 + name.length := by rw [List.length_append, hlen]
  have htype : (head ++ name ++ toBe16 qtype.toNat).length = 12 + name.length + 2 := by
    rw [List.length_append, hname]
    rfl
  rw [copy_blank hlen (by rfl) (by simp only [length_toBe16]; omega), ok_bind,
    copy_blank hname (by rfl) (by simp only [length_toBe16]; omega), ok_bind,
    copy_blank htype (by rfl) (by simp only [length_toBe16]; omega)]
  have hblank : 12 + name.length + 4 - (toBe16 id.toNat).length - (toBe16 0x8180).length -
      (toBe16 1).length - 6 - name.length - (toBe16 qtype.toNat).length - (toBe16 1).length =
        0 := by
    simp only [length_toBe16]
    omega
  rw [hblank, List.replicate_zero, List.append_nil, ← hhead]
  rfl

end Dns

namespace Packet

/-! ## Datagrams -/

/-- The length a datagram is taken to have. -/
def udpLengthAt (segment : Bytes) : Nat :=
  if (u16At segment 4).toNat < udpHdr ∨ segment.length < (u16At segment 4).toNat then segment.length
  else (u16At segment 4).toNat

/-- A segment with a UDP header between these ports. -/
structure IsUdp (segment : Bytes) (src dst : UInt16) (payload : Bytes) : Prop where
  min : udpHdr ≤ segment.length
  src : src = u16At segment 0
  dst : dst = u16At segment 2
  payload : payload = (segment.take (udpLengthAt segment)).drop udpHdr

theorem parseUdp_eq {segment : Bytes} (h : udpHdr ≤ segment.length) : parseUdp segment =
    .ok (some (u16At segment 0, u16At segment 2, udpLengthAt segment - udpHdr)) := by
  have hlen : 8 ≤ segment.length := h
  rw [parseUdp, if_neg (Nat.not_lt.mpr h), readU16_ok (by omega), readU16_ok (by omega),
    readU16_ok (by omega)]
  rfl

end Packet

namespace Stack

open Packet

/-! ## What is sent -/

/-- What `handle_dns` sends, if it sends anything. -/
def handleDnsChecked (idna : String → Option String) (nat : TcpNat) (pool : FakeIpPool)
    (src dst : Ipv4Addr) (srcPort : UInt16) (payload : Bytes) :
    Checked (Option Bytes × FakeIpPool) := do
  let some (id, qname, qtype) ← Dns.parseDnsQuery payload | return (none, pool)
  if qtype = 1 then
    let (fake, pool) := pool.lookupAvoiding idna (String.ofList qname) nat.hasDestination
    let answer ← Dns.buildNamedAResponseChecked idna id qname fake
    let out ← replyPacket src dst srcPort answer
    return (some out, pool)
  else
    let answer ← Dns.buildEmptyDnsChecked idna id qname qtype
    let out ← replyPacket src dst srcPort answer
    return (some out, pool)

/-- What `process_packet` sends on its device, and the tables after it. -/
def processPacketChecked (idna : String → Option String) (listenPort : UInt16) (nat : TcpNat)
    (pool : FakeIpPool) (now : Nat) (packet : Bytes) :
    Checked (Option Bytes × TcpNat × FakeIpPool) := do
  let (outcome, nat) ← processPacketU32 listenPort nat now packet
  match outcome with
  | .drop => return (none, nat, pool)
  | .dns src dst srcPort payload =>
      let (sent, pool) ← handleDnsChecked idna nat pool src dst srcPort payload
      return (sent, nat, pool)
  | .forward _ out => return (some out, nat, pool)
  | .back out => return (some out, nat, pool)

theorem processUdp_query {packet : Bytes} {ip : Ipv4} (h : IsIpv4 packet ip) :
    processUdp packet ip = .ok .drop ∨ ∃ srcPort payload,
      IsUdp ((packet.take ip.totalLen).drop ip.headerLen) srcPort 53 payload ∧
      processUdp packet ip = .ok (.dns ip.src ip.dst srcPort payload) := by
  rw [processUdp, slice_ok h.header_le h.total_le, ok_bind]
  generalize (packet.take ip.totalLen).drop ip.headerLen = segment
  by_cases hmin : udpHdr ≤ segment.length
  · rw [parseUdp_eq hmin, ok_bind]
    dsimp only
    by_cases hdst : u16At segment 2 = 53
    · have hbounds : udpHdr ≤ udpLengthAt segment ∧ udpLengthAt segment ≤ segment.length :=
        declared_bounds hmin
      have hlen : udpHdr + (udpLengthAt segment - udpHdr) = udpLengthAt segment :=
        Nat.add_sub_cancel' hbounds.1
      rw [if_neg (not_not_intro hdst), hlen, slice_ok hbounds.1 hbounds.2]
      exact .inr ⟨_, _, ⟨hmin, rfl, hdst.symm, rfl⟩, rfl⟩
    · rw [if_pos hdst]
      exact .inl rfl
  · rw [parseUdp, if_pos (Nat.not_le.mp hmin)]
    exact .inl rfl

/-- `handle_dns` stops on no query, and what it sends carries the answer. -/
theorem handleDnsChecked_spec {idna : String → Option String} (hidna : Dns.Compact idna)
    (nat : TcpNat) (pool : FakeIpPool) (src dst : Ipv4Addr) (srcPort : UInt16) (payload : Bytes) :
    ∃ sent pool', handleDnsChecked idna nat pool src dst srcPort payload = .ok (sent, pool') ∧
      ∀ out, sent = some out → ∃ answer,
        Routing.handleDns idna nat pool payload = .ok (some answer, pool') ∧
        IsReply out dst src srcPort answer ∧
        ∀ labels k next, Dns.NameAt payload 12 k (labels.map bytes) next →
          (∀ label ∈ labels, Dns.IsNameLabel label) → Dns.Echoes payload labels next answer := by
  obtain ⟨query, hquery⟩ := Dns.runs_parseDnsQuery payload
  rw [handleDnsChecked, Routing.handleDns, hquery, ok_bind, ok_bind]
  cases query with
  | none => exact ⟨none, pool, rfl, fun out h => (by cases h)⟩
  | some query =>
      obtain ⟨id, qname, qtype⟩ := query
      obtain ⟨hnamed, hempty⟩ := Dns.length_answer_le hidna hquery
      dsimp only
      by_cases hq : qtype = 1
      · rw [if_pos hq, if_pos hq]
        generalize pool.lookupAvoiding idna (String.ofList qname) nat.hasDestination = found
        obtain ⟨fake, pool'⟩ := found
        obtain ⟨out, hout, hreply⟩ := @isReply_replyPacket
          (Dns.buildNamedAResponse idna id qname fake)
          (Nat.le_trans (Nat.add_le_add_left (hnamed fake) 28) (by decide)) src dst srcPort
        rw [Dns.buildNamedAResponseChecked_eq, ok_bind, hout, ok_bind]
        refine ⟨some out, pool', rfl, fun out' h => ?_⟩
        cases h
        exact ⟨_, rfl, hreply, fun labels k next hname hvalid =>
          (Dns.echoes_answer hvalid hname hquery).1 hq fake⟩
      · rw [if_neg hq, if_neg hq]
        obtain ⟨out, hout, hreply⟩ := @isReply_replyPacket (Dns.buildEmptyDns idna id qname qtype)
          (Nat.le_trans (Nat.add_le_add_left hempty 28) (by decide)) src dst srcPort
        rw [Dns.buildEmptyDnsChecked_eq, ok_bind, hout, ok_bind]
        refine ⟨some out, pool, rfl, fun out' h => ?_⟩
        cases h
        exact ⟨_, rfl, hreply, fun labels k next hname hvalid =>
          (Dns.echoes_answer hvalid hname hquery).2⟩

/-- `process_packet` stops on no packet of the device.  What it sends in return for a datagram is
an answer to the query in it, and carries the question where its name is one of plain labels. -/
theorem processPacketChecked_replies {idna : String → Option String} (hidna : Dns.Compact idna)
    {packet : Bytes} (hlen : packet.length ≤ 0xFFFF) (listenPort : UInt16) (nat : TcpNat)
    (pool : FakeIpPool) (now : Nat) : ∃ sent nat' pool',
      processPacketChecked idna listenPort nat pool now packet = .ok (sent, nat', pool') ∧
      ∀ ip out, IsIpv4 packet ip → ip.proto = protoUdp → sent = some out →
        ∃ srcPort payload answer,
          IsUdp ((packet.take ip.totalLen).drop ip.headerLen) srcPort 53 payload ∧
          Routing.handleDns idna nat pool payload = .ok (some answer, pool') ∧
          IsReply out ip.dst ip.src srcPort answer ∧
          ∀ labels k next, Dns.NameAt payload 12 k (labels.map bytes) next →
            (∀ label ∈ labels, Dns.IsNameLabel label) → Dns.Echoes payload labels next answer := by
  rw [processPacketChecked, processPacketU32_eq listenPort nat now hlen]
  by_cases hudp : ∃ ip, IsIpv4 packet ip ∧ ip.proto = protoUdp
  · obtain ⟨ip, hip, hproto⟩ := hudp
    rw [processPacket, parseIpv4_eq hip, ok_bind]
    dsimp only
    rw [if_pos hproto]
    rcases processUdp_query hip with hdrop | ⟨srcPort, payload, hquery, hdns⟩
    · rw [hdrop]
      exact ⟨none, nat, pool, rfl, fun ip out _ _ h => (by cases h)⟩
    · rw [hdns]
      obtain ⟨sent, pool', hrun, hsent⟩ :=
        handleDnsChecked_spec hidna nat pool ip.src ip.dst srcPort payload
      refine ⟨sent, nat, pool', ?_, fun ip' out hip' _ h => ?_⟩
      · show (handleDnsChecked idna nat pool ip.src ip.dst srcPort payload >>= _) = _
        rw [hrun]
        rfl
      · obtain rfl := hip.unique hip'
        obtain ⟨answer, hanswer⟩ := hsent out h
        exact ⟨srcPort, payload, answer, hquery, hanswer⟩
  · have hrun : ∃ outcome nat', processPacket listenPort nat now packet = .ok (outcome, nat') := by
      rcases processPacket_cases listenPort nat now packet with
        ⟨outcome, h, -⟩ | ⟨_, _, -, h⟩ | ⟨_, _, _, -, -, h⟩
      · exact ⟨_, _, h⟩
      · exact ⟨_, _, h⟩
      · exact ⟨_, _, h⟩
    obtain ⟨outcome, nat', hrun⟩ := hrun
    rw [hrun, ok_bind]
    cases outcome with
    | drop => exact ⟨none, nat', pool, rfl, fun ip out hip hproto => absurd ⟨ip, hip, hproto⟩ hudp⟩
    | dns src dst srcPort payload =>
        obtain ⟨sent, pool', hdns, -⟩ :=
          handleDnsChecked_spec hidna nat' pool src dst srcPort payload
        refine ⟨sent, nat', pool', ?_, fun ip out hip hproto => absurd ⟨ip, hip, hproto⟩ hudp⟩
        show (handleDnsChecked idna nat' pool src dst srcPort payload >>= _) = _
        rw [hdns]
        rfl
    | forward natPort out =>
        exact ⟨some out, nat', pool, rfl, fun ip _ hip hproto => absurd ⟨ip, hip, hproto⟩ hudp⟩
    | back out =>
        exact ⟨some out, nat', pool, rfl, fun ip _ hip hproto => absurd ⟨ip, hip, hproto⟩ hudp⟩

/-- IDNA on names of ASCII characters, which are not changed. -/
def asciiNames (s : String) : Option String :=
  if (s.toList.all fun c => c.toNat < 128) = true then some s else none

theorem compact_asciiNames : Dns.Compact asciiNames where
  refuses s h := by
    refine if_neg fun hall => ?_
    have hascii := of_decide_eq_true (List.all_eq_true.mp hall _ h)
    exact absurd hascii (by decide)
  short s t h := by
    rw [asciiNames] at h
    split at h
    · cases h
      omega
    · cases h

/-- A query for the addresses of version 6 of `A.b`. -/
def exampleQuery : Bytes :=
  [0x45, 0, 0, 49, 0, 0, 0, 0, 64, 17, 0, 0, 172, 19, 0, 2, 172, 19, 0, 1, 0x12, 0x34, 0, 53, 0, 29,
    0, 0, 0xAB, 0xCD, 1, 0, 0, 1, 0, 0, 0, 0, 0, 0, 1, 65, 1, 98, 0, 0, 28, 0, 1]

theorem isIpv4_exampleQuery : IsIpv4 exampleQuery ⟨20, protoUdp, tunClient, tunServer, 49⟩ := by
  constructor <;> decide

/-- The name of the query. -/
theorem nameAt_exampleQuery :
    Dns.NameAt (exampleQuery.drop 28) 12 3 (["A".toList, "b".toList].map bytes) 17 :=
  .label (b := [65]) (by decide) (by decide) ⟨_, rfl⟩
    (.label (b := [98]) (by decide) (by decide) ⟨_, rfl⟩ (.root rfl))

theorem processPacketChecked_replies_query : ∃ out answer nat' pool',
    processPacketChecked asciiNames 4000 (.new 5) .new 0 exampleQuery =
        .ok (some out, nat', pool') ∧
      IsReply out tunServer tunClient 0x1234 answer ∧
      Dns.Echoes (exampleQuery.drop 28) ["A".toList, "b".toList] 17 answer := by
  have hlen : exampleQuery.length ≤ 0xFFFF := by decide
  obtain ⟨sent, nat', pool', hrun, hsent⟩ :=
    processPacketChecked_replies compact_asciiNames hlen 4000 (.new 5) .new 0
  have hsome : ((processPacketChecked asciiNames 4000 (.new 5) .new 0 exampleQuery).toOption.bind
      (·.1)).isSome = true := by decide +kernel
  rw [hrun] at hsome
  obtain ⟨out, hout⟩ := Option.isSome_iff_exists.mp hsome
  obtain ⟨srcPort, payload, answer, hudp, -, hreply, hechoes⟩ :=
    hsent _ out isIpv4_exampleQuery rfl hout
  have hport : srcPort = 0x1234 := hudp.src.trans (by decide)
  have hpayload : payload = exampleQuery.drop 28 := hudp.payload.trans (by decide)
  subst hport hpayload
  refine ⟨out, answer, nat', pool', ?_, hreply, hechoes _ 3 17 nameAt_exampleQuery ?_⟩
  · rw [hrun, show sent = some out from hout]
  · intro label hlabel
    rcases List.mem_cons.mp hlabel with rfl | hlabel
    · refine ⟨by decide, by decide, fun c hc => ?_⟩
      obtain rfl : c = 'A' := List.mem_singleton.mp hc
      exact .inl (by decide)
    · obtain rfl := List.mem_singleton.mp hlabel
      refine ⟨by decide, by decide, fun c hc => ?_⟩
      obtain rfl : c = 'b' := List.mem_singleton.mp hc
      exact .inl (by decide)

end Stack

end RustClash
