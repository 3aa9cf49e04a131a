import RustClash.Tun.PacketSpec
import RustClash.Tun.Stack

/-!
# Packets with checked arithmetic

The functions of the packet loop once more, with every `u32` sum and every difference of
lengths checked.  On packets that the device delivers, of at most 65535 bytes, they are
the functions of the model (`processPacketU32_eq`): nothing overflows.
-/

namespace RustClash

open Checked

namespace Packet

/-! ## Checksums -/

/-- The loop of `sum_words`. -/
def sumWordsFromU32 : (data : Bytes) → (sum : Nat) → Checked Nat
  | hi :: lo :: rest, sum => do
      let sum ← add 32 sum (ofBe16 hi lo)
      sumWordsFromU32 rest sum
  | [b], sum => add 32 sum (ofBe16 b 0)
  | [], sum => .ok sum

def sumWordsU32 (data : Bytes) : Checked Nat := sumWordsFromU32 data 0

/-- The loop of `fold`. -/
def foldCarriesU32 (sum : Nat) : Checked Nat :=
  if sum ≤ 0xFFFF then .ok sum
  else if sum % 0x10000 + sum / 0x10000 < 2 ^ 32 then
    foldCarriesU32 (sum % 0x10000 + sum / 0x10000)
  else .error .overflow
termination_by sum

def foldU32 (sum : Nat) : Checked Nat := (0xFFFF - ·) <$> foldCarriesU32 sum

def addIpU32 (sum : Nat) (ip : Ipv4Addr) : Checked Nat := do
  let sum ← add 32 sum (ofBe16 ip.a ip.b)
  add 32 sum (ofBe16 ip.c ip.d)

/-- The sum of a pseudo-header and a segment. -/
def segmentSumU32 (src dst : Ipv4Addr) (proto : UInt8) (len : Nat) (segment : Bytes) :
    Checked Nat := do
  let sum ← addIpU32 0 src
  let sum ← addIpU32 sum dst
  let sum ← add 32 sum proto.toNat
  let sum ← add 32 sum len
  let words ← sumWordsU32 segment
  add 32 sum words

def updateIpChecksumU32 (packet : Bytes) (headerLen : Nat) : Checked Bytes := do
  let packet ← copy packet 10 12 [0, 0]
  let header ← slice packet 0 headerLen
  let sum ← sumWordsU32 header
  let csum ← foldU32 sum
  copy packet 10 12 (toBe16 csum)

def setAddressesU32 (packet : Bytes) (headerLen : Nat) (src dst : Ipv4Addr) : Checked Bytes := do
  let packet ← copy packet 12 16 src.octets
  let packet ← copy packet 16 20 dst.octets
  updateIpChecksumU32 packet headerLen

def parseUdpU32 (segment : Bytes) : Checked (Option (UInt16 × UInt16 × Nat)) := do
  if segment.length < udpHdr then return none
  let src ← readU16 segment 0
  let dst ← readU16 segment 2
  let declared ← readU16 segment 4
  let udpLen :=
    if declared.toNat < udpHdr ∨ segment.length < declared.toNat then segment.length
    else declared.toNat
  let payloadLen ← sub udpLen udpHdr
  return some (src, dst, payloadLen)

def updateTcpChecksumU32 (packet : Bytes) (ipHdrLen : Nat) (src dst : Ipv4Addr) :
    Checked Bytes := do
  let hdrTotal ← readU16 packet 2
  let totalLen :=
    if ipHdrLen ≤ hdrTotal.toNat ∧ hdrTotal.toNat ≤ packet.length then hdrTotal.toNat
    else packet.length
  let tcpLen ← sub totalLen ipHdrLen
  if tcpLen < tcpHdrMin then return packet
  let packet ← copy packet (ipHdrLen + 16) (ipHdrLen + 18) [0, 0]
  let segment ← slice packet ipHdrLen (ipHdrLen + tcpLen)
  let sum ← segmentSumU32 src dst protoTcp tcpLen segment
  let csum ← foldU32 sum
  copy packet (ipHdrLen + 16) (ipHdrLen + 18) (toBe16 csum)

/-! ## Sums that fit -/

theorem sumWordsFromU32_eq : ∀ (data : Bytes) (sum : Nat),
    sum + 0xFFFF * ((data.length + 1) / 2) < 2 ^ 32 →
    sumWordsFromU32 data sum = .ok (sumWordsFrom data sum)
  | [], _, _ => rfl
  | [b], sum, h => by
      have hlt : ofBe16 b 0 ≤ 0xFFFF := by
        have := b.toNat_lt
        simp only [ofBe16, UInt8.toNat_zero]
        omega
      exact add_ok (by simp only [List.length_cons, List.length_nil] at h; omega)
  | hi :: lo :: rest, sum, h => by
      have hlt : ofBe16 hi lo ≤ 0xFFFF := by
        have := hi.toNat_lt
        have := lo.toNat_lt
        simp only [ofBe16]
        omega
      simp only [List.length_cons] at h
      rw [sumWordsFromU32, add_ok (by omega)]
      exact sumWordsFromU32_eq rest _ (by omega)

theorem sumWordsU32_eq {data : Bytes} (h : data.length ≤ 0xFFFF) :
    sumWordsU32 data = .ok (sumWords data) := sumWordsFromU32_eq data 0 (by omega)

theorem foldCarriesU32_eq (sum : Nat) : sum < 2 ^ 32 →
    foldCarriesU32 sum = .ok (foldCarries sum) := by
  induction sum using Nat.strongRecOn with
  | ind sum ih =>
      intro h
      rw [foldCarriesU32, foldCarries]
      split
      · rfl
      · rw [if_pos (by omega)]
        exact ih _ (by omega) (by omega)

theorem foldU32_eq {sum : Nat} (h : sum < 2 ^ 32) : foldU32 sum = .ok (fold sum) := by
  rw [foldU32, foldCarriesU32_eq sum h]
  rfl

theorem addIp_le (sum : Nat) (ip : Ipv4Addr) : addIp sum ip ≤ sum + 2 * 0xFFFF := by
  have := ip.a.toNat_lt
  have := ip.b.toNat_lt
  have := ip.c.toNat_lt
  have := ip.d.toNat_lt
  simp only [addIp, ofBe16]
  omega

theorem addIpU32_eq {sum : Nat} {ip : Ipv4Addr} (h : sum + 2 * 0xFFFF < 2 ^ 32) :
    addIpU32 sum ip = .ok (addIp sum ip) := by
  have hle : sum + ofBe16 ip.a ip.b + ofBe16 ip.c ip.d ≤ sum + 2 * 0xFFFF := addIp_le sum ip
  rw [addIpU32, add_ok (by omega)]
  exact add_ok (by omega)

/-- The sum of a segment fits. -/
theorem segmentSumU32_eq {src dst : Ipv4Addr} {proto : UInt8} {len : Nat} {segment : Bytes}
    (hlen : len ≤ 0xFFFF) (h : segment.length ≤ 0xFFFF) :
    segmentSumU32 src dst proto len segment =
        .ok (addIp (addIp 0 src) dst + proto.toNat + len + sumWords segment) ∧
      addIp (addIp 0 src) dst + proto.toNat + len + sumWords segment < 2 ^ 32 := by
  have hsrc := addIp_le 0 src
  have hdst := addIp_le (addIp 0 src) dst
  have hproto := proto.toNat_lt
  have hwords := sumWords_lt h
  have hlt : addIp (addIp 0 src) dst + proto.toNat + len + sumWords segment < 2 ^ 32 := by omega
  refine ⟨?_, hlt⟩
  rw [segmentSumU32, addIpU32_eq (by omega)]
  show (addIpU32 (addIp 0 src) dst >>= _) = _
  rw [addIpU32_eq (by omega)]
  show (add 32 (addIp (addIp 0 src) dst) proto.toNat >>= _) = _
  rw [add_ok (by omega)]
  show (add 32 (addIp (addIp 0 src) dst + proto.toNat) len >>= _) = _
  rw [add_ok (by omega)]
  show (sumWordsU32 segment >>= _) = _
  rw [sumWordsU32_eq h]
  exact add_ok hlt

/-! ## The functions on short packets -/

theorem length_copy {xs ys new : Bytes} {i j : Nat} (h : copy xs i j new = .ok ys) :
    ys.length = xs.length := by
  rw [copy] at h
  split at h
  · cases h
    exact length_overwrite (by omega)
  · cases h

theorem length_slice {xs ys : Bytes} {i j : Nat} (h : slice xs i j = .ok ys) :
    ys.length ≤ xs.length := by
  rw [slice] at h
  split at h
  · cases h
    rw [List.length_drop, List.length_take]
    omega
  · cases h

variable {packet : Bytes} (hlen : packet.length ≤ 0xFFFF)

include hlen

theorem updateIpChecksumU32_eq (headerLen : Nat) :
    updateIpChecksumU32 packet headerLen = updateIpChecksum packet headerLen := by
  rw [updateIpChecksumU32, updateIpChecksum]
  cases hcopy : copy packet 10 12 [0, 0] with
  | error e => rfl
  | ok zeroed =>
      show (slice zeroed 0 headerLen >>= _) = (slice zeroed 0 headerLen >>= _)
      cases hslice : slice zeroed 0 headerLen with
      | error e => rfl
      | ok header =>
          have hle : header.length ≤ 0xFFFF :=
            Nat.le_trans (length_slice hslice) (length_copy hcopy ▸ hlen)
          show (sumWordsU32 header >>= _) = _
          rw [sumWordsU32_eq hle]
          show (foldU32 (sumWords header) >>= _) = _
          rw [foldU32_eq (Nat.lt_trans (sumWords_lt hle) (by decide))]
          rfl

theorem setAddressesU32_eq (headerLen : Nat) (src dst : Ipv4Addr) :
    setAddressesU32 packet headerLen src dst = setAddresses packet headerLen src dst := by
  rw [setAddressesU32, setAddresses]
  cases hsrc : copy packet 12 16 src.octets with
  | error e => rfl
  | ok sourced =>
      show (copy sourced 16 20 dst.octets >>= _) = (copy sourced 16 20 dst.octets >>= _)
      cases hdst : copy sourced 16 20 dst.octets with
      | error e => rfl
      | ok addressed =>
          have hle : addressed.length ≤ 0xFFFF := by
            rw [length_copy hdst, length_copy hsrc]
            exact hlen
          exact updateIpChecksumU32_eq hle headerLen

theorem updateTcpChecksumU32_eq {ipHdrLen : Nat} (h : ipHdrLen ≤ packet.length)
    (src dst : Ipv4Addr) :
    updateTcpChecksumU32 packet ipHdrLen src dst = updateTcpChecksum packet ipHdrLen src dst := by
  rw [updateTcpChecksumU32, updateTcpChecksum]
  cases readU16 packet 2 with
  | error e => rfl
  | ok hdrTotal =>
      dsimp only [bind, Except.bind]
      generalize htotal : (if ipHdrLen ≤ hdrTotal.toNat ∧ hdrTotal.toNat ≤ packet.length then
        hdrTotal.toNat else packet.length) = totalLen
      have hbounds : ipHdrLen ≤ totalLen ∧ totalLen ≤ packet.length := by
        rw [← htotal]
        split <;> omega
      rw [sub_ok hbounds.1]
      dsimp only
      split
      · rfl
      · cases hcopy : copy packet (ipHdrLen + 16) (ipHdrLen + 18) [0, 0] with
        | error e => rfl
        | ok zeroed =>
            dsimp only
            cases hslice : slice zeroed ipHdrLen (ipHdrLen + (totalLen - ipHdrLen)) with
            | error e => rfl
            | ok segment =>
                have hle : segment.length ≤ 0xFFFF :=
                  Nat.le_trans (length_slice hslice) (length_copy hcopy ▸ hlen)
                obtain ⟨hsum, hlt⟩ := @segmentSumU32_eq src dst protoTcp (totalLen - ipHdrLen)
                  segment (by omega) hle
                dsimp only
                rw [hsum]
                dsimp only
                rw [foldU32_eq hlt]

omit hlen in
theorem parseUdpU32_eq (segment : Bytes) : parseUdpU32 segment = parseUdp segment := by
  rw [parseUdpU32, parseUdp]
  split
  · rfl
  · next hshort =>
      cases readU16 segment 0 with
      | error e => rfl
      | ok src =>
          cases readU16 segment 2 with
          | error e => rfl
          | ok dst =>
              cases readU16 segment 4 with
              | error e => rfl
              | ok declared =>
                  dsimp only [bind, Except.bind]
                  rw [sub_ok (declared_bounds (Nat.not_lt.mp hshort)).1]

end Packet

namespace Stack

open Packet

/-! ## The packet loop -/

def readdressU32 (packet : Bytes) (ip : Ipv4) (src dst : SocketAddrV4) : Checked Bytes := do
  let packet ← setAddressesU32 packet ip.headerLen src.ip dst.ip
  let packet ← within packet ip.headerLen ip.totalLen fun segment =>
    setTcpPorts segment src.port dst.port
  let packet ← updateTcpChecksumU32 packet ip.headerLen src.ip dst.ip
  slice packet 0 ip.totalLen

def processUdpU32 (packet : Bytes) (ip : Ipv4) : Checked Outcome := do
  let udp ← slice packet ip.headerLen ip.totalLen
  let some (srcPort, dstPort, payloadLen) ← parseUdpU32 udp | return .drop
  if dstPort ≠ 53 then return .drop
  let payload ← slice udp udpHdr (udpHdr + payloadLen)
  return .dns ip.src ip.dst srcPort payload

def processTcpU32 (listenPort : UInt16) (nat : TcpNat) (now : Nat) (packet : Bytes) (ip : Ipv4) :
    Checked (Outcome × TcpNat) := do
  let tcp ← slice packet ip.headerLen ip.totalLen
  let some (tcpSrc, tcpDst, _, _) ← parseTcp tcp | return (.drop, nat)
  if ip.src = tunServer ∧ tcpSrc = listenPort then
    match nat.lookupBack now tcpDst with
    | (none, nat) => return (.drop, nat)
    | (some (sessSrc, sessDst), nat) =>
        let out ← readdressU32 packet ip sessDst sessSrc
        return (.back out, nat)
  if ip.dst = tunServer ∧ tcpDst = listenPort then return (.drop, nat)
  if !isGlobalUnicast ip.dst ∨ isTunPrefix ip.dst then return (.drop, nat)
  match nat.lookup now ⟨ip.src, tcpSrc⟩ ⟨ip.dst, tcpDst⟩ with
  | (none, nat) => return (.drop, nat)
  | (some natPort, nat) =>
      let out ← readdressU32 packet ip ⟨tunClient, natPort⟩ ⟨tunServer, listenPort⟩
      return (.forward natPort out, nat)

def processPacketU32 (listenPort : UInt16) (nat : TcpNat) (now : Nat) (packet : Bytes) :
    Checked (Outcome × TcpNat) := do
  let some ip ← parseIpv4 packet | return (.drop, nat)
  if ip.proto = protoUdp then return (← processUdpU32 packet ip, nat)
  if ip.proto ≠ protoTcp then return (.drop, nat)
  processTcpU32 listenPort nat now packet ip

variable {packet : Bytes} {ip : Ipv4}

theorem length_within {xs ys : Bytes} {i j : Nat} {f : Bytes → Checked Bytes}
    (hf : ∀ part part', f part = .ok part' → part'.length = part.length)
    (h : within xs i j f = .ok ys) : ys.length = xs.length := by
  obtain ⟨part, hslice, h⟩ := bind_eq_ok.mp h
  obtain ⟨part', hpart, h⟩ := bind_eq_ok.mp h
  cases h
  have hlen := hf _ _ hpart
  rw [slice] at hslice
  split at hslice
  · next hrange =>
      cases hslice
      refine length_overwrite ?_
      rw [hlen, List.length_drop, List.length_take]
      omega
  · cases hslice

theorem length_setAddresses {headerLen : Nat} {src dst : Ipv4Addr} {out : Bytes}
    (h : setAddresses packet headerLen src dst = .ok out) : out.length = packet.length := by
  obtain ⟨sourced, hsrc, h⟩ := bind_eq_ok.mp h
  obtain ⟨addressed, hdst, h⟩ := bind_eq_ok.mp h
  obtain ⟨zeroed, hzero, h⟩ := bind_eq_ok.mp h
  obtain ⟨header, -, h⟩ := bind_eq_ok.mp h
  rw [length_copy h, length_copy hzero, length_copy hdst, length_copy hsrc]

theorem length_setTcpPorts {segment out : Bytes} {src dst : UInt16}
    (h : setTcpPorts segment src dst = .ok out) : out.length = segment.length := by
  obtain ⟨sourced, hsrc, h⟩ := bind_eq_ok.mp h
  rw [length_copy h, length_copy hsrc]

theorem readdressU32_eq (hlen : packet.length ≤ 0xFFFF) (hip : IsIpv4 packet ip)
    (src dst : SocketAddrV4) : readdressU32 packet ip src dst = readdress packet ip src dst := by
  rw [readdressU32, readdress, setAddressesU32_eq hlen]
  cases haddr : setAddresses packet ip.headerLen src.ip dst.ip with
  | error e => rfl
  | ok addressed =>
      show (within addressed _ _ _ >>= _) = (within addressed _ _ _ >>= _)
      cases hports : within addressed ip.headerLen ip.totalLen
          (fun segment => setTcpPorts segment src.port dst.port) with
      | error e => rfl
      | ok ported =>
          have hsame : ported.length = packet.length := by
            rw [length_within (fun _ _ => length_setTcpPorts) hports, length_setAddresses haddr]
          show (updateTcpChecksumU32 ported _ _ _ >>= _) = (updateTcpChecksum ported _ _ _ >>= _)
          rw [updateTcpChecksumU32_eq (by omega) (hsame ▸ hip.fits)]

theorem processTcpU32_eq (listenPort : UInt16) (nat : TcpNat) (now : Nat)
    (hlen : packet.length ≤ 0xFFFF) (hip : IsIpv4 packet ip) :
    processTcpU32 listenPort nat now packet ip = processTcp listenPort nat now packet ip := by
  unfold processTcpU32
  simp only [readdressU32_eq hlen hip]
  rfl

theorem processUdpU32_eq (packet : Bytes) (ip : Ipv4) :
    processUdpU32 packet ip = processUdp packet ip := by
  unfold processUdpU32
  simp only [parseUdpU32_eq]
  rfl

/-- On a packet of the device nothing overflows. -/
theorem processPacketU32_eq (listenPort : UInt16) (nat : TcpNat) (now : Nat)
    (hlen : packet.length ≤ 0xFFFF) :
    processPacketU32 listenPort nat now packet = processPacket listenPort nat now packet := by
  rw [processPacketU32, processPacket]
  rcases parseIpv4_spec packet with ⟨hnone, -⟩ | ⟨ip, hsome, hip⟩
  · simp only [hnone, ok_bind]
  · rw [hsome]
    show (if ip.proto = protoUdp then _ else _) = (if ip.proto = protoUdp then _ else _)
    rw [processUdpU32_eq, processTcpU32_eq listenPort nat now hlen hip]

end Stack

end RustClash
