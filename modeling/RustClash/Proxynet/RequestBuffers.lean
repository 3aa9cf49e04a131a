import RustClash.Lib.Fill
import RustClash.Proxynet.Dial

/-!
# Requests in their buffers

The requests of Shadowsocks, SOCKS5, Trojan and VLESS as the code builds them: on the stack,
in a buffer that is made for the longest address.  No write is outside its buffer, and what
stands in front of it in the end is the request that `Dial` sends.
-/

namespace RustClash

open Checked Str

namespace ProxyAddress

/-- `write_type_and_address`. -/
def writeTypeAndAddressInto (host : String) (dest : Bytes)
    (ipv4Type domainType ipv6Type : UInt8) : Checked (Except ProxyError Nat × Bytes) :=
  match parseIpAddr host with
  | some (.v4 ip) => do
      let dest ← set dest 0 ipv4Type
      let dest ← copy dest 1 5 ip.octets
      return (.ok 5, dest)
  | some (.v6 ip) => do
      let dest ← set dest 0 ipv6Type
      let dest ← copy dest 1 17 ip.octets
      return (.ok 17, dest)
  | none => do
      let dest ← set dest 0 domainType
      let bytes := utf8 host
      if 255 < bytes.length then return (.error hostTooLong, dest)
      else do
        let dest ← set dest 1 (UInt8.ofNat bytes.length)
        let dest ← copy dest 2 (2 + bytes.length) bytes
        return (.ok (2 + bytes.length), dest)

/-- `write_socks_port_last`. -/
def writeSocksPortLastInto (host : String) (port : UInt16) (dest : Bytes) :
    Checked (Except ProxyError Nat × Bytes) := do
  let (r, dest) ← writeTypeAndAddressInto host dest 0x01 0x03 0x04
  match r with
  | .error e => return (.error e, dest)
  | .ok n =>
      if dest.length < n + 2 then return (.error bufferTooSmall, dest)
      else do
        let dest ← copy dest n (n + 2) (toBe16 port.toNat)
        return (.ok (n + 2), dest)

variable {host : String} {dest : Bytes} {size : Nat}

/-- A buffer with room for the longest address has room for every address. -/
theorem fills_typeAndAddress (host : String) (ipv4Type domainType ipv6Type : UInt8)
    (hsize : dest.length = size) (hroom : maxLength ≤ size) :
    Fills size (writeTypeAndAddress host ipv4Type domainType ipv6Type)
      (writeTypeAndAddressInto host dest ipv4Type domainType ipv6Type) := by
  have hroom : 257 ≤ size := hroom
  have h0 := Front.empty hsize
  rw [writeTypeAndAddress, writeTypeAndAddressInto]
  cases parseIpAddr host with
  | none =>
      obtain ⟨d1, e1, h1⟩ := h0.set (x := domainType) (i := 0) rfl (by omega)
      simp only [e1, ok_bind]
      split
      · exact fills_error h1
      · next hlong =>
          obtain ⟨d2, e2, h2⟩ := h1.set (x := UInt8.ofNat (utf8 host).length) (i := 1) rfl (by omega)
          obtain ⟨d3, e3, h3⟩ := h2.copy (utf8 host) (i := 2) rfl rfl (by omega)
          simp only [e2, e3, ok_bind]
          exact fills_ok h3 (by simp; omega)
  | some ip =>
      cases ip with
      | v4 ip =>
          obtain ⟨d1, e1, h1⟩ := h0.set (x := ipv4Type) (i := 0) rfl (by omega)
          obtain ⟨d2, e2, h2⟩ := h1.copy ip.octets (i := 1) (j := 5) rfl rfl (by omega)
          simp only [e1, e2, ok_bind]
          exact fills_ok h2 rfl
      | v6 ip =>
          obtain ⟨d1, e1, h1⟩ := h0.set (x := ipv6Type) (i := 0) rfl (by omega)
          obtain ⟨d2, e2, h2⟩ := h1.copy ip.octets (i := 1) (j := 17) rfl
            (by rw [ip.size]) (by omega)
          simp only [e1, e2, ok_bind]
          exact fills_ok h2 (by simp [ip.size])

theorem fills_socksPortLast {port : UInt16} (hsize : dest.length = size) (hroom : maxLength ≤ size) :
    Fills size (writeSocksPortLast host port size) (writeSocksPortLastInto host port dest) := by
  obtain ⟨r, d1, e1, hr, pre, h1, hpre⟩ :=
    fills_typeAndAddress host 0x01 0x03 0x04 hsize hroom
  rw [writeSocksPortLast, writeSocksPortLastInto, e1, ok_bind]
  generalize writeTypeAndAddress host 0x01 0x03 0x04 = message at hr hpre
  subst hr
  cases message with
  | error e => exact fills_error h1
  | ok addr =>
      rw [hpre addr rfl] at h1
      show Fills size (if size < addr.length + 2 then _ else _)
        (if d1.length < addr.length + 2 then _ else _)
      rw [h1.size]
      split
      · exact fills_error h1
      · next hfits =>
          obtain ⟨d2, e2, h2⟩ := h1.copy (toBe16 port.toNat) rfl rfl (by simpa using hfits)
          rw [length_toBe16] at e2
          rw [e2]
          exact fills_ok h2 (by simp)

end ProxyAddress

namespace Uuid

variable (p : Primitives)

/-- `parse_canonical`. -/
def parseCanonicalInto (id : List Char) (dest : Bytes) : Checked (Bool × Bytes) :=
  let hex := id.filterMap hexDigit
  if hex.length ≠ 32 then return (false, dest)
  else do
    let dest ← copy dest 0 16 (hexBytes hex)
    return (true, dest)

/-- `derive_uuid`, with the buffer that it hashes. -/
def deriveUuidInto (id : List Char) (dest : Bytes) : Checked (Bool × Bytes) :=
  let name := utf8 (String.ofList id)
  if maxDerived * 4 < name.length then return (false, dest)
  else do
    let input ← copy (List.replicate (uuidSize + maxDerived * 4) 0) uuidSize
      (uuidSize + name.length) name
    let input ← slice input 0 (uuidSize + name.length)
    let hash ← slice (p.sha1 input).bytes 0 uuidSize
    let dest ← copy dest 0 uuidSize hash
    let dest ← set dest 6 (((← get dest 6) &&& 0x0F) ||| 0x50)
    let dest ← set dest 8 (((← get dest 8) &&& 0x3F) ||| 0x80)
    return (true, dest)

/-- `uuid_write_be`. -/
def uuidWriteBeInto (id : String) (dest : Bytes) : Checked (Bool × Bytes) :=
  let id := trim id.toList
  let len := (utf8 (String.ofList id)).length
  if dest.length < uuidSize then return (false, dest)
  else if minCanonical ≤ len ∧ len ≤ maxCanonical then parseCanonicalInto id dest
  else if !id.isEmpty ∧ len ≤ maxDerived then deriveUuidInto p id dest
  else return (false, dest)

/-- The call returns whether there is a user id, and the id stands in the slice then. -/
def Writes (uuid? : Option (Octets uuidSize)) (x : Checked (Bool × Bytes)) : Prop :=
  ∃ r buf, x = .ok (r, buf) ∧ r = uuid?.isSome ∧
    ∃ pre, Front uuidSize pre buf ∧ ∀ uuid, uuid? = some uuid → pre = uuid.bytes

variable {p} {dest : Bytes}

theorem writes_none (hsize : dest.length = uuidSize) : Writes none (.ok (false, dest)) :=
  ⟨_, _, rfl, rfl, [], .empty hsize, fun _ h => (by cases h)⟩

theorem writes_some {uuid : Octets uuidSize} (h : dest = uuid.bytes) :
    Writes (some uuid) (.ok (true, dest)) :=
  ⟨_, _, rfl, rfl, dest, ⟨h ▸ uuid.size, List.prefix_rfl⟩, fun _ hid => Option.some.inj hid ▸ h⟩

theorem writes_parseCanonical (id : List Char) (hsize : dest.length = uuidSize) :
    Writes (parseCanonical id) (parseCanonicalInto id dest) := by
  rw [parseCanonicalInto, parseCanonical]
  by_cases hlen : (id.filterMap hexDigit).length = 32
  · have hbytes : (hexBytes (id.filterMap hexDigit)).length = 16 := by rw [length_hexBytes, hlen]
    have hsize : dest.length = 16 := hsize
    rw [dif_pos hlen, if_neg (not_not_intro hlen), copy_ok (by rw [hbytes]) hsize.ge, ok_bind]
    refine writes_some ?_
    rw [overwrite, hbytes, List.drop_eq_nil_of_le hsize.le]
    exact List.append_nil _
  · rw [dif_neg hlen, if_pos hlen]
    exact writes_none hsize

/-- The end of `derive_uuid`. -/
theorem versionAndVariant {hash : Bytes} (h : hash.length = 16) :
    (do
      let hash ← set hash 6 (((← get hash 6) &&& 0x0F) ||| 0x50)
      let hash ← set hash 8 (((← get hash 8) &&& 0x3F) ||| 0x80)
      return (true, hash)) =
    (.ok (true, (hash.set 6 ((hash.getD 6 0 &&& 0x0F) ||| 0x50)).set 8
      ((hash.getD 8 0 &&& 0x3F) ||| 0x80)) : Checked (Bool × Bytes)) := by
  have h8 (b : UInt8) : (hash.set 6 b).getD 8 0 = hash.getD 8 0 := by
    rw [List.getD_eq_getElem?_getD, List.getElem?_set_ne (by decide), List.getD_eq_getElem?_getD]
  rw [get_ok (by omega) 0, ok_bind, set_ok _ (by omega), ok_bind,
    get_ok (by rw [List.length_set]; omega) 0, ok_bind, set_ok _ (by rw [List.length_set]; omega),
    ok_bind, h8]
  rfl

theorem writes_deriveUuid (id : List Char) (hsize : dest.length = uuidSize)
    (hid : (utf8 (String.ofList id)).length ≤ maxDerived) :
    Writes (some (deriveUuid p id)) (deriveUuidInto p id dest) := by
  have hid : (utf8 (String.ofList id)).length ≤ 30 := hid
  have hsize : dest.length = 16 := hsize
  have hzeros : Front 136 (List.replicate 16 (0 : UInt8)) (List.replicate 136 0) :=
    ⟨List.length_replicate, List.replicate 120 0, List.replicate_append_replicate⟩
  obtain ⟨input, einput, hinput⟩ := hzeros.copy (utf8 (String.ofList id))
    List.length_replicate rfl (by omega)
  have hname := hinput.slice
  rw [List.length_append, List.length_replicate] at hname
  have hshort : ¬ maxDerived * 4 < (utf8 (String.ofList id)).length := by
    show ¬ 30 * 4 < _
    omega
  have hhash := (p.sha1 (List.replicate 16 0 ++ utf8 (String.ofList id))).size
  have htake : ((p.sha1 (List.replicate 16 0 ++ utf8 (String.ofList id))).bytes.take 16).length =
      16 := by rw [List.length_take, hhash]; rfl
  rw [deriveUuidInto, if_neg hshort, deriveUuid]
  simp only [uuidSize, maxDerived]
  rw [einput, ok_bind, hname, ok_bind, slice_ok (Nat.zero_le _) (by rw [hhash]; decide), ok_bind,
    List.drop_zero, copy_ok (by rw [htake]) hsize.ge, ok_bind]
  have hover : overwrite dest 0 ((p.sha1 (List.replicate 16 0 ++ utf8 (String.ofList id))).bytes.take 16)
      = (p.sha1 (List.replicate 16 0 ++ utf8 (String.ofList id))).bytes.take 16 := by
    rw [overwrite, htake, List.drop_eq_nil_of_le hsize.le]
    exact List.append_nil _
  rw [hover, versionAndVariant htake]
  exact writes_some rfl

theorem writes_uuidWriteBe (id : String) (hsize : dest.length = uuidSize) :
    Writes (uuidWriteBe p id) (uuidWriteBeInto p id dest) := by
  have hroom : ¬ dest.length < uuidSize := by omega
  simp only [uuidWriteBe, uuidWriteBeInto, if_neg hroom]
  split
  · exact writes_parseCanonical _ hsize
  · split
    · next h => exact writes_deriveUuid _ hsize h.2
    · exact writes_none hsize

end Uuid

namespace Dial

variable (crates : DialCrates)

/-! ## Trojan -/

def hexTable : Bytes := ascii "0123456789abcdef"

/-- The loop of `sha224_hex_lower`, from the byte `i` of the digest on. -/
def hexInto : (i : Nat) → (digest : Bytes) → (dest : Bytes) → Checked Bytes
  | _, [], dest => return dest
  | i, b :: digest, dest => do
      let hi ← get hexTable (b >>> 4).toNat
      let dest ← set dest (2 * i) hi
      let lo ← get hexTable (b &&& 0x0F).toNat
      let dest ← set dest (2 * i + 1) lo
      hexInto (i + 1) digest dest

/-- `sha224_hex_lower`. -/
def sha224HexLowerInto (data dest : Bytes) : Checked Bytes :=
  hexInto 0 (crates.sha224 data).bytes dest

def sha224HexSize : Nat := 56

/-- `build_request` of Trojan. -/
def trojanBuildRequest (buffer : Bytes) (password host : Str) (port : UInt16) :
    Checked (Except ProxyError Nat × Bytes) := do
  let buffer ← within buffer 0 sha224HexSize (sha224HexLowerInto crates (bytes password))
  let buffer ← set buffer sha224HexSize 13
  let buffer ← set buffer (sha224HexSize + 1) 10
  let offset := sha224HexSize + 2
  let buffer ← set buffer offset 0x01
  let offset := offset + 1
  let (r, buffer) ← call buffer offset buffer.length fun dest =>
    ProxyAddress.writeTypeAndAddressInto (String.ofList host) dest 0x01 0x03 0x04
  match r with
  | .error e => return (.error e, buffer)
  | .ok n =>
      let offset := offset + n
      let buffer ← copy buffer offset (offset + 2) (toBe16 port.toNat)
      let offset := offset + 2
      let buffer ← set buffer offset 13
      let buffer ← set buffer (offset + 1) 10
      return (.ok (offset + 2), buffer)

/-- `req` of `establish_trojan`. -/
def trojanBuffer : Nat := sha224HexSize + 2 + 1 + ProxyAddress.maxLength + 2 + 2

def lowerDigit (n : UInt8) : UInt8 := if n < 10 then 48 + n else 87 + n

theorem get_hexTable {n : UInt8} (h : n.toNat < 16) : get hexTable n.toNat = .ok (lowerDigit n) := by
  have hall : ∀ k : Fin 16, get hexTable k.val = .ok (lowerDigit (UInt8.ofNat k.val)) := by decide
  have hn := hall ⟨n.toNat, h⟩
  rwa [UInt8.ofNat_toNat] at hn

theorem shiftRight_four_lt (b : UInt8) : (b >>> 4).toNat < 16 := by
  have hlt := b.toNat_lt
  rw [UInt8.toNat_shiftRight, Nat.shiftRight_eq_div_pow]
  show b.toNat / 16 < 16
  omega

theorem and_fifteen_lt (b : UInt8) : (b &&& 0x0F).toNat < 16 := by
  rw [UInt8.toNat_and]
  exact Nat.and_lt_two_pow _ (n := 4) (by decide)

theorem front_hexInto {size : Nat} : ∀ (digest : Bytes) {i : Nat} {pre dest : Bytes},
    Front size pre dest → pre.length = 2 * i → 2 * (i + digest.length) ≤ size →
      ∃ dest', hexInto i digest dest = .ok dest' ∧ Front size
        (pre ++ digest.flatMap fun (b : UInt8) => [lowerDigit (b >>> 4), lowerDigit (b &&& 0x0F)]) dest'
  | [], i, pre, dest, h, _, _ => ⟨dest, rfl, by simpa using h⟩
  | b :: digest, i, pre, dest, h, hi, hroom => by
      rw [List.length_cons] at hroom
      obtain ⟨d1, e1, h1⟩ := h.set (x := lowerDigit (b >>> 4)) hi (by omega)
      obtain ⟨d2, e2, h2⟩ := h1.set (x := lowerDigit (b &&& 0x0F)) (i := 2 * i + 1)
        (by simp [hi]) (by omega)
      obtain ⟨d3, e3, h3⟩ := front_hexInto digest (i := i + 1) h2 (by simp [hi]; omega) (by omega)
      refine ⟨d3, ?_, by simpa using h3⟩
      rw [hexInto, get_hexTable (shiftRight_four_lt b), ok_bind, e1, ok_bind,
        get_hexTable (and_fifteen_lt b), ok_bind, e2, ok_bind, e3]

theorem length_sha224HexLower (data : Bytes) : (sha224HexLower crates data).length = sha224HexSize := by
  have hsize := (crates.sha224 data).size
  simp only [sha224HexLower, List.length_flatMap, List.length_cons, List.length_nil,
    List.map_const', List.sum_replicate_nat, hsize]
  rfl

variable {crates}

theorem fills_trojan {size : Nat} {buffer : Bytes} {password host : Str} {port : UInt16}
    (hsize : buffer.length = size) (hroom : trojanBuffer ≤ size) :
    Fills size (trojanRequest crates password host port)
      (trojanBuildRequest crates buffer password host port) := by
  have hroom : 320 ≤ size := hroom
  have hdigest := (crates.sha224 (bytes password)).size
  have hdigits := length_sha224HexLower crates (bytes password)
  have hdigits : (sha224HexLower crates (bytes password)).length = 56 := hdigits
  have hpart : ((buffer.take 56).drop 0).length = 56 := by
    rw [List.drop_zero, List.length_take]
    omega
  obtain ⟨part, epart, hpart⟩ := front_hexInto
    (crates.sha224 (bytes password)).bytes (i := 0) (Front.empty hpart) rfl (by rw [hdigest])
  obtain ⟨b1, e1, h1⟩ := (Front.empty hsize).within (i := 0) (j := 56) rfl (by omega) (by omega)
    (f := sha224HexLowerInto crates (bytes password)) epart hpart
  have hpre : ([] ++ ([] ++ (crates.sha224 (bytes password)).bytes.flatMap fun (b : UInt8) =>
      [lowerDigit (b >>> 4), lowerDigit (b &&& 0x0F)])) = sha224HexLower crates (bytes password) := rfl
  rw [hpre] at h1
  obtain ⟨b2, e2, h2⟩ := h1.set (x := 13) (i := 56) hdigits (by omega)
  obtain ⟨b3, e3, h3⟩ := h2.set (x := 10) (i := 57) (by simp [hdigits]) (by omega)
  obtain ⟨b4, e4, h4⟩ := h3.set (x := 0x01) (i := 58) (by simp [hdigits]) (by omega)
  obtain ⟨r, b5, e5, hr, pre, h5, haddr⟩ := h4.fills (i := 59) (by simp [hdigits])
    fun part hlen => ProxyAddress.fills_typeAndAddress (String.ofList host) 0x01 0x03 0x04 hlen
      (show 257 ≤ size - 59 by omega)
  simp only [trojanBuildRequest, trojanRequest, sha224HexSize, e1, e2, e3, e4, e5, ok_bind]
  cases hmessage : ProxyAddress.writeTypeAndAddress (String.ofList host) 0x01 0x03 0x04 with
  | error e =>
      rw [hmessage] at hr
      subst hr
      exact fills_error h5
  | ok addr =>
      have hlong := ProxyAddress.length_writeTypeAndAddress hmessage
      have hlong : addr.length ≤ 257 := hlong
      rw [hmessage] at hr
      rw [haddr addr hmessage] at h5
      subst hr
      obtain ⟨b6, e6, h6⟩ := h5.copy (toBe16 port.toNat) (i := 59 + addr.length)
        (by simp [hdigits]; omega) rfl (by simp; omega)
      obtain ⟨b7, e7, h7⟩ := h6.set (x := 13) (i := 59 + addr.length + 2)
        (by simp [hdigits]; omega) (by omega)
      obtain ⟨b8, e8, h8⟩ := h7.set (x := 10) (i := 59 + addr.length + 2 + 1)
        (by simp [hdigits]; omega) (by omega)
      rw [length_toBe16] at e6
      show Fills size _ (copy b5 _ (59 + addr.length + 2) _ >>= _)
      rw [e6, ok_bind, e7, ok_bind, e8, ok_bind]
      refine fills_ok ?_ ?_
      · simpa using h8
      · simp [hdigits]
        omega

/-! ## VLESS -/

variable (crates)

def addonsFlowTag : UInt8 := 0x0A

/-- The addons of `build_request`, and the offset behind them. -/
def vlessAddonsInto (buffer : Bytes) (offset : Nat) (vision : Bool) : Checked (Nat × Bytes) :=
  if vision then do
    let flow := bytes visionFlow
    let buffer ← set buffer offset (UInt8.ofNat (2 + flow.length))
    let offset := offset + 1
    let buffer ← set buffer offset addonsFlowTag
    let offset := offset + 1
    let buffer ← set buffer offset (UInt8.ofNat flow.length)
    let offset := offset + 1
    let buffer ← copy buffer offset (offset + flow.length) flow
    return (offset + flow.length, buffer)
  else do
    let buffer ← set buffer offset 0
    return (offset + 1, buffer)

/-- `build_request` of VLESS. -/
def vlessBuildRequest (buffer : Bytes) (id host : Str) (port : UInt16) (vision : Bool) :
    Checked (Except ProxyError Nat × Bytes) := do
  let buffer ← set buffer 0 0x00
  let (usable, buffer) ← call buffer 1 (1 + Uuid.uuidSize)
    (Uuid.uuidWriteBeInto crates.primitives (String.ofList id))
  if !usable then return (.error (vlessUnusable id), buffer)
  else do
    let offset := 1 + Uuid.uuidSize
    let (offset, buffer) ← vlessAddonsInto buffer offset vision
    let buffer ← set buffer offset 0x01
    let offset := offset + 1
    let buffer ← copy buffer offset (offset + 2) (toBe16 port.toNat)
    let offset := offset + 2
    let (r, buffer) ← call buffer offset buffer.length fun dest =>
      ProxyAddress.writeTypeAndAddressInto (String.ofList host) dest 0x01 0x02 0x03
    match r with
    | .error e => return (.error e, buffer)
    | .ok n => return (.ok (offset + n), buffer)

/-- `req` of `establish_vless`. -/
def vlessBuffer : Nat :=
  1 + Uuid.uuidSize + 1 + 2 + (bytes visionFlow).length + 1 + 2 + ProxyAddress.maxLength

variable {crates}

/-- The addons take at most nineteen bytes. -/
theorem front_addons {size offset : Nat} {pre buffer : Bytes} (h : Front size pre buffer)
    (hi : pre.length = offset) (hroom : offset + 19 ≤ size) (vision : Bool) :
    ∃ buffer', vlessAddonsInto buffer offset vision =
        .ok (offset + (vlessAddons vision).length, buffer') ∧
      Front size (pre ++ vlessAddons vision) buffer' := by
  cases vision with
  | false =>
      obtain ⟨b1, e1, h1⟩ := h.set (x := 0) hi (by omega)
      refine ⟨b1, ?_, h1⟩
      show (set buffer offset 0 >>= _) = _
      rw [e1]
      rfl
  | true =>
      have hflow : (bytes visionFlow).length = 16 := by decide
      obtain ⟨b1, e1, h1⟩ := h.set (x := UInt8.ofNat (2 + (bytes visionFlow).length)) hi (by omega)
      obtain ⟨b2, e2, h2⟩ := h1.set (x := addonsFlowTag) (i := offset + 1) (by simp [hi]) (by omega)
      obtain ⟨b3, e3, h3⟩ := h2.set (x := UInt8.ofNat (bytes visionFlow).length)
        (i := offset + 1 + 1) (by simp [hi]) (by omega)
      obtain ⟨b4, e4, h4⟩ := h3.copy (bytes visionFlow) (i := offset + 1 + 1 + 1)
        (by simp [hi]) rfl (by omega)
      refine ⟨b4, ?_, ?_⟩
      · show (set buffer offset _ >>= _) = _
        simp only [e1, e2, e3, e4, ok_bind]
        rfl
      · simp only [List.append_assoc] at h4
        exact h4

theorem fills_vless {size : Nat} {buffer : Bytes} {id host : Str} {port : UInt16} {vision : Bool}
    (hsize : buffer.length = size) (hroom : vlessBuffer ≤ size) :
    Fills size (vlessRequest crates id host port vision)
      (vlessBuildRequest crates buffer id host port vision) := by
  have hflow : (bytes visionFlow).length = 16 := by decide
  have hroom : 296 ≤ size := by
    have hroom : 1 + 16 + 1 + 2 + (bytes visionFlow).length + 1 + 2 + 257 ≤ size := hroom
    omega
  obtain ⟨b1, e1, h1⟩ := (Front.empty hsize).set (x := 0x00) (i := 0) rfl (by omega)
  have hslice : ((b1.take 17).drop 1).length = Uuid.uuidSize := by
    show _ = 16
    rw [List.length_drop, List.length_take, h1.size]
    omega
  obtain ⟨r, part, eid, hr, new, hnew, huuid⟩ := Uuid.writes_uuidWriteBe (p := crates.primitives)
    (String.ofList id) hslice
  obtain ⟨b2, e2, h2⟩ := h1.call (i := 1) (j := 17) rfl (by omega) (by omega) eid hnew
  rw [vlessBuildRequest, vlessRequest, e1, ok_bind]
  show Fills size _ (call b1 1 17 _ >>= _)
  rw [e2, ok_bind]
  cases hid : Uuid.uuidWriteBe crates.primitives (String.ofList id) with
  | none =>
      rw [hid] at hr
      subst hr
      exact fills_error h2
  | some uuid =>
      rw [hid] at hr
      rw [huuid uuid hid] at h2
      subst hr
      have hlen := uuid.size
      have hlen : uuid.bytes.length = 16 := hlen
      obtain ⟨b3, e3, h3⟩ := front_addons h2 (show _ = 17 by simp [hlen]) (by omega)
        vision
      have hadd : (vlessAddons vision).length ≤ 19 := by cases vision <;> decide
      generalize vlessAddons vision = addons at *
      obtain ⟨b4, e4, h4⟩ := h3.set (x := 0x01) (i := 17 + addons.length) (by simp [hlen]; omega)
        (by omega)
      obtain ⟨b5, e5, h5⟩ := h4.copy (toBe16 port.toNat) (i := 17 + addons.length + 1)
        (by simp [hlen]; omega) rfl (by simp; omega)
      rw [length_toBe16] at e5
      obtain ⟨r, b6, e6, hr, pre, h6, haddr⟩ := h5.fills (i := 17 + addons.length + 1 + 2)
        (by simp [hlen]; omega)
        fun part hlen => ProxyAddress.fills_typeAndAddress (String.ofList host) 0x01 0x02 0x03
          hlen (show 257 ≤ size - (17 + addons.length + 1 + 2) by omega)
      show Fills size _ (vlessAddonsInto b2 17 vision >>= _)
      rw [e3, ok_bind]
      show Fills size _ (set b3 (17 + addons.length) 0x01 >>= _)
      simp only [e4, e5, e6, ok_bind]
      cases hmessage : ProxyAddress.writeTypeAndAddress (String.ofList host) 0x01 0x02 0x03 with
      | error e =>
          rw [hmessage] at hr
          subst hr
          exact fills_error h6
      | ok addr =>
          rw [hmessage] at hr
          rw [haddr addr hmessage] at h6
          subst hr
          refine fills_ok ?_ ?_
          · simpa using h6
          · simp [hlen]
            omega

end Dial

end RustClash
