import RustClash.Proxynet.Vmess.Protocol

/-!
# What a VMess server makes of a request

`decodeRequest` reads a plaintext header by the VMess request format, where an
address is of type 1, 2 or 3 for IPv4, a domain name and IPv6.  `openRequest` is a
server that opens a sealed header.  `understood_iff` says when the header of a
request means what the request says.
-/

namespace RustClash

namespace Vmess

/-! ## The format -/

inductive Address where
  | ipv4 (ip : Ipv4Addr)
  | domain (name : Bytes)
  | ipv6 (ip : Ipv6Addr)
deriving DecidableEq

/-- The target that a host stands for: an IP literal, or else a domain name. -/
def Address.ofHost (host : String) : Address :=
  match parseIpAddr host with
  | some (.v4 ip) => .ipv4 ip
  | some (.v6 ip) => .ipv6 ip
  | none => .domain (utf8 host)

structure RequestHeader where
  version : UInt8
  iv : Octets 16
  key : Octets 16
  response : UInt8
  option : UInt8
  security : UInt8
  reserved : UInt8
  command : UInt8
  port : Nat
  address : Address
  padding : Bytes
deriving DecidableEq

def takeExact (n : Nat) (bs : Bytes) : Option (Octets n × Bytes) :=
  if h : n ≤ bs.length then some (⟨bs.take n, List.length_take_of_le h⟩, bs.drop n) else none

theorem takeExact_of_length {n : Nat} {bs : Bytes} (h : bs.length = n) (rest : Bytes) :
    takeExact n (bs ++ rest) = some (⟨bs, h⟩, rest) := by
  subst h
  rw [takeExact, dif_pos (by simp)]
  simp

theorem takeExact_append {n : Nat} (bs : Octets n) (rest : Bytes) :
    takeExact n (bs.bytes ++ rest) = some (bs, rest) := takeExact_of_length bs.size rest

/-- An address at the front of `bs`, and the bytes after it. -/
def decodeAddress (bs : Bytes) : Option (Address × Bytes) :=
  match bs with
  | 0x01 :: a :: b :: c :: d :: rest => some (.ipv4 ⟨a, b, c, d⟩, rest)
  | 0x02 :: len :: rest => do
      let (name, rest) ← takeExact len.toNat rest
      return (.domain name.bytes, rest)
  | 0x03 :: rest => do
      let (octets, rest) ← takeExact 16 rest
      return (.ipv6 ⟨octets.bytes, octets.size⟩, rest)
  | _ => none

/-- The padding, with the checksum `sum` and nothing else after it. -/
def decodeTail (len : Nat) (sum bs : Bytes) : Option Bytes := do
  let (padding, rest) ← takeExact len bs
  if rest = sum then some padding.bytes else none

def decodeRequest (bs : Bytes) : Option RequestHeader := do
  let version :: rest := bs | none
  let (iv, rest) ← takeExact 16 rest
  let (key, rest) ← takeExact 16 rest
  let response :: option :: lens :: reserved :: command :: hi :: lo :: rest := rest | none
  let (address, rest) ← decodeAddress rest
  let sum := toBe 4 (fnv1a32 (bs.take (bs.length - 4))).toNat
  let padding ← decodeTail (lens >>> 4).toNat sum rest
  return {
    version
    iv
    key
    response
    option
    security := lens &&& 0x0F
    reserved
    command
    port := ofBe16 hi lo
    address
    padding }

/-- What the header of a request for an address is to say. -/
def meaning (address : Address) (port : UInt16) (security : UInt8) (sess : ClientSession)
    (d : Draws) : RequestHeader where
  version := 1
  iv := sess.requestBodyIv
  key := sess.requestBodyKey
  response := sess.responseHeader
  option := optChunkStream ||| optChunkMasking ||| optGlobalPadding
  security := security
  reserved := 0
  command := 1
  port := port.toNat
  address := address
  padding := d.padding.bytes

/-! ## The header by the format -/

/-- A half of a byte each. -/
theorem nibbles {padding security : UInt8} (hpadding : padding < 16) (hsecurity : security < 16) :
    ((padding <<< 4) ||| security) >>> 4 = padding ∧
      ((padding <<< 4) ||| security) &&& 0x0F = security := by
  have h : ∀ m : Fin 16, ∀ n : Fin 16,
      ((UInt8.ofNat m <<< 4) ||| UInt8.ofNat n) >>> 4 = UInt8.ofNat m ∧
        ((UInt8.ofNat m <<< 4) ||| UInt8.ofNat n) &&& 0x0F = UInt8.ofNat n := by decide
  have := h ⟨padding.toNat, hpadding⟩ ⟨security.toNat, hsecurity⟩
  simpa using this

/-- A header with the address `a` is read as the format reads that address. -/
theorem decodeRequest_fields (port : UInt16) {security : UInt8} (hsecurity : security < 16)
    (sess : ClientSession) (d : Draws) (a : Bytes) :
    let buf := headerFields sess security (toBe16 port.toNat ++ a) d
    let sum := toBe 4 (fnv1a32 buf).toNat
    decodeRequest (buf ++ sum) = do
      let (address, rest) ← decodeAddress (a ++ (d.padding.bytes ++ sum))
      let padding ← decodeTail (d.paddingByte % 16).toNat sum rest
      return { meaning address port security sess d with padding } := by
  intro buf sum
  have hfront : (buf ++ sum).take ((buf ++ sum).length - 4) = buf := by
    rw [List.length_append, length_toBe, Nat.add_sub_cancel, List.take_left]
  have hbuf : buf ++ sum = (0x01 : UInt8) :: (sess.requestBodyIv.bytes ++ (sess.requestBodyKey.bytes ++
      sess.responseHeader :: (optChunkStream ||| optChunkMasking ||| optGlobalPadding) ::
        (((d.paddingByte % 16) <<< 4) ||| security) :: 0 :: cmdTcp ::
          UInt8.ofNat (port.toNat / 256) :: UInt8.ofNat port.toNat ::
            (a ++ (d.padding.bytes ++ sum)))) := by
    simp [buf, headerFields, toBe16]
  have hpadding : d.paddingByte % 16 < 16 := UInt8.mod_lt _ (by decide)
  obtain ⟨hhigh, hlow⟩ := nibbles hpadding hsecurity
  simp only [decodeRequest]
  rw [hfront, hbuf]
  simp only [takeExact_append, Option.bind_eq_bind, Option.bind_some, hhigh, hlow,
    ofBe16_toBe16 port.toNat_lt]
  rfl

theorem decodeRequest_address {port : UInt16} {security : UInt8} (hsecurity : security < 16)
    {sess : ClientSession} {d : Draws} {a : Bytes} {r : RequestHeader} :
    let buf := headerFields sess security (toBe16 port.toNat ++ a) d
    let sum := toBe 4 (fnv1a32 buf).toNat
    decodeRequest (buf ++ sum) = some r →
      ∃ rest, decodeAddress (a ++ (d.padding.bytes ++ sum)) = some (r.address, rest) := by
  intro buf sum h
  rw [decodeRequest_fields port hsecurity sess d a] at h
  obtain ⟨⟨address, rest⟩, haddress, h⟩ := Option.bind_eq_some_iff.mp h
  obtain ⟨padding, -, h⟩ := Option.bind_eq_some_iff.mp h
  cases h
  exact ⟨rest, haddress⟩

/-- Type 3 is an IPv6 address, whatever follows. -/
theorem decodeAddress_three {bs rest : Bytes} {address : Address}
    (h : decodeAddress (0x03 :: bs) = some (address, rest)) : ∃ ip, address = .ipv6 ip := by
  obtain ⟨⟨octets, rest'⟩, -, h⟩ := Option.bind_eq_some_iff.mp h
  cases h
  exact ⟨_, rfl⟩

theorem requestHeader_ok {host : String} {a : Bytes} (port : UInt16) (security : UInt8)
    (sess : ClientSession) (d : Draws)
    (h : ProxyAddress.writeTypeAndAddress host 0x01 0x03 0x04 = .ok a) :
    let buf := headerFields sess security (toBe16 port.toNat ++ a) d
    requestHeader host port security sess d = .ok (buf ++ toBe 4 (fnv1a32 buf).toNat) := by
  intro buf
  simp only [requestHeader, ProxyAddress.writeSocksPortFirst]
  rw [if_neg (by decide), h]
  rfl

/-- The headers of requests are short. -/
theorem length_requestHeader {host : String} {port : UInt16} {security : UInt8}
    {sess : ClientSession} {d : Draws} {header : Bytes}
    (h : requestHeader host port security sess d = .ok header) : header.length < 65536 := by
  cases ha : ProxyAddress.writeTypeAndAddress host 0x01 0x03 0x04 with
  | error e =>
      simp only [requestHeader, ProxyAddress.writeSocksPortFirst] at h
      rw [if_neg (by decide), ha] at h
      cases h
  | ok a =>
      rw [requestHeader_ok port security sess d ha] at h
      cases h
      have hlen := ProxyAddress.length_writeTypeAndAddress ha
      have hpadding : (d.paddingByte % 16).toNat < 16 := UInt8.mod_lt d.paddingByte (by decide)
      simp only [headerFields, ProxyAddress.maxLength, List.length_append, List.length_cons,
        length_toBe, length_toBe16, Octets.size] at hlen ⊢
      omega

/-! ## The sealed header -/

/-- A server with the user's id opens a sealed header; with it come the bytes after it. -/
def openRequest (p : Primitives) (id : Octets 16) (packet : Bytes) : Option (Bytes × Bytes) := do
  let key := (cmdKey p id).bytes
  let (authId, rest) ← takeExact 16 packet
  let (sealedLen, rest) ← takeExact 18 rest
  let (nonce8, rest) ← takeExact 8 rest
  let lenKey := kdf3 p 16 key saltVmessHeaderPayloadLengthAeadKey authId.bytes nonce8.bytes
  let lenIv := kdf3 p 12 key saltVmessHeaderPayloadLengthAeadIv authId.bytes nonce8.bytes
  let len ← (p.aes128Gcm lenKey).decrypt lenIv authId.bytes sealedLen.bytes
  let (sealed, rest) ← takeExact (ofBe16 (len.getD 0 0) (len.getD 1 0) + 16) rest
  let pkey := kdf3 p 16 key saltVmessHeaderPayloadAeadKey authId.bytes nonce8.bytes
  let piv := kdf3 p 12 key saltVmessHeaderPayloadAeadIv authId.bytes nonce8.bytes
  let header ← (p.aes128Gcm pkey).decrypt piv authId.bytes sealed.bytes
  return (header, rest)

/-- What was sealed is opened, under every authentication id and nonce. -/
theorem openRequest_sealWith {p : Primitives}
    (hlaw : ∀ key : Bytes, key.length = 16 → (p.aes128Gcm key).Lawful 16) (id : Octets 16)
    {data : Bytes} (hdata : data.length < 65536) (authId : Octets 16) (nonce8 : Octets 8)
    (body : Bytes) :
    openRequest p id (sealWith p (cmdKey p id).bytes data authId nonce8 ++ body) =
      some (data, body) := by
  have hlen := hlaw _ (length_kdf3 p (cmdKey p id).bytes saltVmessHeaderPayloadLengthAeadKey
    authId.bytes nonce8.bytes (Nat.le_of_ble_eq_true rfl : 16 ≤ 32))
  have hpayload := hlaw _ (length_kdf3 p (cmdKey p id).bytes saltVmessHeaderPayloadAeadKey
    authId.bytes nonce8.bytes (Nat.le_of_ble_eq_true rfl : 16 ≤ 32))
  have hsize : _ = 18 := hlen.length_encrypt (kdf3 p 12 (cmdKey p id).bytes
    saltVmessHeaderPayloadLengthAeadIv authId.bytes nonce8.bytes) authId.bytes (toBe16 data.length)
  have hpsize := hpayload.length_encrypt (kdf3 p 12 (cmdKey p id).bytes
    saltVmessHeaderPayloadAeadIv authId.bytes nonce8.bytes) authId.bytes data
  have hcount : ofBe16 ((toBe16 data.length).getD 0 0) ((toBe16 data.length).getD 1 0) + 16 =
      data.length + 16 := by
    exact congrArg (· + 16) (ofBe16_toBe16 hdata)
  simp only [openRequest, sealWith]
  simp only [List.append_assoc, takeExact_append, Option.bind_eq_bind, Option.bind_some]
  rw [takeExact_of_length hsize]
  simp only [takeExact_append, Option.bind_some, hlen.decrypt_encrypt]
  rw [hcount, takeExact_of_length hpsize]
  simp only [Option.bind_some, hpayload.decrypt_encrypt]
  rfl

/-! ## Requests -/

/-- A request that a server understands: its plaintext header says what was asked for,
and a server with the user's id gets that header back, whatever follows it. -/
def Understood (p : Primitives) (uuid host : String) (port : UInt16) (security : UInt8)
    (sess : ClientSession) (d : Draws) : Prop :=
  ∃ id header, Uuid.uuidWriteBe p uuid = some id ∧
    requestHeader host port security sess d = .ok header ∧
    decodeRequest header = some (meaning (.ofHost host) port security sess d) ∧
    encodeRequest p uuid host port security sess d =
      .ok (if sess.aead then sealAeadHeader p (cmdKey p id).bytes header d
        else legacyHeader p id header d) ∧
    ∀ authId nonce8 body,
      openRequest p id (sealWith p (cmdKey p id).bytes header authId nonce8 ++ body) =
        some (header, body)

theorem encodeRequest_ok {p : Primitives} {uuid host : String} {port : UInt16} {security : UInt8}
    {sess : ClientSession} {d : Draws} {id : Octets 16} {header : Bytes}
    (hid : Uuid.uuidWriteBe p uuid = some id)
    (hheader : requestHeader host port security sess d = .ok header) :
    encodeRequest p uuid host port security sess d =
      .ok (if sess.aead then sealAeadHeader p (cmdKey p id).bytes header d
        else legacyHeader p id header d) := by
  simp only [encodeRequest]
  rw [hid, hheader]
  cases sess.aead <;> rfl

/-- The header is understood exactly if the host is an IPv4 literal: the other types of
an address are written with the codes of SOCKS. -/
theorem understood_iff (p : Primitives) (uuid host : String) (port : UInt16) (security : UInt8)
    (sess : ClientSession) (d : Draws)
    (hlaw : ∀ key : Bytes, key.length = 16 → (p.aes128Gcm key).Lawful 16)
    (hid : (Uuid.uuidWriteBe p uuid).isSome)
    (hhost : parseIpAddr host = none → (utf8 host).length ≤ 255) (hsecurity : security < 16) :
    Understood p uuid host port security sess d ↔ ∃ ip, parseIpAddr host = some (.v4 ip) := by
  obtain ⟨id, hid⟩ := Option.isSome_iff_exists.mp hid
  constructor
  · rintro ⟨-, header, -, hheader, hdecode, -⟩
    cases hparse : parseIpAddr host with
    | none =>
        have ha : ProxyAddress.writeTypeAndAddress host 0x01 0x03 0x04 =
            .ok (0x03 :: UInt8.ofNat (utf8 host).length :: utf8 host) := by
          rw [ProxyAddress.writeTypeAndAddress, hparse]
          exact if_neg (Nat.not_lt.mpr (hhost hparse))
        rw [requestHeader_ok port security sess d ha] at hheader
        cases hheader
        obtain ⟨rest, haddress⟩ := decodeRequest_address hsecurity hdecode
        obtain ⟨ip, hip⟩ := decodeAddress_three haddress
        simp [meaning, Address.ofHost, hparse] at hip
    | some ip =>
        cases ip with
        | v4 ip => exact ⟨ip, rfl⟩
        | v6 ip =>
            have ha : ProxyAddress.writeTypeAndAddress host 0x01 0x03 0x04 =
                .ok (0x04 :: ip.octets) := by
              rw [ProxyAddress.writeTypeAndAddress, hparse]
            rw [requestHeader_ok port security sess d ha] at hheader
            cases hheader
            obtain ⟨rest, haddress⟩ := decodeRequest_address hsecurity hdecode
            cases haddress
  · rintro ⟨ip, hparse⟩
    have ha : ProxyAddress.writeTypeAndAddress host 0x01 0x03 0x04 = .ok (0x01 :: ip.octets) := by
      rw [ProxyAddress.writeTypeAndAddress, hparse]
    have hheader := requestHeader_ok port security sess d ha
    refine ⟨id, _, hid, hheader, ?_, encodeRequest_ok hid hheader,
      openRequest_sealWith hlaw id (length_requestHeader hheader)⟩
    have hoctets : ∀ rest, decodeAddress (0x01 :: ip.octets ++ rest) = some (.ipv4 ip, rest) :=
      fun _ => rfl
    have htail : ∀ sum, decodeTail (d.paddingByte % 16).toNat sum (d.padding.bytes ++ sum) =
        some d.padding.bytes := by
      intro sum
      simp [decodeTail, takeExact_append]
    rw [decodeRequest_fields port hsecurity, hoctets]
    simp only [Option.bind_eq_bind, Option.bind_some, htail, Address.ofHost, hparse]
    rfl

/-- A byte of padding, and nothing else that is not zero. -/
def sampleDraws : Draws where
  now := 0
  delta := 0
  paddingByte := 1
  padding := ⟨[9], rfl⟩
  sealNow := 0
  authRand := ⟨List.replicate 4 0, rfl⟩
  nonce8 := ⟨List.replicate 8 0, rfl⟩

theorem understood_ipv4 : Understood .sums "11111111-1111-1111-1111-111111111111" "1.2.3.4" 443
    securityAes128Gcm sampleSession sampleDraws :=
  (understood_iff .sums _ _ 443 securityAes128Gcm sampleSession sampleDraws
    (fun key _ => keyTagged_lawful key) (by decide +kernel) (by decide +kernel)
    (@securityValue_lt "aes-128-gcm" _ rfl)).mpr ⟨⟨1, 2, 3, 4⟩, by decide⟩

/-- The header for a domain name is not even a header. -/
theorem understood_fails : ¬ Understood .sums "11111111-1111-1111-1111-111111111111" "a.b" 443
    securityAes128Gcm sampleSession sampleDraws := by
  rintro ⟨id, header, -, hheader, hdecode, -⟩
  have hnone : (requestHeader "a.b" 443 securityAes128Gcm sampleSession sampleDraws).map
      decodeRequest = .ok none := by decide +kernel
  rw [hheader, Except.map, hdecode] at hnone
  cases hnone

end Vmess

end RustClash
