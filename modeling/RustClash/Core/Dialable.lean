import RustClash.Config.Listed
import RustClash.Core.Outbound
import RustClash.Proxynet.Reality.HelloBytes
import RustClash.Proxynet.Vmess.Request

/-!
# Nodes that can be dialed

A dial can succeed if some peer lets it.  Whether it can is a matter of the node alone:
the checks that a dial makes of its options, one after the other, come down to a
condition on the fields of the node.
-/

namespace RustClash

open Str Config Script Dial

/-! ## What the checks ask for -/

namespace ProxyNode

variable (crates : DialCrates) (node : ProxyNode)

/-- The user id is one that `uuid_write_be` takes. -/
def UsableId : Prop :=
  (Uuid.uuidWriteBe crates.primitives (String.ofList (node.uuid.getD []))).isSome = true

/-- The flow is none, or the one that VLESS has. -/
def KnownFlow : Prop :=
  ∀ flow, node.flow = some flow → flow = [] ∨ eqIgnoreCase flow visionFlow = true

/-- The names that the node gives its server. -/
def given : Option Str := node.serverName <|> node.wsHost

/-- A name that the node gives its server is one that TLS takes. -/
def TlsName : Prop := ∀ name, node.given = some name → crates.serverName name = true

/-- A name that the node gives its server leaves the ClientHello room in one record. -/
def RealityName : Prop :=
  ∀ name, node.given = some name → (utf8 (Reality.toAlabel crates.tls (String.ofList name))).length ≤ 16189

/-- The key is there and can be decoded, and so can the short id. -/
structure RealityKeys : Prop where
  key : ∃ key, Reality.decodePbk crates.tls (String.ofList (node.realityPublicKey.getD [])) = .ok key
  shortId : ∃ shortId, Reality.parseShortId (node.realityShortId.map String.ofList) = .ok shortId

/-- The plugin is none, or simple-obfs in one of its two modes. -/
def UsablePlugin : Prop :=
  oneOf (toLower (trim (node.plugin.getD []))) ["", "none"] ∨
    oneOf (toLower (trim (node.plugin.getD []))) ["obfs", "obfs-local", "simple-obfs"] ∧
      oneOf (obfsMode node.pluginOpts) ["http", "tls"]

def KnownVmessCipher : Prop :=
  oneOf (toLower (trim (node.cipher.getD [])))
    ["aes-128-gcm", "auto", "", "chacha20-poly1305", "chacha20-ietf-poly1305"] = true

/-- What the fields of a listed node have to be for a dial to succeed. -/
def Dialable : Prop :=
  if oneOf node.typeName ["vless"] then
    node.KnownFlow ∧ node.UsableId crates ∧
      if hasPublicKey node then node.RealityKeys crates ∧ node.RealityName crates
      else node.tls → node.TlsName crates
  else if oneOf node.typeName ["trojan"] then node.TlsName crates
  else if oneOf node.typeName ["ss"] then (node.tls → node.TlsName crates) ∧ node.UsablePlugin
  else if oneOf node.typeName ["vmess"] then
    (node.tls → node.TlsName crates) ∧ node.UsableId crates ∧ node.KnownVmessCipher
  else True

end ProxyNode

variable {crates : DialCrates} {draws : DialDraws} {node : ProxyNode}

/-! ## Layers -/

section

variable {Q : Unit → Prop}

theorem can_tlsWrap {sni : Str} {insecure : Bool} {alpn : List Str} :
    (tlsWrap crates sni insecure alpn).Can Q ↔ crates.serverName sni = true ∧ Q () := by
  rw [tlsWrap, can_bind, can_perform]
  split
  · next h => simp [h]
  · next h => simp [h]

theorem can_realityWrap {sni pbk : Str} {shortId : Option Str} {alpn : List Str} :
    (realityWrap crates draws sni pbk shortId alpn).Can Q ↔
      (∃ hello, realityHello crates draws sni pbk shortId alpn = .ok hello) ∧ Q () := by
  simp [realityWrap]

theorem can_applyTransport {kind : TransportKind} {path : Option Str} {hostHeader : Str} :
    (applyTransport kind path hostHeader).Can Q ↔ kind ≠ .unsupported ∧ Q () := by
  cases kind <;> simp [applyTransport]

end

/-! ## Requests -/

/-- The host can be written as the address of a request. -/
def Addressable (host : Str) : Prop :=
  ∃ addr, ProxyAddress.writeTypeAndAddress (String.ofList host) 0x01 0x03 0x04 = .ok addr

section

variable {host : Str} {port : UInt16}

/-- Whether it can does not depend on the codes of the types. -/
theorem writeTypeAndAddress_iff (ipv4 domain ipv6 : UInt8) :
    (∃ addr, ProxyAddress.writeTypeAndAddress (String.ofList host) ipv4 domain ipv6 = .ok addr) ↔
      Addressable host := by
  unfold Addressable ProxyAddress.writeTypeAndAddress
  cases parseIpAddr (String.ofList host) with
  | some ip => cases ip <;> exact iff_of_true ⟨_, rfl⟩ ⟨_, rfl⟩
  | none =>
      by_cases hlong : 255 < (utf8 (String.ofList host)).length
      · simp [hlong]
      · simp [hlong]

theorem addressable_of_length (hhost : (bytes host).length ≤ 255) : Addressable host := by
  have hutf8 : utf8 (String.ofList host) = bytes host := by rw [utf8, String.toList_ofList, bytes]
  unfold Addressable ProxyAddress.writeTypeAndAddress
  split
  · exact ⟨_, rfl⟩
  · exact ⟨_, rfl⟩
  · simp only [hutf8]
    rw [if_neg (Nat.not_lt.mpr hhost)]
    exact ⟨_, rfl⟩

/-- What needs the address of the host needs no more. -/
theorem except_bind_iff {ε α β : Type} {x : Except ε α} {f : α → β} :
    (∃ b, (x >>= fun a => .ok (f a)) = .ok b) ↔ ∃ a, x = .ok a := by
  cases x with
  | error e => exact iff_of_false (fun ⟨_, h⟩ => nomatch h) (fun ⟨_, h⟩ => nomatch h)
  | ok a => exact iff_of_true ⟨_, rfl⟩ ⟨a, rfl⟩

theorem writeSocksPortLast_iff : (∃ addr, ProxyAddress.writeSocksPortLast (String.ofList host) port
    (2 + ProxyAddress.maxLength) = .ok addr) ↔ Addressable host := by
  unfold Addressable
  rw [ProxyAddress.writeSocksPortLast]
  cases haddr : ProxyAddress.writeTypeAndAddress (String.ofList host) 0x01 0x03 0x04 with
  | error e => exact iff_of_false (fun ⟨_, h⟩ => nomatch h) (fun ⟨_, h⟩ => nomatch h)
  | ok addr =>
      have hroom := ProxyAddress.length_writeTypeAndAddress haddr
      exact iff_of_true ⟨_, if_neg (by omega)⟩ ⟨_, rfl⟩

theorem vlessRequest_iff {id : Str} {vision : Bool} :
    (∃ req, vlessRequest crates id host port vision = .ok req) ↔
      (Uuid.uuidWriteBe crates.primitives (String.ofList id)).isSome = true ∧ Addressable host := by
  rw [vlessRequest]
  cases Uuid.uuidWriteBe crates.primitives (String.ofList id) with
  | none => exact iff_of_false (fun ⟨_, h⟩ => nomatch h) (fun h => nomatch h.1)
  | some uuid =>
      rw [← writeTypeAndAddress_iff 0x01 0x02 0x03]
      exact except_bind_iff.trans (and_iff_right rfl).symm

theorem can_establishVless {o : VlessOptions} :
    (establishVless crates o host port).Can (fun _ => True) ↔
      (Uuid.uuidWriteBe crates.primitives (String.ofList o.id)).isSome = true ∧ Addressable host := by
  simp only [establishVless, can_bind, can_ofExcept, can_perform]
  rw [exists_and_right, vlessRequest_iff]
  refine and_iff_left_of_imp fun hid => ?_
  obtain ⟨uuid, huuid⟩ := Option.isSome_iff_exists.mp hid.1
  cases isVision o.flow with
  | true =>
      rw [huuid]
      exact can_perform.mpr trivial
  | false => exact can_pure.mpr trivial

theorem can_establishTrojan {o : TrojanOptions} :
    (establishTrojan crates o host port).Can (fun _ => True) ↔ Addressable host := by
  simp only [establishTrojan, can_bind, can_ofExcept, can_perform, and_true]
  exact except_bind_iff

end

/-! ## Shadowsocks -/

theorem ofList_eq {s : Str} {t : String} : String.ofList s = t ↔ s = t.toList := by
  constructor
  · rintro rfl
    exact String.toList_ofList.symm
  · rintro rfl
    exact String.ofList_toList

/-- The ciphers of the filter are those of the dial. -/
theorem parse_isSome {method : Str} :
    (Ss.SsCipher.parse (String.ofList method)).isSome = true ↔ ssSupportedCipher method = true := by
  have hlower : (trim (String.ofList method).toList).map toAsciiLowercase = toLower (trim method) := by
    rw [String.toList_ofList]
    rfl
  rw [ssSupportedCipher, oneOf_iff]
  simp only [Ss.SsCipher.parse, hlower, ofList_eq]
  generalize toLower (trim method) = name
  have hifs (a b c : Prop) [Decidable a] [Decidable b] [Decidable c] {x y z : Ss.SsCipher} :
      (if a then some x else if b then some y else if c then some z else none).isSome = true ↔
        a ∨ b ∨ c := by
    by_cases ha : a
    · simp [ha]
    · by_cases hb : b
      · simp [ha, hb]
      · by_cases hc : c <;> simp [ha, hb, hc]
  rw [hifs]
  simp only [List.mem_cons, List.not_mem_nil, or_false, exists_eq_or_imp, exists_eq_left, or_assoc]

theorem can_applyPlugin {plugin : Str} {o : SsOptions} {Q : Unit → Prop} :
    (applyPlugin plugin o).Can Q ↔ (oneOf (toLower (trim plugin)) ["", "none"] ∨
      oneOf (toLower (trim plugin)) ["obfs", "obfs-local", "simple-obfs"] ∧
        oneOf (obfsMode o.pluginOpts) ["http", "tls"]) ∧ Q () := by
  have hmode : oneOf (obfsMode o.pluginOpts) ["http", "tls"] ↔
      oneOf (obfsMode o.pluginOpts) ["http"] ∨ oneOf (obfsMode o.pluginOpts) ["tls"] :=
    oneOf_append (a := ["http"]) (b := ["tls"])
  simp only [applyPlugin, hmode]
  split
  · next h => simp [h]
  · next h =>
    split
    · next hobfs =>
      split
      · next hhttp => simp [h, hobfs, hhttp]
      · next hhttp =>
        split
        · next htls => simp [h, hobfs, htls]
        · next htls => simp [h, hobfs, hhttp, htls]
    · next hobfs => simp [h, hobfs]

theorem can_ssConnect {o : SsOptions} {host : Str} {port : UInt16}
    (hmethod : ssSupportedCipher o.method = true) :
    (ssConnect o host port).Can (fun _ => True) ↔ Addressable host := by
  obtain ⟨kind, hkind⟩ := Option.isSome_iff_exists.mp (parse_isSome.mpr hmethod)
  rw [ssConnect, hkind]
  simp only [can_bind, can_perform, can_ofExcept, and_true]
  exact writeSocksPortLast_iff

/-- The filter passes the ciphers of the dial, though it looks at them otherwise. -/
theorem supported_toSs (h : Listed node) (hty : oneOf node.typeName ["ss"]) (dialHost : Str) :
    ssSupportedCipher (toSs node dialHost).method = true := by
  have hcipher := h.cipher hty
  rw [ssSupportedCipher, trim_trim, ← ssSupportedCipher] at hcipher
  cases hc : node.cipher with
  | none => simpa [toSs, hc] using hcipher
  | some cipher =>
      rw [hc] at hcipher
      have hne : cipher.isEmpty = false := by
        rw [Bool.eq_false_iff]
        intro hempty
        rw [List.isEmpty_iff.mp hempty] at hcipher
        cases hcipher
      have hmethod : (toSs node dialHost).method = cipher := by
        simp [toSs, hc, Option.filter, hne]
      rw [hmethod]
      exact hcipher

theorem can_dialSs (h : Listed node) (hty : oneOf node.typeName ["ss"]) {dialHost host : Str}
    {port : UInt16} : (dialSs (toSs node dialHost) host port).Can (fun _ => True) ↔
      node.UsablePlugin ∧ Addressable host := by
  have hplugin : (toSs node dialHost).plugin = node.plugin := rfl
  have hconnect : (ssConnect (toSs node dialHost) host port).Can (fun _ => True) ↔
      Addressable host := can_ssConnect (supported_toSs h hty dialHost)
  rw [← hconnect, dialSs, can_bind, pluginLayer, hplugin, ProxyNode.UsablePlugin]
  cases node.plugin with
  | none => exact can_pure.trans (and_iff_right (.inl rfl)).symm
  | some plugin => exact can_applyPlugin

/-! ## VMess -/

theorem securityValue_bodySecurity (o : VmessOptions) :
    (∃ security, Vmess.securityValue (String.ofList o.bodySecurity) = .ok security) ↔
      oneOf (toLower (trim o.security))
        ["aes-128-gcm", "auto", "", "chacha20-poly1305", "chacha20-ietf-poly1305"] := by
  have happend : oneOf (toLower (trim o.security))
      ["aes-128-gcm", "auto", "", "chacha20-poly1305", "chacha20-ietf-poly1305"] ↔
      oneOf (toLower (trim o.security)) ["aes-128-gcm", "auto", ""] ∨
        oneOf (toLower (trim o.security)) ["chacha20-poly1305", "chacha20-ietf-poly1305"] :=
    oneOf_append (a := ["aes-128-gcm", "auto", ""])
  rw [happend]
  simp only [VmessOptions.bodySecurity]
  split
  · next h => exact iff_of_true ⟨_, rfl⟩ (.inl h)
  · next haes =>
    split
    · next h => exact iff_of_true ⟨_, rfl⟩ (.inr h)
    · next hchacha =>
      refine iff_of_false ?_ (not_or.mpr ⟨haes, hchacha⟩)
      rintro ⟨security, h⟩
      simp only [Vmess.securityValue, ofList_eq] at h
      split at h
      · next heq => exact haes (oneOf_iff.mpr ⟨_, List.mem_cons_self, heq⟩)
      · split at h
        · next heq => exact hchacha (oneOf_iff.mpr ⟨_, List.mem_cons_self, heq⟩)
        · cases h

theorem securityValue_iff {dialHost : Str} :
    (∃ security, Vmess.securityValue (String.ofList (toVmess node dialHost).bodySecurity) =
      .ok security) ↔ node.KnownVmessCipher := by
  rw [securityValue_bodySecurity, ProxyNode.KnownVmessCipher]
  cases hc : node.cipher with
  | none =>
      have hauto : (toVmess node dialHost).security = "auto".toList := by simp [toVmess, hc]
      rw [hauto]
      exact iff_of_true (by decide) (by decide)
  | some cipher =>
      cases hempty : cipher.isEmpty with
      | true =>
          have hauto : (toVmess node dialHost).security = "auto".toList := by
            simp [toVmess, hc, Option.filter, hempty]
          rw [hauto, List.isEmpty_iff.mp hempty]
          exact iff_of_true (by decide) (by decide)
      | false =>
          have hsecurity : (toVmess node dialHost).security = cipher := by
            simp [toVmess, hc, Option.filter, hempty]
          rw [hsecurity]
          rfl

theorem encodeRequest_iff {id host : Str} {port : UInt16} {security : UInt8}
    {sess : Vmess.ClientSession} :
    (∃ header, Vmess.encodeRequest crates.primitives (String.ofList id) (String.ofList host) port
      security sess draws.request = .ok header) ↔
      (Uuid.uuidWriteBe crates.primitives (String.ofList id)).isSome = true ∧ Addressable host := by
  unfold Addressable
  cases hid : Uuid.uuidWriteBe crates.primitives (String.ofList id) with
  | none =>
      refine iff_of_false ?_ (fun h => Bool.false_ne_true h.1)
      rintro ⟨header, h⟩
      rw [Vmess.encodeRequest, hid] at h
      cases h
  | some uuid =>
      rw [Option.isSome_some, and_iff_right rfl]
      cases haddr : ProxyAddress.writeTypeAndAddress (String.ofList host) 0x01 0x03 0x04 with
      | error e =>
          refine iff_of_false ?_ (by rintro ⟨_, ⟨⟩⟩)
          rintro ⟨header, h⟩
          simp only [Vmess.encodeRequest, Vmess.requestHeader, ProxyAddress.writeSocksPortFirst] at h
          rw [hid, haddr, if_neg (by decide)] at h
          cases h
      | ok addr =>
          have hheader := Vmess.requestHeader_ok port security sess draws.request haddr
          exact iff_of_true ⟨_, Vmess.encodeRequest_ok hid hheader⟩ ⟨_, rfl⟩

theorem can_dialVmess {dialHost host : Str} {port : UInt16} :
    (dialVmess crates draws (toVmess node dialHost) host port).Can (fun _ => True) ↔
      (node.UsableId crates ∧ node.KnownVmessCipher) ∧ Addressable host := by
  simp only [dialVmess, can_bind, can_ofExcept, can_perform, and_true]
  constructor
  · rintro ⟨security, hsecurity, hheader⟩
    obtain ⟨hid, haddr⟩ := encodeRequest_iff.mp hheader
    exact ⟨⟨hid, securityValue_iff.mp ⟨security, hsecurity⟩⟩, haddr⟩
  · rintro ⟨⟨hid, hcipher⟩, haddr⟩
    obtain ⟨security, hsecurity⟩ := securityValue_iff.mpr hcipher
    exact ⟨security, hsecurity, encodeRequest_iff.mpr ⟨hid, haddr⟩⟩

/-! ## SOCKS5 and HTTP -/

theorem can_reply : Socks.reply.Can fun _ => True := by
  rw [Socks.reply, can_bind, can_readExact]
  refine ⟨[5, 0, 0, 1], rfl, ?_⟩
  rw [if_neg (by decide)]
  simp only [Socks.boundLength, can_bind]
  exact can_pure.mpr (can_readExact.mpr ⟨List.replicate 6 0, rfl, can_pure.mpr trivial⟩)

/-- A proxy that asks for no password lets the dial through. -/
theorem can_dialSocks5 (o : SocksOptions) {host : Str} {port : UInt16} :
    (dialSocks5 o host port).Can (fun _ => True) ↔ Addressable host := by
  have hwrite : (∃ addr, ProxyAddress.writeSocksPortLast (String.ofList host) port
      (2 + ProxyAddress.maxLength) = .ok addr) ↔ Addressable host := writeSocksPortLast_iff
  rw [← hwrite]
  simp only [dialSocks5, can_bind, can_perform, can_readExact]
  constructor
  · rintro ⟨sel, -, h⟩
    split at h
    · exact (can_fail.mp h).elim
    · rw [can_bind] at h
      obtain ⟨addr, haddr, -⟩ := can_ofExcept.mp (can_bind.mp (of_can h))
      exact ⟨addr, haddr⟩
  · rintro ⟨addr, haddr⟩
    refine ⟨[5, 0], rfl, ?_⟩
    rw [if_neg (by decide)]
    simp only [Socks.authenticate, can_bind, can_ofExcept, can_perform, haddr]
    exact can_pure.mpr ⟨addr, rfl, can_reply⟩

/-- A response that ends where the empty line does is read to its end. -/
theorem can_readHead {Q : Bytes → Prop} : ∀ (resp : Bytes) {buf : Bytes} {left : Nat}, resp ≠ [] →
    resp.length ≤ left + 1 → (∀ n < resp.length, 0 < n →
      HttpConnect.headComplete (buf ++ resp.take n) = false) →
    HttpConnect.headComplete (buf ++ resp) = true → Q (buf ++ resp) →
      (HttpConnect.readHead left buf).Can Q
  | [], _, _, hne, _, _, _, _ => absurd rfl hne
  | [b], buf, left, _, _, _, hend, hQ => by
      rw [HttpConnect.readHead.eq_def, can_bind, can_readExact]
      refine ⟨[b], rfl, ?_⟩
      rw [if_pos hend]
      exact can_pure.mpr hQ
  | b :: c :: resp, buf, 0, _, hlen, _, _, _ => absurd hlen (by simp)
  | b :: c :: resp, buf, left + 1, _, hlen, hbefore, hend, hQ => by
      have happend (bs : Bytes) : buf ++ b :: bs = buf ++ [b] ++ bs := by simp
      have hfirst : HttpConnect.headComplete (buf ++ [b]) = false := hbefore 1 (by simp) (by simp)
      rw [happend] at hend hQ
      rw [HttpConnect.readHead.eq_def, can_bind, can_readExact]
      refine ⟨[b], rfl, ?_⟩
      simp only [hfirst, Bool.false_eq_true, if_false]
      refine can_readHead (c :: resp) (by simp) (by simpa using hlen) ?_ hend hQ
      intro n hlt _
      have hnext := hbefore (n + 1) (by simpa using hlt) (by omega)
      rwa [List.take_succ_cons, happend] at hnext

theorem can_dialHttpConnect (o : HttpProxyOptions) (host : Str) (port : UInt16) :
    (dialHttpConnect crates o host port).Can fun _ => True := by
  simp only [dialHttpConnect, can_bind, can_perform]
  refine can_readHead (ascii " 200\r\n\r\n") (by decide) (by decide) (by decide) (by decide) ?_
  rw [if_pos (by decide)]
  exact can_pure.mpr trivial

/-! ## Names and keys -/

theorem sniOrHost_eq {ip : Str} :
    sniOrHost node.serverName node.wsHost ip = node.given.getD ip := rfl

theorem tlsName_iff {ip : Str} (hip : crates.serverName ip = true) :
    crates.serverName (sniOrHost node.serverName node.wsHost ip) = true ↔ node.TlsName crates := by
  rw [sniOrHost_eq, ProxyNode.TlsName]
  cases node.given with
  | none => simp [hip]
  | some name => simp

theorem bytes_ascii : ∀ {s : Str}, (∀ c ∈ s, c.toNat < 128) →
    bytes s = s.map fun c => UInt8.ofNat c.toNat
  | [], _ => rfl
  | c :: cs, h => by
      obtain ⟨hc, hcs⟩ := List.forall_mem_cons.mp h
      rw [bytes_cons_ascii hc, bytes_ascii hcs, List.map_cons]

/-- An address is no name that has to be converted, and a short one. -/
theorem length_toAlabel_toText (p : TlsPrimitives) (ip : IpAddr) :
    (utf8 (Reality.toAlabel p (String.ofList ip.toText))).length ≤ 16189 := by
  have htext := ip.asciiText
  have hutf8 : utf8 (String.ofList ip.toText) = ip.toText.map fun c => UInt8.ofNat c.toNat := by
    rw [utf8, String.toList_ofList]
    exact bytes_ascii htext.ascii
  have hall : (utf8 (String.ofList ip.toText)).all (· < 128) = true := by
    rw [hutf8, List.all_map, List.all_eq_true]
    intro c hc
    have hlt := htext.ascii c hc
    simp only [Function.comp_apply, decide_eq_true_eq, UInt8.lt_iff_toNat_lt, UInt8.toNat_ofNat']
    show c.toNat % 256 < 128
    omega
  rw [Reality.toAlabel, if_pos hall, hutf8, List.length_map]
  exact htext.length.trans (by decide)

theorem realityName_iff {ip : IpAddr} :
    (utf8 (Reality.toAlabel crates.tls
      (String.ofList (sniOrHost node.serverName node.wsHost ip.toText)))).length ≤ 16189 ↔
      node.RealityName crates := by
  rw [sniOrHost_eq, ProxyNode.RealityName]
  cases node.given with
  | none => simpa using length_toAlabel_toText crates.tls ip
  | some name => simp

theorem realityHello_iff (hlaw : ∀ key, (crates.tls.aes256Gcm key).Lawful 16) {name pbk : Str}
    {shortId : Option Str} :
    (∃ hello, realityHello crates draws name pbk shortId ["h2".toList, "http/1.1".toList] =
      .ok hello) ↔
      (∃ key, Reality.decodePbk crates.tls (String.ofList pbk) = .ok key) ∧
      (∃ sid, Reality.parseShortId (shortId.map String.ofList) = .ok sid) ∧
      (utf8 (Reality.toAlabel crates.tls (String.ofList name))).length ≤ 16189 := by
  have hlength := Reality.length_build_http crates.tls (String.ofList name) draws.privateKey draws.random
  have hrandom := Reality.random_build crates.tls (String.ofList name) ["h2", "http/1.1"]
    draws.privateKey draws.random
  have halpn : ["h2".toList, "http/1.1".toList].map String.ofList = ["h2", "http/1.1"] := by simp
  have hprivate : (Reality.build crates.tls (String.ofList name) ["h2", "http/1.1"] draws.privateKey
    draws.random).privateKey = draws.privateKey := rfl
  simp only [realityHello, halpn, hrandom, hprivate]
  cases hkey : Reality.decodePbk crates.tls (String.ofList pbk) with
  | error e => exact iff_of_false (fun ⟨_, h⟩ => nomatch h) (fun ⟨⟨_, h⟩, _⟩ => nomatch h)
  | ok key =>
    obtain ⟨authKey, hauth⟩ : ∃ authKey, Reality.deriveAuthKey crates.tls draws.privateKey key
        draws.random.bytes = .ok authKey :=
      ⟨_, if_neg (not_not.mpr draws.random.size)⟩
    simp only [Bind.bind, Except.bind, hauth]
    cases hsid : Reality.parseShortId (shortId.map String.ofList) with
    | error e => exact iff_of_false (fun ⟨_, h⟩ => nomatch h) (fun ⟨_, ⟨_, h⟩, _⟩ => nomatch h)
    | ok sid =>
      obtain ⟨hello, hseal, hsize⟩ := Reality.sealSessionId_build crates.tls hlaw (String.ofList name)
        ["h2", "http/1.1"] draws.privateKey draws.random authKey sid draws.now clientVersion
      have hmax : Reality.maxPlaintext = 16384 := rfl
      simp only [hseal, hsize, hlength, hmax]
      split
      · next hlong => exact iff_of_false (fun ⟨_, h⟩ => nomatch h) (fun h => by omega)
      · next hshort => exact iff_of_true ⟨hello, rfl⟩ ⟨⟨key, rfl⟩, ⟨sid, rfl⟩, by omega⟩

/-! ## Security layers -/

theorem Config.Listed.toLower_typeName (h : Listed node) : toLower node.typeName = node.typeName := by
  obtain ⟨t, ht, heq⟩ := oneOf_iff.mp h.type
  rw [heq]
  simp only [knownTypes, List.mem_cons, List.not_mem_nil, or_false] at ht
  rcases ht with rfl | rfl | rfl | rfl | rfl | rfl <;> decide

theorem Config.Listed.supported (h : Listed node) : resolveTransport (net node) ≠ .unsupported := by
  obtain ⟨t, ht, heq⟩ := oneOf_iff.mp h.network
  rw [net, heq]
  simp only [List.mem_cons, List.not_mem_nil, or_false] at ht
  rcases ht with rfl | rfl | rfl <;> decide

theorem knownFlow_iff : node.KnownFlow ↔ ¬ node.UnknownFlow := by
  simp only [ProxyNode.KnownFlow, ProxyNode.UnknownFlow, not_exists, not_and, ne_eq,
    Bool.not_eq_false, or_iff_not_imp_left]

section

variable {ip : IpAddr} {Q : Unit → Prop} (hip : crates.serverName ip.toText = true)

include hip

theorem can_tlsWrap_node {insecure : Bool} {alpn : List Str} :
    (tlsWrap crates (sniOrHost node.serverName node.wsHost ip.toText) insecure alpn).Can Q ↔
      node.TlsName crates ∧ Q () := by
  rw [can_tlsWrap, tlsName_iff hip]

theorem can_layerTransport {insecure : Bool} {alpn : List Str} {path hostHeader sniOpt : Option Str}
    {host : Str} (h : Listed node) :
    (layerTransport crates node.tls (sniOrHost node.serverName node.wsHost ip.toText) insecure alpn
      (net node) path hostHeader host sniOpt).Can Q ↔ (node.tls → node.TlsName crates) ∧ Q () := by
  rw [layerTransport, if_neg h.supported, can_bind]
  cases node.tls with
  | true =>
      rw [if_pos rfl, can_tlsWrap_node hip, can_applyTransport, and_iff_right h.supported,
        imp_iff_right rfl]
  | false =>
      rw [if_neg (by decide), can_pure, can_applyTransport, and_iff_right h.supported]
      simp

theorem can_vlessSecure (hlaw : ∀ key, (crates.tls.aes256Gcm key).Lawful 16) :
    (vlessSecure crates draws (toVless node ip.toText)).Can Q ↔
      (if hasPublicKey node then node.RealityKeys crates ∧ node.RealityName crates
      else node.tls → node.TlsName crates) ∧ Q () := by
  cases hkey : hasPublicKey node with
  | true =>
      have hsecurity : (toVless node ip.toText).security = .reality := if_pos hkey
      rw [vlessSecure, hsecurity]
      refine can_realityWrap.trans (and_congr_left' ?_)
      refine (realityHello_iff hlaw).trans ?_
      rw [if_pos rfl]
      constructor
      · rintro ⟨hpbk, hsid, hname⟩
        exact ⟨⟨hpbk, hsid⟩, realityName_iff.mp hname⟩
      · rintro ⟨⟨hpbk, hsid⟩, hname⟩
        exact ⟨hpbk, hsid, realityName_iff.mpr hname⟩
  | false =>
      cases htls : node.tls with
      | true =>
          have hsecurity : (toVless node ip.toText).security = .tls := by simp [toVless, hkey, htls]
          rw [vlessSecure, hsecurity]
          exact (can_tlsWrap_node hip).trans (by simp)
      | false =>
          have hsecurity : (toVless node ip.toText).security = .none := by simp [toVless, hkey, htls]
          rw [vlessSecure, hsecurity]
          exact can_pure.trans (by simp)

end

/-! ## Which listed nodes can be dialed -/

theorem can_dialVless {ip : IpAddr} {host : Str} {port : UInt16}
    (hip : crates.serverName ip.toText = true) (hlaw : ∀ key, (crates.tls.aes256Gcm key).Lawful 16)
    (h : Listed node) :
    (dialVless crates draws (toVless node ip.toText) host port).Can (fun _ => True) ↔
      (node.KnownFlow ∧ node.UsableId crates ∧
        if hasPublicKey node then node.RealityKeys crates ∧ node.RealityName crates
        else node.tls → node.TlsName crates) ∧ Addressable host := by
  have htransport : resolveTransport (toVless node ip.toText).transport ≠ .unsupported := h.supported
  have hchecks : vlessChecks (toVless node ip.toText) = .ok () ↔ node.KnownFlow :=
    vlessChecks_toVless.trans ((and_iff_right h.supported).trans knownFlow_iff.symm)
  have hestablish : (establishVless crates (toVless node ip.toText) host port).Can (fun _ => True) ↔
      node.UsableId crates ∧ Addressable host := can_establishVless
  simp only [dialVless, can_bind, can_ofExcept, can_applyTransport, and_iff_right htransport]
  rw [Unique.exists_iff, can_vlessSecure hip hlaw, hestablish, and_assoc, and_assoc]
  exact and_congr hchecks and_left_comm

theorem can_dialTrojan {ip : IpAddr} {host : Str} {port : UInt16}
    (hip : crates.serverName ip.toText = true) (h : Listed node) :
    (dialTrojan crates (toTrojan node ip.toText) host port).Can (fun _ => True) ↔
      node.TlsName crates ∧ Addressable host := by
  have htransport : (toTrojan node ip.toText).transport = net node := rfl
  simp only [dialTrojan, htransport]
  rw [if_neg h.supported, can_bind]
  refine (can_tlsWrap_node hip).trans (and_congr_right' ?_)
  rw [can_bind, can_applyTransport, and_iff_right h.supported]
  exact can_establishTrojan

/-- A listed node can be dialed through an address, if and only if its fields allow it and the
request has room for the host; HTTP has room for any. -/
theorem can_dial {ip : IpAddr} {host : Str} {port : UInt16}
    (hip : crates.serverName ip.toText = true) (hlaw : ∀ key, (crates.tls.aes256Gcm key).Lawful 16)
    (h : Listed node) :
    (∃ kind, toKind node ip.toText (toLower node.typeName) = .ok kind ∧
      (dial crates draws kind host port).Can fun _ => True) ↔
      node.Dialable crates ∧ (Addressable host ∨ oneOf node.typeName ["http"]) := by
  have hhttp {types : List String} (hty : oneOf node.typeName types)
      (hdisjoint : types.Disjoint ["http"]) :
      (Addressable host ∨ oneOf node.typeName ["http"]) ↔ Addressable host := by
    rw [not_oneOf hty hdisjoint]
    simp
  have htype := h.type
  rw [h.toLower_typeName]
  simp only [ProxyNode.Dialable]
  split
  · next hty =>
      rw [toKind_vless hty, hhttp hty (by simp)]
      simp only [Except.ok.injEq, exists_eq_left', dial]
      exact can_dialVless hip hlaw h
  · next hvless =>
    split
    · next hty =>
        rw [toKind_trojan hty, hhttp hty (by simp)]
        simp only [Except.ok.injEq, exists_eq_left', dial]
        exact can_dialTrojan hip h
    · next htrojan =>
      split
      · next hty =>
          rw [toKind_ss (oneOf_mono hty (by simp)), hhttp hty (by simp), and_assoc]
          simp only [Except.ok.injEq, exists_eq_left', dial, can_bind]
          exact (can_layerTransport hip h).trans (and_congr_right' (can_dialSs h hty))
      · next hss =>
        split
        · next hty =>
            rw [toKind_vmess hty, hhttp hty (by simp), and_assoc]
            simp only [Except.ok.injEq, exists_eq_left', dial, can_bind]
            exact (can_layerTransport hip h).trans (and_congr_right' can_dialVmess)
        · next hvmess =>
            rw [true_and]
            have hproxy : oneOf node.typeName ["socks5"] ∨ oneOf node.typeName ["http"] := by
              have hsplit : oneOf node.typeName (["vless"] ++ (["trojan"] ++ (["ss"] ++ (["vmess"] ++
                (["socks5"] ++ ["http"]))))) := htype
              simpa only [oneOf_append, hvless, htrojan, hss, hvmess, Bool.false_eq_true, false_or]
                using hsplit
            rcases hproxy with hty | hty
            · rw [toKind_socks (oneOf_mono hty (by simp)), hhttp hty (by simp)]
              simp only [Except.ok.injEq, exists_eq_left', dial]
              exact can_dialSocks5 _
            · exact iff_of_true ⟨_, toKind_http (oneOf_mono hty (by simp)),
                can_dialHttpConnect _ host port⟩ (.inr hty)

theorem can_dialViaIps {ips : List IpAddr} {ip : IpAddr} {host : Str} {port : UInt16}
    (hip : crates.serverName ip.toText = true) (hlaw : ∀ key, (crates.tls.aes256Gcm key).Lawful 16)
    (h : Listed node) (hips : dialIp ips = some ip) :
    (dialViaIps crates draws node ips host port).Can (fun _ => True) ↔
      node.Dialable crates ∧ (Addressable host ∨ oneOf node.typeName ["http"]) := by
  rw [dialViaIps, hips]
  simp only [can_bind, can_perform, can_ofExcept, can_mapError]
  exact can_dial hip hlaw h

/-- Every dial of a listed node can succeed, if and only if its fields allow it. -/
theorem ProxyNode.serves_iff (crates : Crates) (dialCrates : DialCrates) (draws : DialDraws)
    {raw : Bytes} {nodes : List ProxyNode} {node : ProxyNode}
    (hip : ∀ ip : IpAddr, dialCrates.serverName ip.toText = true)
    (hlaw : ∀ key, (dialCrates.tls.aes256Gcm key).Lawful 16)
    (hparse : NodeCatalog.parse crates raw = .ok nodes) (hnode : node ∈ nodes) :
    (∀ ips ip, dialIp ips = some ip → ∀ host port, (bytes host).length ≤ 255 →
      ∃ p, ((dialViaIps dialCrates draws node ips host port).run p).1 = .ok ()) ↔
      node.Dialable dialCrates := by
  have h : Listed node := listed_of_lists (NodeCatalog.lists_parse hparse) node hnode
  have hruns (ips : List IpAddr) (host : Str) (port : UInt16) :
      (∃ p, ((dialViaIps dialCrates draws node ips host port).run p).1 = .ok ()) ↔
        (dialViaIps dialCrates draws node ips host port).Can fun _ => True := by
    rw [can_iff]
    simp [Unique.exists_iff]
  have hempty : (bytes []).length ≤ 255 := by decide
  have hsingle := dialIp_singleton (.v4 ⟨0, 0, 0, 0⟩)
  constructor
  · intro hserves
    exact ((can_dialViaIps (hip _) hlaw h hsingle).mp
      ((hruns _ [] 0).mp (hserves _ _ hsingle [] 0 hempty))).1
  · intro hdialable ips ip hips host port hhost
    exact (hruns ips host port).mpr ((can_dialViaIps (hip ip) hlaw h hips).mpr
      ⟨hdialable, .inl (addressable_of_length hhost)⟩)

/-- A subscription of one VMess node. -/
def vmessYaml (cipher : String) : Bytes :=
  bytes ("proxies:\n- \x7bname: a, type: vmess, server: h, port: 1, uuid: u, cipher: " ++ cipher ++
    "\x7d").toList

def vmessNode (cipher : String) : ProxyNode where
  name := "a".toList
  typeName := "vmess".toList
  server := "h".toList
  port := 1
  uuid := some "u".toList
  cipher := some cipher.toList
  security := some "none".toList

theorem serverName_sums (ip : IpAddr) : DialCrates.sums.serverName ip.toText = true := by
  have hne := ip.toText_ne_nil
  show (!ip.toText.isEmpty) = true
  simpa using hne

theorem ProxyNode.serves_iff_auto : ∃ p, ((dialViaIps .sums .zeros (vmessNode "auto")
    [.v4 ⟨1, 2, 3, 4⟩] "a.example".toList 80).run p).1 = .ok () := by
  have hparse : NodeCatalog.parse noCrates (vmessYaml "auto") = .ok [vmessNode "auto"] := by
    decide +kernel
  have hdialable : (vmessNode "auto").Dialable .sums := ⟨nofun, rfl, rfl⟩
  exact (ProxyNode.serves_iff noCrates .sums .zeros serverName_sums keyTagged_lawful hparse
    List.mem_cons_self).mpr hdialable _ _ (dialIp_singleton _) _ _ (by decide)

/-- The catalog lists a VMess node whose cipher is none, which no dial has. -/
theorem ProxyNode.not_serves : ¬ ∀ (crates : Crates) (dialCrates : DialCrates) (draws : DialDraws)
    (raw : Bytes) (nodes : List ProxyNode) (node : ProxyNode),
    (∀ ip : IpAddr, dialCrates.serverName ip.toText = true) →
      (∀ key, (dialCrates.tls.aes256Gcm key).Lawful 16) →
      NodeCatalog.parse crates raw = .ok nodes → node ∈ nodes → ∀ ips ip, dialIp ips = some ip →
        ∀ host port, (bytes host).length ≤ 255 →
          ∃ p, ((dialViaIps dialCrates draws node ips host port).run p).1 = .ok () := by
  intro h
  have hparse : NodeCatalog.parse noCrates (vmessYaml "none") = .ok [vmessNode "none"] := by
    decide +kernel
  have hlisted := listed_of_lists (NodeCatalog.lists_parse hparse) _ List.mem_cons_self
  have hsingle := dialIp_singleton (.v4 ⟨1, 2, 3, 4⟩)
  have hempty : (bytes []).length ≤ 255 := by decide
  obtain ⟨p, hp⟩ := h noCrates .sums .zeros _ _ _ serverName_sums keyTagged_lawful hparse
    List.mem_cons_self _ _ hsingle [] 0 hempty
  have hdialable : (vmessNode "none").Dialable .sums :=
    ((can_dialViaIps (serverName_sums _) keyTagged_lawful hlisted hsingle).mp
      (can_iff.mpr ⟨p, (), hp, trivial⟩)).1
  exact Bool.false_ne_true hdialable.2.2

end RustClash
