import RustClash.Net.AddrChars
import RustClash.Proxynet.DialActs
import RustClash.Proxynet.RequestBuffers
import RustClash.Proxynet.Vmess.Request

/-!
# The formats of requests

What the other side takes for a request of Shadowsocks, SOCKS5, Trojan and VLESS, as a
relation between bytes and values.  No bytes stand for two values, and the bytes that the
client builds stand for the target it was given.  A dial sends these bytes and nothing else
behind the openings of its protocol; for a host of more than 255 bytes it only opens.
-/

namespace RustClash

namespace Request

open Checked Str Config Script
open Vmess (Address)

/-! ## Formats -/

/-- The codes of the three kinds of address. -/
structure AddressTypes where
  ipv4 : UInt8
  domain : UInt8
  ipv6 : UInt8
deriving DecidableEq

def AddressTypes.socks : AddressTypes := ⟨0x01, 0x03, 0x04⟩
def AddressTypes.vless : AddressTypes := ⟨0x01, 0x02, 0x03⟩

/-- The bytes of an address. -/
inductive AddressForm (t : AddressTypes) : Bytes → Address → Prop
  | ipv4 (ip : Ipv4Addr) : AddressForm t (t.ipv4 :: ip.octets) (.ipv4 ip)
  | domain (name : Bytes) : name.length ≤ 255 →
      AddressForm t (t.domain :: UInt8.ofNat name.length :: name) (.domain name)
  | ipv6 (ip : Ipv6Addr) : AddressForm t (t.ipv6 :: ip.octets) (.ipv6 ip)

/-- The target of a request. -/
structure Target where
  address : Address
  port : UInt16
deriving DecidableEq

def Target.of (host : Str) (port : UInt16) : Target := ⟨.ofHost (String.ofList host), port⟩

/-- Address and port, and nothing behind them. -/
def SocksForm (bs : Bytes) (r : Target) : Prop :=
  ∃ addr, AddressForm .socks addr r.address ∧ bs = addr ++ toBe16 r.port.toNat

structure Trojan where
  hash : Bytes
  target : Target
deriving DecidableEq

def isHexDigit (b : UInt8) : Bool := (48 ≤ b && b ≤ 57) || (97 ≤ b && b ≤ 102)

def TrojanForm (bs : Bytes) (r : Trojan) : Prop :=
  r.hash.length = 56 ∧ (∀ b ∈ r.hash, isHexDigit b) ∧
    ∃ addr, AddressForm .socks addr r.target.address ∧
      bs = r.hash ++ [13, 10] ++ 0x01 :: addr ++ toBe16 r.target.port.toNat ++ [13, 10]

structure Vless where
  uuid : Octets 16
  addons : Bytes
  target : Target
deriving DecidableEq

def VlessForm (bs : Bytes) (r : Vless) : Prop :=
  r.addons.length ≤ 255 ∧ ∃ addr, AddressForm .vless addr r.target.address ∧
    bs = 0x00 :: r.uuid.bytes ++ UInt8.ofNat r.addons.length :: r.addons ++
      0x01 :: toBe16 r.target.port.toNat ++ addr

/-! ## One value for the bytes -/

theorem ofNat_length_inj {as bs : Bytes} (ha : as.length ≤ 255) (hb : bs.length ≤ 255)
    (h : UInt8.ofNat as.length = UInt8.ofNat bs.length) : as.length = bs.length := by
  have h := congrArg UInt8.toNat h
  rw [UInt8.toNat_ofNat', UInt8.toNat_ofNat'] at h
  omega

theorem octets_inj {ip ip' : Ipv4Addr} (h : ip.octets = ip'.octets) : ip = ip' := by
  cases ip
  cases ip'
  simpa [Ipv4Addr.octets] using h

/-- The end of an address is known from the address. -/
theorem AddressForm.unique {t : AddressTypes} (hd : t.ipv4 ≠ t.domain ∧ t.ipv4 ≠ t.ipv6 ∧
    t.domain ≠ t.ipv6) {x y rest rest' : Bytes} {a b : Address} (hx : AddressForm t x a)
    (hy : AddressForm t y b) (h : x ++ rest = y ++ rest') : a = b ∧ rest = rest' := by
  obtain ⟨h46, h4, h6⟩ := hd
  cases hx with
  | ipv4 ip =>
      cases hy with
      | ipv4 ip' =>
          obtain ⟨ho, hrest⟩ := List.append_inj (List.cons.inj h).2 rfl
          exact ⟨congrArg _ (octets_inj ho), hrest⟩
      | domain name hname => exact absurd (List.cons.inj h).1 h46
      | ipv6 ip' => exact absurd (List.cons.inj h).1 h4
  | domain name hname =>
      cases hy with
      | ipv4 ip => exact absurd (List.cons.inj h).1.symm h46
      | domain name' hname' =>
          obtain ⟨hlen, h⟩ := List.cons.inj (List.cons.inj h).2
          obtain ⟨hn, hrest⟩ := List.append_inj h (ofNat_length_inj hname hname' hlen)
          exact ⟨congrArg _ hn, hrest⟩
      | ipv6 ip => exact absurd (List.cons.inj h).1 h6
  | ipv6 ip =>
      cases hy with
      | ipv4 ip' => exact absurd (List.cons.inj h).1.symm h4
      | domain name hname => exact absurd (List.cons.inj h).1.symm h6
      | ipv6 ip' =>
          obtain ⟨ho, hrest⟩ := List.append_inj (List.cons.inj h).2 (by rw [ip.size, ip'.size])
          cases ip
          cases ip'
          cases ho
          exact ⟨rfl, hrest⟩

theorem toBe16_inj {p q : UInt16} (h : toBe16 p.toNat = toBe16 q.toNat) : p = q := by
  have hp := ofBe16_getD_toBe16 p.toNat_lt
  rw [h, ofBe16_getD_toBe16 q.toNat_lt] at hp
  exact UInt16.toNat_inj.mp hp.symm

theorem SocksForm.unique {bs : Bytes} {r s : Target} (hr : SocksForm bs r) (hs : SocksForm bs s) :
    s = r := by
  obtain ⟨x, hx, rfl⟩ := hr
  obtain ⟨y, hy, h⟩ := hs
  obtain ⟨ha, hp⟩ := hx.unique (by decide) hy h
  cases r
  cases s
  cases ha
  cases toBe16_inj hp
  rfl

theorem TrojanForm.unique {bs : Bytes} {r s : Trojan} (hr : TrojanForm bs r)
    (hs : TrojanForm bs s) : s = r := by
  obtain ⟨hlen, -, x, hx, rfl⟩ := hr
  obtain ⟨hlen', -, y, hy, h⟩ := hs
  simp only [List.append_assoc, List.cons_append] at h
  obtain ⟨hhash, h⟩ := List.append_inj h (hlen.trans hlen'.symm)
  simp only [List.cons.injEq, List.nil_append, true_and] at h
  obtain ⟨ha, h⟩ := hx.unique (by decide) hy h
  obtain ⟨hp, -⟩ := List.append_inj h rfl
  obtain ⟨hash, address, port⟩ := r
  obtain ⟨hash', address', port'⟩ := s
  cases hhash
  cases ha
  cases toBe16_inj hp
  rfl

theorem VlessForm.unique {bs : Bytes} {r s : Vless} (hr : VlessForm bs r)
    (hs : VlessForm bs s) : s = r := by
  obtain ⟨hlen, x, hx, rfl⟩ := hr
  obtain ⟨hlen', y, hy, h⟩ := hs
  simp only [List.append_assoc, List.cons_append] at h
  obtain ⟨huuid, h⟩ := List.append_inj (List.cons.inj h).2 (by rw [r.uuid.size, s.uuid.size])
  obtain ⟨hn, h⟩ := List.cons.inj h
  obtain ⟨hadd, h⟩ := List.append_inj h (ofNat_length_inj hlen hlen' hn)
  obtain ⟨hp, h⟩ := List.append_inj (List.cons.inj h).2 rfl
  rw [← List.append_nil x, ← List.append_nil y] at h
  obtain ⟨ha, -⟩ := hx.unique (by decide) hy h
  obtain ⟨⟨uuid, _⟩, addons, address, port⟩ := r
  obtain ⟨⟨uuid', _⟩, addons', address', port'⟩ := s
  cases huuid
  cases hadd
  cases ha
  cases toBe16_inj hp
  rfl

/-! ## The client's requests -/

theorem utf8_ofList (host : Str) : utf8 (String.ofList host) = bytes host := by
  rw [utf8, String.toList_ofList, bytes]

theorem length_bytes_ascii : ∀ {s : Str}, (∀ c ∈ s, c.toNat < 128) → (bytes s).length = s.length
  | [], _ => rfl
  | c :: s, h => by
      obtain ⟨hc, hs⟩ := List.forall_mem_cons.mp h
      rw [bytes_cons_ascii hc, List.length_cons, length_bytes_ascii hs, List.length_cons]

/-- An address is refused for the length of its host, and no literal is that long. -/
theorem writeTypeAndAddress_cases (t : AddressTypes) (host : Str) :
    ((bytes host).length ≤ 255 ∧ ∃ addr, AddressForm t addr (.ofHost (String.ofList host)) ∧
      ProxyAddress.writeTypeAndAddress (String.ofList host) t.ipv4 t.domain t.ipv6 = .ok addr) ∨
    (255 < (bytes host).length ∧
      ProxyAddress.writeTypeAndAddress (String.ofList host) t.ipv4 t.domain t.ipv6 =
        .error ProxyAddress.hostTooLong) := by
  rw [ProxyAddress.writeTypeAndAddress, Address.ofHost]
  cases hip : parseIpAddr (String.ofList host) with
  | none =>
      simp only [utf8_ofList]
      by_cases hlong : 255 < (bytes host).length
      · exact .inr ⟨hlong, if_pos hlong⟩
      · rw [if_neg hlong]
        have hshort := Nat.le_of_not_lt hlong
        exact .inl ⟨hshort, _, .domain _ hshort, rfl⟩
  | some ip =>
      obtain ⟨hchars, hlen, -⟩ := took_of_parseIpAddr hip
      have hbytes := length_bytes_ascii fun c hc => isV6Char_ascii (hchars c hc)
      refine .inl ⟨by omega, ?_⟩
      cases ip with
      | v4 ip => exact ⟨_, .ipv4 ip, rfl⟩
      | v6 ip => exact ⟨_, .ipv6 ip, rfl⟩

/-- A dial sends the request `lead ++ bs` for its target, which it builds in a buffer of
`size` bytes, and before it at most the `openings` of its protocol. -/
structure Agrees {ρ : Type} (Form : Bytes → ρ → Prop) (value : ρ) (host : Str) (size : Nat)
    (build : Bytes → Checked (Except ProxyError Nat × Bytes)) (openings : List Bytes)
    (lead : Bytes) (s : Dial Unit) : Prop where
  fits : (bytes host).length ≤ 255 → ∃ bs, filled size 0 build = .ok (.ok bs) ∧
    (∀ r, Form bs r ↔ r = value) ∧
    ∀ p, (∀ a ∈ (s.run p).2, a.sends → ∃ m, a = .write m ∧ (m ∈ openings ∨ m = lead ++ bs)) ∧
      ((s.run p).1 = .ok () → DialAct.write (lead ++ bs) ∈ (s.run p).2)
  long : 255 < (bytes host).length → (∃ e, filled size 0 build = .ok (.error e)) ∧
    ∀ p, (∃ e, (s.run p).1 = .error e) ∧
      ∀ a ∈ (s.run p).2, a.sends → ∃ m ∈ openings, a = .write m

/-- The act writes `m`. -/
def writes (m : Bytes) : DialAct → Bool
  | .write m' => m' == m
  | _ => false

theorem eq_of_writes {m : Bytes} {a : DialAct} (h : writes m a = true) : a = .write m := by
  cases a with
  | write m' => exact congrArg _ (eq_of_beq h)
  | _ => cases h

/-- The acts of a dial, by what it can send and what it cannot end without. -/
theorem agrees_of {ρ : Type} {Form : Bytes → ρ → Prop} {value : ρ} {host : Str} {size : Nat}
    {build : Bytes → Checked (Except ProxyError Nat × Bytes)} {openings : List Bytes}
    {lead : Bytes} {s : Dial Unit} {message : Except ProxyError Bytes}
    (hbuild : filled size 0 build = .ok message)
    (hmessage : ((bytes host).length ≤ 255 ∧ ∃ bs, Form bs value ∧ message = .ok bs) ∨
      (255 < (bytes host).length ∧ ∃ e, message = .error e))
    (hunique : ∀ {bs r r'}, Form bs r → Form bs r' → r' = r)
    (honly : s.Emits (fun a => a.sends → ∃ m, a = .write m ∧
      (m ∈ openings ∨ ∃ bs, message = .ok bs ∧ m = lead ++ bs)) (fun _ => ∃ bs, message = .ok bs))
    (hsent : ∀ bs, message = .ok bs →
      s.Opens (writes (lead ++ bs)) (fun _ => True) (fun _ => False)) :
    Agrees Form value host size build openings lead s := by
  have : Inhabited ProxyError := ⟨ProxyAddress.hostTooLong⟩
  have honly := emits_iff.mp honly
  constructor
  · intro hshort
    obtain ⟨-, bs, hform, rfl⟩ | ⟨hlong, -⟩ := hmessage
    · refine ⟨bs, hbuild, fun r => ⟨hunique hform, fun h => h ▸ hform⟩, fun p => ⟨?_, ?_⟩⟩
      · intro a ha hsends
        obtain ⟨m, rfl, hm | ⟨bs', hbs, rfl⟩⟩ := (honly p).1 a ha hsends
        · exact ⟨m, rfl, .inl hm⟩
        · exact ⟨_, rfl, .inr (Except.ok.inj hbs ▸ rfl)⟩
      · intro hok
        have hopens := (opens_iff.mp (hsent bs rfl) p).2 ()
        cases hfind : (s.run p).2.find? (writes (lead ++ bs)) with
        | none => exact (hopens hfind hok).elim
        | some a =>
            rw [← eq_of_writes (List.find?_some hfind)]
            exact List.mem_of_find?_eq_some hfind
    · omega
  · intro hlong
    obtain ⟨hshort, -⟩ | ⟨-, e, rfl⟩ := hmessage
    · omega
    · refine ⟨⟨e, hbuild⟩, fun p => ⟨?_, ?_⟩⟩
      · cases hr : (s.run p).1 with
        | error e' => exact ⟨e', rfl⟩
        | ok u =>
            obtain ⟨bs, hbs⟩ := (honly p).2 u hr
            cases hbs
      · intro a ha hsends
        obtain ⟨m, rfl, hm | ⟨bs, hbs, -⟩⟩ := (honly p).1 a ha hsends
        · exact ⟨m, hm, rfl⟩
        · cases hbs

/-! ## The dials -/

section

variable {P : DialAct → Prop} {Q : Unit → Prop} {v : DialAct → Bool}

/-- The layers of a plugin send nothing. -/
theorem emits_pluginLayer {o : SsOptions} (hP : ∀ a : DialAct, a.sends = false → P a) (hQ : Q ()) :
    (Dial.pluginLayer o).Emits P Q := by
  unfold Dial.pluginLayer
  split
  · simp only [Dial.applyPlugin]
    split
    · exact emits_pure.mpr hQ
    · split
      · split
        · exact emits_perform.mpr ⟨hP _ rfl, hQ⟩
        · split
          · exact emits_perform.mpr ⟨hP _ rfl, hQ⟩
          · exact emits_fail.mpr trivial
      · exact emits_fail.mpr trivial
  · exact emits_pure.mpr hQ

theorem opens_pluginLayer {o : SsOptions} (hv : ∀ a : DialAct, a.sends = false → v a = false)
    (hQ : Q ()) : (Dial.pluginLayer o).Opens v P Q := by
  unfold Dial.pluginLayer
  split
  · simp only [Dial.applyPlugin]
    split
    · exact opens_pure.mpr hQ
    · split
      · split
        · rw [opens_perform, hv _ rfl, if_neg Bool.false_ne_true]
          exact hQ
        · split
          · rw [opens_perform, hv _ rfl, if_neg Bool.false_ne_true]
            exact hQ
          · exact opens_fail.mpr trivial
      · exact opens_fail.mpr trivial
  · exact opens_pure.mpr hQ

end

theorem writes_quiet {m : Bytes} (a : DialAct) (h : a.sends = false) : writes m a = false := by
  cases a with
  | write m' => cases h
  | _ => rfl

/-- Address and port, as the Shadowsocks and the SOCKS5 client build them. -/
def socksBuffer : Nat := 2 + ProxyAddress.maxLength

theorem filled_socks (host : Str) (port : UInt16) :
    filled socksBuffer 0 (ProxyAddress.writeSocksPortLastInto (String.ofList host) port) =
      .ok (ProxyAddress.writeSocksPortLast (String.ofList host) port socksBuffer) :=
  filled_eq (ProxyAddress.fills_socksPortLast List.length_replicate (by decide))

theorem socks_cases (host : Str) (port : UInt16) :
    ((bytes host).length ≤ 255 ∧ ∃ bs, SocksForm bs (.of host port) ∧
      ProxyAddress.writeSocksPortLast (String.ofList host) port socksBuffer = .ok bs) ∨
    (255 < (bytes host).length ∧
      ∃ e, ProxyAddress.writeSocksPortLast (String.ofList host) port socksBuffer = .error e) := by
  rcases writeTypeAndAddress_cases .socks host with ⟨hshort, addr, hform, haddr⟩ | ⟨hlong, herror⟩
  · have hle := ProxyAddress.length_writeTypeAndAddress haddr
    have hfits : ¬ socksBuffer < addr.length + 2 := by
      show ¬ 2 + ProxyAddress.maxLength < _
      omega
    refine .inl ⟨hshort, addr ++ toBe16 port.toNat, ⟨addr, hform, rfl⟩, ?_⟩
    rw [ProxyAddress.writeSocksPortLast]
    show (ProxyAddress.writeTypeAndAddress _ 0x01 0x03 0x04 >>= _) = _
    rw [show ProxyAddress.writeTypeAndAddress (String.ofList host) 0x01 0x03 0x04 = .ok addr from haddr]
    show (if socksBuffer < addr.length + 2 then _ else _) = _
    rw [if_neg hfits]
    rfl
  · refine .inr ⟨hlong, ProxyAddress.hostTooLong, ?_⟩
    rw [ProxyAddress.writeSocksPortLast]
    show (ProxyAddress.writeTypeAndAddress _ 0x01 0x03 0x04 >>= _) = _
    rw [show ProxyAddress.writeTypeAndAddress (String.ofList host) 0x01 0x03 0x04 = .error _ from herror]
    rfl

variable {crates : DialCrates}

theorem agrees_ss (o : SsOptions) (host : Str) (port : UInt16) :
    Agrees SocksForm (.of host port) host socksBuffer
      (ProxyAddress.writeSocksPortLastInto (String.ofList host) port) [] []
      (Dial.dialSs o host port) := by
  refine agrees_of (filled_socks host port) (socks_cases host port) SocksForm.unique ?_ ?_
  · rw [Dial.dialSs, emits_bind]
    refine emits_pluginLayer (fun a h => by rw [h]; exact fun h => (by cases h)) ?_
    unfold Dial.ssConnect
    split
    · exact emits_fail.mpr trivial
    · simp only [emits_bind, emits_ofExcept, emits_perform]
      exact ⟨fun h => (by cases h), fun bs hbs => ⟨fun _ => ⟨bs, rfl, .inr ⟨bs, hbs, rfl⟩⟩, bs, hbs⟩⟩
  · intro bs hbs
    rw [Dial.dialSs, opens_bind]
    refine opens_pluginLayer writes_quiet ?_
    unfold Dial.ssConnect
    split
    · exact opens_fail.mpr trivial
    · simp only [opens_bind, opens_ofExcept, opens_perform]
      rw [if_neg (by simp [writes])]
      intro bs' hbs'
      have heq : bs' = bs := Except.ok.inj (hbs'.symm.trans hbs)
      rw [if_pos (by simp [writes, heq])]
      trivial

theorem isHexDigit_lowerDigit {n : UInt8} (h : n.toNat < 16) : isHexDigit (Dial.lowerDigit n) := by
  have hall : ∀ k : Fin 16, isHexDigit (Dial.lowerDigit (UInt8.ofNat k.val)) := by decide
  have hn := hall ⟨n.toNat, h⟩
  rwa [UInt8.ofNat_toNat] at hn

theorem isHexDigit_sha224 (data : Bytes) : ∀ b ∈ Dial.sha224HexLower crates data, isHexDigit b := by
  intro b hb
  obtain ⟨d, -, hd⟩ := List.mem_flatMap.mp hb
  rcases List.mem_cons.mp hd with rfl | hd
  · exact isHexDigit_lowerDigit (Dial.shiftRight_four_lt d)
  · rw [List.mem_singleton.mp hd]
    exact isHexDigit_lowerDigit (Dial.and_fifteen_lt d)

/-- What the request of Trojan says. -/
def Trojan.of (crates : DialCrates) (password host : Str) (port : UInt16) : Trojan :=
  ⟨Dial.sha224HexLower crates (bytes password), .of host port⟩

theorem trojan_cases (password host : Str) (port : UInt16) :
    ((bytes host).length ≤ 255 ∧ ∃ bs, TrojanForm bs (.of crates password host port) ∧
      Dial.trojanRequest crates password host port = .ok bs) ∨
    (255 < (bytes host).length ∧ ∃ e, Dial.trojanRequest crates password host port = .error e) := by
  rw [Dial.trojanRequest]
  rcases writeTypeAndAddress_cases .socks host with ⟨hshort, addr, hform, haddr⟩ | ⟨hlong, herror⟩
  · rw [show ProxyAddress.writeTypeAndAddress (String.ofList host) 0x01 0x03 0x04 = .ok addr from haddr]
    exact .inl ⟨hshort, _, ⟨Dial.length_sha224HexLower crates _, isHexDigit_sha224 _, addr, hform, rfl⟩,
      rfl⟩
  · rw [show ProxyAddress.writeTypeAndAddress (String.ofList host) 0x01 0x03 0x04 = .error _ from herror]
    exact .inr ⟨hlong, _, rfl⟩

theorem agrees_trojan (o : TrojanOptions) (host : Str) (port : UInt16) :
    Agrees TrojanForm (.of crates o.password host port) host Dial.trojanBuffer
      (fun buffer => Dial.trojanBuildRequest crates buffer o.password host port) [] []
      (Dial.establishTrojan crates o host port) := by
  refine agrees_of (filled_eq (Dial.fills_trojan List.length_replicate (Nat.le_refl _)))
    (trojan_cases o.password host port) TrojanForm.unique ?_ ?_
  · simp only [Dial.establishTrojan, emits_bind, emits_ofExcept, emits_perform]
    exact fun bs hbs => ⟨fun _ => ⟨bs, rfl, .inr ⟨bs, hbs, rfl⟩⟩, bs, hbs⟩
  · intro bs hbs
    simp only [Dial.establishTrojan, opens_bind, opens_ofExcept, opens_perform]
    intro bs' hbs'
    have heq : bs' = bs := Except.ok.inj (hbs'.symm.trans hbs)
    rw [if_pos (by simp [writes, heq])]
    trivial

/-- The addons of a request, without their length. -/
def flowAddons (vision : Bool) : Bytes :=
  if vision then 0x0A :: UInt8.ofNat (bytes Dial.visionFlow).length :: bytes Dial.visionFlow else []

theorem vlessAddons_eq (vision : Bool) : Dial.vlessAddons vision =
    UInt8.ofNat (flowAddons vision).length :: flowAddons vision := by
  cases vision <;> decide

theorem vless_cases {id : Str} {uuid : Octets 16}
    (hid : Uuid.uuidWriteBe crates.primitives (String.ofList id) = some uuid) (host : Str)
    (port : UInt16) (vision : Bool) :
    ((bytes host).length ≤ 255 ∧
      ∃ bs, VlessForm bs ⟨uuid, flowAddons vision, .of host port⟩ ∧
        Dial.vlessRequest crates id host port vision = .ok bs) ∨
    (255 < (bytes host).length ∧
      ∃ e, Dial.vlessRequest crates id host port vision = .error e) := by
  rw [Dial.vlessRequest, hid]
  rcases writeTypeAndAddress_cases .vless host with ⟨hshort, addr, hform, haddr⟩ | ⟨hlong, herror⟩
  · rw [show ProxyAddress.writeTypeAndAddress (String.ofList host) 0x01 0x02 0x03 = .ok addr from haddr]
    have hadd : (flowAddons vision).length ≤ 255 := by cases vision <;> decide
    refine .inl ⟨hshort, _, ⟨hadd, addr, hform, rfl⟩, ?_⟩
    rw [← vlessAddons_eq]
    rfl
  · rw [show ProxyAddress.writeTypeAndAddress (String.ofList host) 0x01 0x02 0x03 = .error _ from herror]
    exact .inr ⟨hlong, _, rfl⟩

theorem agrees_vless {o : VlessOptions} {uuid : Octets 16}
    (hid : Uuid.uuidWriteBe crates.primitives (String.ofList o.id) = some uuid) (host : Str)
    (port : UInt16) :
    Agrees VlessForm ⟨uuid, flowAddons (Dial.isVision o.flow), .of host port⟩ host Dial.vlessBuffer
      (fun buffer => Dial.vlessBuildRequest crates buffer o.id host port (Dial.isVision o.flow)) [] []
      (Dial.establishVless crates o host port) := by
  refine agrees_of (filled_eq (Dial.fills_vless List.length_replicate (Nat.le_refl _)))
    (vless_cases hid host port _) VlessForm.unique ?_ ?_
  · simp only [Dial.establishVless, emits_bind, emits_ofExcept, emits_perform]
    refine fun bs hbs => ⟨fun _ => ⟨bs, rfl, .inr ⟨bs, hbs, rfl⟩⟩, fun h => (by cases h), ?_⟩
    split
    · rw [hid]
      exact emits_perform.mpr ⟨fun h => (by cases h), bs, hbs⟩
    · exact emits_pure.mpr ⟨bs, hbs⟩
  · intro bs hbs
    simp only [Dial.establishVless, opens_bind, opens_ofExcept, opens_perform]
    intro bs' hbs'
    have heq : bs' = bs := Except.ok.inj (hbs'.symm.trans hbs)
    rw [if_pos (by simp [writes, heq])]
    trivial

/-- What a SOCKS5 client sends before its request: the methods, and the credentials. -/
def socksOpenings (o : SocksOptions) : List Bytes :=
  [[0x05, 0x01, 0x00], [0x05, 0x02, 0x00, 0x02],
    Dial.Socks.credentials (bytes (o.username.getD [])) (bytes (o.password.getD []))]

theorem emits_socksAuthenticate {P : DialAct → Prop} {Q : Unit → Prop} {user pass : Bytes}
    {method : UInt8} (hP : P (.write (Dial.Socks.credentials user pass))) (hQ : Q ()) :
    (Dial.Socks.authenticate user pass method).Emits P Q := by
  unfold Dial.Socks.authenticate
  split
  · exact emits_pure.mpr hQ
  · split
    · split
      · exact emits_fail.mpr trivial
      · simp only [emits_bind, emits_perform, emits_readExact]
        refine ⟨hP, fun resp _ => ?_⟩
        split
        · exact emits_pure.mpr hQ
        · exact emits_fail.mpr trivial
    · split
      · exact emits_fail.mpr trivial
      · exact emits_fail.mpr trivial

theorem opens_socksAuthenticate {v : DialAct → Bool} {Q : Unit → Prop} {user pass : Bytes}
    {method : UInt8} (hQ : Q ()) :
    (Dial.Socks.authenticate user pass method).Opens v (fun _ => True) Q := by
  unfold Dial.Socks.authenticate
  split
  · exact opens_pure.mpr hQ
  · split
    · split
      · exact opens_fail.mpr trivial
      · simp only [opens_bind, opens_perform, opens_readExact]
        split
        · trivial
        · intro resp _
          split
          · exact opens_pure.mpr hQ
          · exact opens_fail.mpr trivial
    · split
      · exact opens_fail.mpr trivial
      · exact opens_fail.mpr trivial

theorem agrees_socks5 (o : SocksOptions) (host : Str) (port : UInt16) :
    Agrees SocksForm (.of host port) host socksBuffer
      (ProxyAddress.writeSocksPortLastInto (String.ofList host) port) (socksOpenings o)
      [0x05, 0x01, 0x00] (Dial.dialSocks5 o host port) := by
  refine agrees_of (filled_socks host port) (socks_cases host port) SocksForm.unique ?_ ?_
  · simp only [Dial.dialSocks5, emits_bind, emits_perform, emits_readExact]
    refine ⟨fun _ => ⟨_, rfl, .inl ?_⟩, fun sel _ => ?_⟩
    · split <;> simp [socksOpenings]
    · split
      · exact emits_fail.mpr trivial
      · rw [emits_bind]
        refine emits_socksAuthenticate (fun _ => ⟨_, rfl, .inl (by simp [socksOpenings])⟩) ?_
        simp only [emits_bind, emits_ofExcept, emits_perform]
        refine fun bs hbs => ⟨fun _ => ⟨_, rfl, .inr ⟨bs, hbs, rfl⟩⟩, ?_⟩
        exact Dial.emits_reply ⟨bs, hbs⟩
  · intro bs hbs
    simp only [Dial.dialSocks5, opens_bind, opens_perform, opens_readExact]
    generalize (if (bytes (o.username.getD [])).isEmpty then [0x05, 0x01, 0x00]
      else [0x05, 0x02, 0x00, 0x02] : Bytes) = greeting
    split
    · trivial
    · intro sel _
      split
      · exact opens_fail.mpr trivial
      · rw [opens_bind]
        refine opens_socksAuthenticate ?_
        simp only [opens_bind, opens_ofExcept, opens_perform]
        intro bs' hbs'
        have heq : bs' = bs := Except.ok.inj (hbs'.symm.trans hbs)
        rw [if_pos (by simp [writes, heq])]
        trivial

/-- The requests agree with their protocols: a dial for a host of at most 255 bytes sends bytes
that stand for its target and for no other, and they fit the buffer they are built in; a dial
for a longer host fails and sends at most its openings. -/
theorem requests_agree (crates : DialCrates) (host : Str) (port : UInt16) :
    (∀ o : SsOptions, Agrees SocksForm (.of host port) host socksBuffer
      (ProxyAddress.writeSocksPortLastInto (String.ofList host) port) [] []
      (Dial.dialSs o host port)) ∧
    (∀ o : SocksOptions, Agrees SocksForm (.of host port) host socksBuffer
      (ProxyAddress.writeSocksPortLastInto (String.ofList host) port) (socksOpenings o)
      [0x05, 0x01, 0x00] (Dial.dialSocks5 o host port)) ∧
    (∀ o : TrojanOptions, Agrees TrojanForm (.of crates o.password host port) host
      Dial.trojanBuffer (fun buffer => Dial.trojanBuildRequest crates buffer o.password host port)
      [] [] (Dial.establishTrojan crates o host port)) ∧
    (∀ o : VlessOptions,
      match Uuid.uuidWriteBe crates.primitives (String.ofList o.id) with
      | some uuid =>
          Agrees VlessForm ⟨uuid, flowAddons (Dial.isVision o.flow), .of host port⟩ host
            Dial.vlessBuffer
            (fun buffer => Dial.vlessBuildRequest crates buffer o.id host port (Dial.isVision o.flow))
            [] [] (Dial.establishVless crates o host port)
      | none => ∀ p, (Dial.establishVless crates o host port).run p =
          (.error (Dial.vlessUnusable o.id), [])) := by
  refine ⟨fun o => agrees_ss o host port, fun o => agrees_socks5 o host port,
    fun o => agrees_trojan o host port, fun o => ?_⟩
  cases hid : Uuid.uuidWriteBe crates.primitives (String.ofList o.id) with
  | none =>
      intro p
      rw [Dial.establishVless, Dial.vlessRequest, hid]
      rfl
  | some uuid => exact agrees_vless hid host port

end Request

end RustClash
