import RustClash.Config.CatalogSlices

/-!
# Ports

An entry of a subscription writes its port as a number or as a text of digits.  The
readers of links and of YAML refuse what is no port; those of JSON keep the low bits of
the number.  `Kept` is what a reader owes to the port that was written.
-/

namespace RustClash

namespace Config

open Str Checked

/-! ## Numbers in a text -/

def digitsValue (s : Str) : Nat := s.foldl (fun n c => n * 10 + (c.toNat - '0'.toNat)) 0

/-- The text is decimal digits with the value `p`. -/
structure Spells (s : Str) (p : Nat) : Prop where
  nonempty : s ≠ []
  digits : ∀ c ∈ s, '0' ≤ c ∧ c ≤ '9'
  value : digitsValue s = p

instance (s : Str) (p : Nat) : Decidable (Spells s p) :=
  let _ : Decidable (∀ c ∈ s, '0' ≤ c ∧ c ≤ '9') := List.decidableBAll _ s
  decidable_of_iff (s ≠ [] ∧ (∀ c ∈ s, '0' ≤ c ∧ c ≤ '9') ∧ digitsValue s = p)
    ⟨fun ⟨h1, h2, h3⟩ => ⟨h1, h2, h3⟩, fun ⟨h1, h2, h3⟩ => ⟨h1, h2, h3⟩⟩

theorem Spells.parseNat {s : Str} {p : Nat} (h : Spells s p) (bound : Nat) :
    Str.parseNat bound s = if p < bound then some p else none := by
  have hall : (s.all fun c => '0' ≤ c && c ≤ '9') = true := List.all_eq_true.mpr fun c hc => by
    rw [decide_eq_true (h.digits c hc).1, decide_eq_true (h.digits c hc).2]
    rfl
  have hempty : s.isEmpty = false := by
    rw [Bool.eq_false_iff]
    exact fun he => h.nonempty (List.isEmpty_iff.mp he)
  have hplus : s.head? ≠ some '+' := fun hc =>
    absurd (h.digits '+' (List.mem_of_mem_head? hc)) (by decide)
  have hvalue : s.foldl (fun n c => n * 10 + (c.toNat - '0'.toNat)) 0 = p := h.value
  unfold Str.parseNat
  split
  · exact absurd rfl hplus
  · simp only [hempty, hall, hvalue]
    rfl

theorem Spells.parseU16 {s : Str} {p : Nat} (h : Spells s p) :
    Str.parseU16 s = if p < 65536 then some (UInt16.ofNat p) else none := by
  rw [Str.parseU16, h.parseNat]
  split <;> rfl

/-! ## Entries -/

inductive LinkKind where
  | vless
  | trojan
  | ss
  | vmess
  | socks
  | http
deriving DecidableEq

def LinkKind.schemes : LinkKind → List String
  | .vless => ["vless"]
  | .trojan => ["trojan"]
  | .ss => ["ss"]
  | .vmess => ["vmess"]
  | .socks => ["socks5", "socks"]
  | .http => ["http", "https"]

inductive Entry where
  | yaml (p : YamlMap)
  | link (kind : LinkKind) (line : Str)
  | xray (ob : Json)
  | singbox (ob : Json)
  | sip008 (s : Json)

/-- What the reader of its format makes of an entry. -/
def Entry.read (crates : Crates) : Entry → Checked (Option ProxyNode)
  | .yaml p => .ok (yamlToNode p)
  | .link _ line => parseShareLink crates line
  | .xray ob => .ok (mapXray ob)
  | .singbox ob => .ok (mapSingbox ob)
  | .sip008 s => .ok (sip008Server s)

/-! ## What an entry writes -/

/-- The text is there and not blank. -/
def Given (s : Option Str) : Prop := ∃ t, s = some t ∧ (trim t).isEmpty = false

/-- The type of node is known. -/
def Known (ty : Str) : Prop := oneOf (normalizeType ty) knownTypes = true

structure YamlPort (m : YamlMap) (p : Nat) : Prop where
  type : Known ((get m "type").getD [])
  name : Given (get m "name")
  server : Given (get m "server")
  port : ∃ s, get m "port" = some s ∧ Spells s p

/-- The port that a URL with the scheme has if it names none. -/
def defaultPort (scheme : Str) : Option UInt16 :=
  if oneOf scheme ["http"] then some 80 else if oneOf scheme ["https"] then some 443 else none

/-- How `url::Url::parse` reads a link that names the port `p`: a port above the range is refused,
and the default one of the scheme is left out. -/
structure UrlPort (crates : Crates) (kind : LinkKind) (line : Str) (p : Nat) : Prop where
  refused : 65535 < p → crates.parseUrl line = none
  read : p ≤ 65535 → ∃ u, crates.parseUrl line = some u ∧ u.hostStr.isSome ∧
    oneOf u.scheme kind.schemes ∧ (kind = .http → oneOf u.path ["/", ""]) ∧
    u.port = if defaultPort u.scheme = some (.ofNat p) then none else some (.ofNat p)

/-- The address of a Shadowsocks link names the port. -/
def HostPort (hostport : Str) (p : Nat) : Prop :=
  ∃ s, Spells s p ∧
    ((∃ host, trim hostport = host ++ ':' :: s ∧ host.head? ≠ some '[') ∨
      ∃ host, ']' ∉ host ∧ trim hostport = '[' :: (host ++ ']' :: ':' :: s))

structure SsPort (crates : Crates) (line : Str) (p : Nat) : Prop where
  parts : ∃ userinfo hostport q, ssParts crates (ssBody line) = .ok (some (userinfo, hostport, q)) ∧
    ':' ∈ userinfo ∧ HostPort hostport p

/-- How `serde_json` reads a number; one that is no `u64` becomes a float. -/
def Json.ofNat (p : Nat) : Json := if p < 2 ^ 64 then .int p else .float

/-- The value of the key is the number, or a text that spells it out. -/
def NumberOrText (v : Json) (key : String) (p : Nat) : Prop :=
  v.get key = some (.ofNat p) ∨ ∃ s, v.get key = some (.string s) ∧ Spells s p

def vmessBody (url : Str) : Str :=
  trimStartMatches "VMESS://".toList url.length (trimStartMatches "vmess://".toList url.length url)

structure VmessPort (crates : Crates) (line : Str) (p : Nat) : Prop where
  json : ∃ text v, decodeB64Url crates (vmessBody line) = some text ∧
    crates.parseJson text = some v ∧ (∃ server, jstr v "add" = some server ∧ server ≠ []) ∧
    NumberOrText v "port" p

/-- The link is of the kind, and its address names the port. -/
structure LinkPort (crates : Crates) (kind : LinkKind) (line : Str) (p : Nat) : Prop where
  scheme : ∃ scheme ∈ kind.schemes, (scheme.toList ++ "://".toList) <+: toLower line
  address : match kind with
    | .ss => SsPort crates line p
    | .vmess => VmessPort crates line p
    | _ => UrlPort crates kind line p

/-- Where the settings of an Xray outbound have the address. -/
def XrayPlace (protocol : Str) (settings v : Json) : Prop :=
  if oneOf protocol ["vless", "vmess"] then
    (∃ vs, jarray settings "vnext" = some (v :: vs)) ∧ ∃ u us, jarray v "users" = some (u :: us)
  else if oneOf protocol ["ss"] ∨ oneOf protocol ["socks5", "http"] then
    v = ((jarray settings "servers").bind List.head?).getD settings
  else ∃ vs, jarray settings "servers" = some (v :: vs)

structure XrayPort (ob : Json) (p : Nat) : Prop where
  address : ∃ ty settings v, jstr ob "protocol" = some ty ∧ Known ty ∧
    ob.get "settings" = some settings ∧ XrayPlace (normalizeType ty) settings v ∧
    Given (jstr v "address") ∧ v.get "port" = some (.ofNat p)

structure SingboxPort (ob : Json) (p : Nat) : Prop where
  type : ∃ ty, jstr ob "type" = some ty ∧ Known ty
  server : Given (jstr ob "server")
  port : ob.get "server_port" = some (.ofNat p)

structure Sip008Port (s : Json) (p : Nat) : Prop where
  server : ∃ server, jstr s "server" = some server ∧ server ≠ []
  password : (jstr s "password").isSome
  port : s.get "server_port" = some (.ofNat p)

namespace Entry

/-- The entry has what its format asks for, and its port is written as `p`. -/
def Writes (crates : Crates) : Entry → Nat → Prop
  | .yaml m, p => YamlPort m p
  | .link kind line, p => LinkPort crates kind (trim line) p
  | .xray ob, p => XrayPort ob p
  | .singbox ob, p => SingboxPort ob p
  | .sip008 s, p => Sip008Port s p

/-- A port in range is the port of the node; with any other there is none. -/
def Kept (crates : Crates) (e : Entry) (p : Nat) : Prop :=
  if 1 ≤ p ∧ p ≤ 65535 then
    ∃ node, e.read crates = .ok (some node) ∧ node.port.toNat = p
  else e.read crates = .ok none

/-- The numbers that the reader of a format does not take for another port. -/
def Keeps : Entry → Nat → Prop
  | .yaml _, _ => True
  | .link .vmess _, p => p ≤ 65535 ∨ p % 65536 = 0 ∨ 2 ^ 64 ≤ p
  | .link _ _, p => p ≠ 0
  | .xray _, p | .singbox _, p | .sip008 _, p => p ≤ 65535 ∨ p % 65536 = 0 ∨ 2 ^ 63 ≤ p

end Entry

variable {crates : Crates} {e : Entry} {p : Nat}

/-! ## Readers that refuse the port zero -/

namespace Entry

/-- The port that is looked at is the one the node gets. -/
theorem kept_iff_guarded {port : UInt16} (hzero : port = 0 → e.read crates = .ok none)
    (hnode : port ≠ 0 → ∃ node, e.read crates = .ok (some node) ∧ node.port = port) :
    e.Kept crates p ↔ if 1 ≤ p ∧ p ≤ 65535 then port.toNat = p else port = 0 := by
  rw [Kept]
  by_cases hport : port = 0
  · rw [hzero hport, hport]
    split
    · next hrange =>
        constructor
        · rintro ⟨node, hread, _⟩
          cases hread
        · intro h
          rw [← h] at hrange
          exact absurd hrange.1 (by decide)
    · exact iff_of_true rfl rfl
  · obtain ⟨node, hread, rfl⟩ := hnode hport
    rw [hread]
    split
    · constructor
      · rintro ⟨node', hread', h⟩
        cases hread'
        exact h
      · exact fun h => ⟨node, rfl, h⟩
    · exact iff_of_false (fun h => by cases h) hport

/-- The low bits of a number below `bound`, and zero for any other. -/
theorem wrapped_iff {bound : Nat} (hbound : 65536 ≤ bound) :
    (if 1 ≤ p ∧ p ≤ 65535 then (UInt16.ofNat (if p < bound then p else 0)).toNat = p
      else UInt16.ofNat (if p < bound then p else 0) = 0) ↔
      p ≤ 65535 ∨ p % 65536 = 0 ∨ bound ≤ p := by
  rw [← UInt16.toNat_inj]
  simp only [UInt16.toNat_ofNat', UInt16.toNat_zero]
  split <;> split <;> omega

end Entry

/-! ### Numbers in JSON -/

theorem ofInt_natCast (n : Nat) : UInt16.ofInt n = UInt16.ofNat n := by
  rw [← UInt16.toNat_inj]
  simp only [UInt16.ofInt, UInt16.toNat_ofNat']
  omega

theorem asI64_ofNat (p : Nat) :
    (Json.ofNat p).asI64 = if p < 2 ^ 63 then some (p : Int) else none := by
  have hcast : (p : Int) < 2 ^ 63 ↔ p < 2 ^ 63 := by omega
  unfold Json.ofNat
  by_cases h : p < 2 ^ 64
  · rw [if_pos h]
    simp only [Json.asI64, hcast]
  · rw [if_neg h, if_neg (by omega)]
    simp only [Json.asI64]

theorem ofInt_jint {v : Json} {key : String} (h : v.get key = some (.ofNat p)) :
    UInt16.ofInt (jint v key) = .ofNat (if p < 2 ^ 63 then p else 0) := by
  rw [jint, h, Option.bind_some, asI64_ofNat, ← ofInt_natCast]
  split
  · simp only [Option.getD_some]
  · simp only [Option.getD_none, Int.cast_ofNat_Int]

theorem juint_of_numberOrText {v : Json} {key : String} (h : NumberOrText v key p) :
    juint v key = if p < 2 ^ 64 then p else 0 := by
  rcases h with h | ⟨s, h, hs⟩
  · rw [juint, h, Json.ofNat]
    split
    · simp only [Option.bind_some, Json.asU64]
      rw [if_pos (Int.natCast_nonneg p)]
      rfl
    · rfl
  · rw [juint, h]
    simp only [Option.bind_some, Json.asU64, Json.asStr, hs.parseNat]
    split <;> rfl

/-! ### JSON and YAML -/

/-- The two ways in which a reader that refuses the port zero ends. -/
theorem Entry.kept_iff_of_read {port : UInt16} {node : ProxyNode}
    (h : e.read crates = .ok (if port = 0 then none else some node)) (hnode : node.port = port) :
    e.Kept crates p ↔ if 1 ≤ p ∧ p ≤ 65535 then port.toNat = p else port = 0 :=
  kept_iff_guarded (fun hzero => by rw [h, if_pos hzero])
    fun hne => ⟨node, by rw [h, if_neg hne], hnode⟩

/-- A check that comes down to the port. -/
theorem guard_eq {P : Prop} [Decidable P] {port : UInt16} {f : PUnit → Option ProxyNode}
    {node : ProxyNode} (h : P ↔ port = 0) :
    (if P then Option.bind none f else some node) = if port = 0 then none else some node := by
  by_cases hp : port = 0
  · rw [if_pos hp, if_pos (h.mpr hp)]
    rfl
  · rw [if_neg hp, if_neg fun hP => hp (h.mp hP)]

theorem YamlPort.kept {m : YamlMap} (h : YamlPort m p) : (Entry.yaml m).Kept crates p := by
  obtain ⟨s, hs, hspells⟩ := h.port
  obtain ⟨name, hname, hblank⟩ := h.name
  obtain ⟨server, hserver, hblank'⟩ := h.server
  have htype : oneOf (normalizeType ((get m "type").getD [])) knownTypes = true := h.type
  have hport : ((get m "port").bind parseU16).getD 0 = .ofNat (if p < 65536 then p else 0) := by
    rw [hs, Option.bind_some, hspells.parseU16]
    split <;> rfl
  have hread : ∃ node : ProxyNode, node.port = .ofNat (if p < 65536 then p else 0) ∧
      (Entry.yaml m).read crates =
        .ok (if UInt16.ofNat (if p < 65536 then p else 0) = 0 then none else some node) := by
    rw [Entry.read, yamlToNode]
    simp only [hname, hserver, hport, htype]
    simp only [Bool.not_true, Bool.false_eq_true, if_false, Option.bind_eq_bind, Option.bind_some,
      Option.pure_def]
    refine ⟨_, ?_, congrArg Except.ok (guard_eq ?_)⟩
    · rfl
    · rw [hblank, hblank']
      simp only [Bool.false_eq_true, false_or]
  obtain ⟨node, hnode, hread⟩ := hread
  rw [Entry.kept_iff_of_read hread hnode, Entry.wrapped_iff (Nat.le_refl _)]
  omega

theorem SingboxPort.kept_iff_keeps {ob : Json} (h : SingboxPort ob p) :
    (Entry.singbox ob).Kept crates p ↔ p ≤ 65535 ∨ p % 65536 = 0 ∨ 2 ^ 63 ≤ p := by
  obtain ⟨ty, hty, hknown⟩ := h.type
  obtain ⟨server, hserver, hblank⟩ := h.server
  have hport := ofInt_jint h.port
  have htype : oneOf (normalizeType ty) knownTypes = true := hknown
  have hread : ∃ node : ProxyNode, node.port = .ofNat (if p < 2 ^ 63 then p else 0) ∧
      (Entry.singbox ob).read crates =
        .ok (if UInt16.ofNat (if p < 2 ^ 63 then p else 0) = 0 then none else some node) := by
    rw [Entry.read, mapSingbox]
    simp only [hty, hserver, hport, Option.bind_eq_bind, Option.bind_some]
    simp only [htype, Bool.not_true, Bool.false_eq_true, if_false, Option.pure_def]
    refine ⟨_, ?_, congrArg Except.ok (guard_eq ?_)⟩
    · rfl
    · rw [hblank]
      simp only [Bool.false_eq_true, false_or]
  obtain ⟨node, hnode, hread⟩ := hread
  rw [Entry.kept_iff_of_read hread hnode, Entry.wrapped_iff (by decide)]

theorem Sip008Port.kept_iff_keeps {v : Json} (h : Sip008Port v p) :
    (Entry.sip008 v).Kept crates p ↔ p ≤ 65535 ∨ p % 65536 = 0 ∨ 2 ^ 63 ≤ p := by
  obtain ⟨server, hserver, hne⟩ := h.server
  obtain ⟨password, hpassword⟩ := Option.isSome_iff_exists.mp h.password
  have hport := ofInt_jint h.port
  have hempty : server.isEmpty = false := by
    rw [Bool.eq_false_iff]
    exact fun he => hne (List.isEmpty_iff.mp he)
  have hread : ∃ node : ProxyNode, node.port = .ofNat (if p < 2 ^ 63 then p else 0) ∧
      (Entry.sip008 v).read crates =
        .ok (if UInt16.ofNat (if p < 2 ^ 63 then p else 0) = 0 then none else some node) := by
    rw [Entry.read, sip008Server]
    simp only [hserver, hpassword, hport, Option.bind_eq_bind, Option.bind_some, Option.pure_def]
    refine ⟨_, ?_, congrArg Except.ok (guard_eq ?_)⟩
    · rfl
    · rw [hempty]
      simp only [Bool.false_eq_true, false_or]
  obtain ⟨node, hnode, hread⟩ := hread
  rw [Entry.kept_iff_of_read hread hnode, Entry.wrapped_iff (by decide)]

/-- The address and the port are read where the settings have them. -/
theorem XrayPlace.server {protocol : Str} {settings v : Json} (h : XrayPlace protocol settings v)
    {server : Str} (hserver : jstr v "address" = some server) :
    ∃ s, xrayServer protocol settings = some s ∧ s.server = server ∧
      s.port = .ofInt (jint v "port") := by
  rw [XrayPlace] at h
  rw [xrayServer]
  split at h
  · next hv =>
      obtain ⟨⟨vs, hvs⟩, u, us, hus⟩ := h
      rw [if_pos hv]
      simp only [hvs, hus, hserver, List.head?_cons, Option.bind_eq_bind, Option.bind_some]
      exact ⟨_, rfl, rfl, rfl⟩
  · next hv =>
      rw [if_neg hv]
      split at h
      · next hs =>
          subst h
          split
          · simp only [hserver, Option.bind_eq_bind, Option.bind_some]
            exact ⟨_, rfl, rfl, rfl⟩
          · next hss =>
              rw [if_pos (hs.resolve_left hss)]
              simp only [hserver, Option.bind_eq_bind, Option.bind_some]
              exact ⟨_, rfl, rfl, rfl⟩
      · next hs =>
          obtain ⟨vs, hvs⟩ := h
          rw [if_neg fun hss => hs (.inl hss), if_neg fun hss => hs (.inr hss)]
          simp only [hvs, hserver, List.head?_cons, Option.bind_eq_bind, Option.bind_some]
          exact ⟨_, rfl, rfl, rfl⟩

theorem XrayPort.kept_iff_keeps {ob : Json} (h : XrayPort ob p) :
    (Entry.xray ob).Kept crates p ↔ p ≤ 65535 ∨ p % 65536 = 0 ∨ 2 ^ 63 ≤ p := by
  obtain ⟨ty, settings, v, hty, hknown, hsettings, hplace, ⟨server, hserver, hblank⟩, hjson⟩ := h.address
  obtain ⟨s, hs, rfl, hport⟩ := hplace.server hserver
  rw [ofInt_jint hjson] at hport
  have htype : oneOf (normalizeType ty) knownTypes = true := hknown
  have hread : ∃ node : ProxyNode, node.port = .ofNat (if p < 2 ^ 63 then p else 0) ∧
      (Entry.xray ob).read crates =
        .ok (if UInt16.ofNat (if p < 2 ^ 63 then p else 0) = 0 then none else some node) := by
    rw [Entry.read, mapXray]
    simp only [hty, hsettings, hs, hport, htype, Option.bind_eq_bind, Option.bind_some]
    simp only [Bool.not_true, Bool.false_eq_true, if_false, Option.pure_def]
    refine ⟨_, ?_, congrArg Except.ok (guard_eq ?_)⟩
    · rfl
    · rw [hblank]
      simp only [Bool.false_eq_true, false_or]
  obtain ⟨node, hnode, hread⟩ := hread
  rw [Entry.kept_iff_of_read hread hnode, Entry.wrapped_iff (by decide)]

/-! ## Links -/

/-- The parser of a kind of link. -/
def LinkKind.parse (crates : Crates) : LinkKind → Str → Checked (Option ProxyNode)
  | .vless, line => .ok (parseVless crates line)
  | .trojan, line => .ok (parseTrojan crates line)
  | .ss, line => parseSs crates line
  | .vmess, line => .ok (parseVmess crates line)
  | .socks, line => .ok (parseSocksLink crates line)
  | .http, line => .ok (parseHttpLink crates line)

/-- What tells a link from the others. -/
def prefixes : List String :=
  ["vless://", "trojan://", "ss://", "vmess://", "socks5://", "socks://", "http://", "https://"]

/-- A text starts with one of them at most. -/
theorem isPrefixOf_prefixes {a : String} (ha : a ∈ prefixes) {l : Str} (h : a.toList <+: l) :
    ∀ b ∈ prefixes, b.toList.isPrefixOf l = decide (a = b) := by
  have hapart : ∀ a ∈ prefixes, ∀ b ∈ prefixes, a.toList <+: b.toList → a = b := by decide +kernel
  intro b hb
  by_cases hab : a = b
  · rw [decide_eq_true hab, ← hab]
    exact List.isPrefixOf_iff_prefix.mpr h
  · rw [decide_eq_false hab, Bool.eq_false_iff]
    intro hpre
    rcases List.prefix_or_prefix_of_prefix h (List.isPrefixOf_iff_prefix.mp hpre) with hp | hp
    · exact hab (hapart a ha b hb hp)
    · exact hab (hapart b hb a ha hp).symm

theorem parseShareLink_prefix {a : String} (ha : a ∈ prefixes) {line : Str}
    (h : a.toList <+: toLower (trim line)) : parseShareLink crates line =
      if a = "vless://" then .ok (parseVless crates (trim line))
      else if a = "trojan://" then .ok (parseTrojan crates (trim line))
      else if a = "ss://" then parseSs crates (trim line)
      else if a = "vmess://" then .ok (parseVmess crates (trim line))
      else if a = "socks5://" ∨ a = "socks://" then .ok (parseSocksLink crates (trim line))
      else if a = "http://" ∨ a = "https://" then .ok (parseHttpLink crates (trim line))
      else .ok none := by
  have hall := isPrefixOf_prefixes ha h
  simp only [parseShareLink, hall "vless://" (by decide), hall "trojan://" (by decide),
    hall "ss://" (by decide), hall "vmess://" (by decide), hall "socks5://" (by decide),
    hall "socks://" (by decide), hall "http://" (by decide), hall "https://" (by decide),
    Bool.or_eq_true, decide_eq_true_eq]

/-- The scheme tells the kinds apart. -/
theorem parseShareLink_kind {kind : LinkKind} {line : Str}
    (h : ∃ scheme ∈ kind.schemes, (scheme.toList ++ "://".toList) <+: toLower (trim line)) :
    parseShareLink crates line = kind.parse crates (trim line) := by
  obtain ⟨scheme, hmem, hpre⟩ := h
  cases kind with
  | vless =>
      cases List.mem_singleton.mp hmem
      exact parseShareLink_prefix (a := "vless://") (by decide) hpre
  | trojan =>
      cases List.mem_singleton.mp hmem
      exact parseShareLink_prefix (a := "trojan://") (by decide) hpre
  | ss =>
      cases List.mem_singleton.mp hmem
      exact parseShareLink_prefix (a := "ss://") (by decide) hpre
  | vmess =>
      cases List.mem_singleton.mp hmem
      exact parseShareLink_prefix (a := "vmess://") (by decide) hpre
  | socks =>
      rcases List.mem_cons.mp hmem with rfl | hmem
      · exact parseShareLink_prefix (a := "socks5://") (by decide) hpre
      · cases List.mem_singleton.mp hmem
        exact parseShareLink_prefix (a := "socks://") (by decide) hpre
  | http =>
      rcases List.mem_cons.mp hmem with rfl | hmem
      · exact parseShareLink_prefix (a := "http://") (by decide) hpre
      · cases List.mem_singleton.mp hmem
        exact parseShareLink_prefix (a := "https://") (by decide) hpre

/-- A link whose parser takes the port that it is given, but for the port zero. -/
theorem Entry.kept_iff_ne_zero (hbig : 65535 < p → e.read crates = .ok none)
    (hread : p ≤ 65535 → ∃ node, e.read crates = .ok (some node) ∧ (p ≠ 0 → node.port = .ofNat p)) :
    e.Kept crates p ↔ p ≠ 0 := by
  rw [Kept]
  by_cases hp : p ≤ 65535
  · obtain ⟨node, hnode, hport⟩ := hread hp
    by_cases hzero : p = 0
    · rw [if_neg (by omega), hnode]
      exact iff_of_false (fun h => by cases h) (not_not.mpr hzero)
    · rw [if_pos (by omega), hnode]
      refine iff_of_true ⟨node, rfl, ?_⟩ hzero
      rw [hport hzero, UInt16.toNat_ofNat']
      omega
  · rw [if_neg (by omega)]
    exact iff_of_true (hbig (by omega)) (by omega)

/-! ### URLs -/

theorem portOr443_eq {u : Url} (h : u.port = some (.ofNat p)) (hp : p ≤ 65535) (hzero : p ≠ 0) :
    Url.portOr443 u = .ofNat p := by
  have hpos : 0 < UInt16.ofNat p := by
    rw [UInt16.lt_iff_toNat_lt, UInt16.toNat_ofNat', UInt16.toNat_zero]
    omega
  rw [Url.portOr443, h, Option.getD_some, if_pos hpos]

theorem defaultPort_none {s : Str} {schemes : List String}
    (h : ∀ scheme ∈ schemes, scheme ≠ "http" ∧ scheme ≠ "https") (hs : oneOf s schemes) :
    defaultPort s = none := by
  obtain ⟨scheme, hmem, heq⟩ := List.any_eq_true.mp hs
  obtain ⟨hhttp, hhttps⟩ := h scheme hmem
  have heq := of_decide_eq_true heq
  have hone : ∀ t : String, scheme ≠ t → oneOf s [t] = false := by
    intro t ht
    simp only [oneOf, List.any_cons, List.any_nil, Bool.or_false]
    exact decide_eq_false fun h => ht (String.toList_inj.mp (heq.symm.trans h))
  rw [defaultPort, hone _ hhttp, hone _ hhttps]
  rfl

theorem UrlPort.kept_iff_keeps {kind : LinkKind} {line : Str} (hkind : kind ≠ .ss ∧ kind ≠ .vmess)
    (hscheme : ∃ scheme ∈ kind.schemes, (scheme.toList ++ "://".toList) <+: toLower (trim line))
    (h : UrlPort crates kind (trim line) p) : (Entry.link kind line).Kept crates p ↔ p ≠ 0 := by
  have hkindRead : (Entry.link kind line).read crates = kind.parse crates (trim line) :=
    parseShareLink_kind hscheme
  have hnamed {u : Url} (hschemes : ∀ scheme ∈ kind.schemes, scheme ≠ "http" ∧ scheme ≠ "https")
      (hu : oneOf u.scheme kind.schemes)
      (hport : u.port = if defaultPort u.scheme = some (.ofNat p) then none else some (.ofNat p)) :
      u.port = some (.ofNat p) := by
    rw [hport, defaultPort_none hschemes hu]
    rfl
  refine Entry.kept_iff_ne_zero (fun hp => ?_) fun hp => ?_
  · rw [hkindRead]
    have hnone := h.refused hp
    cases kind with
    | vless => simp only [LinkKind.parse, parseVless, hnone, Option.bind_eq_bind, Option.bind_none]
    | trojan => simp only [LinkKind.parse, parseTrojan, hnone, Option.bind_eq_bind, Option.bind_none]
    | socks => simp only [LinkKind.parse, parseSocksLink, hnone, Option.bind_eq_bind, Option.bind_none]
    | http => simp only [LinkKind.parse, parseHttpLink, hnone, Option.bind_eq_bind, Option.bind_none]
    | ss => exact absurd rfl hkind.1
    | vmess => exact absurd rfl hkind.2
  · rw [hkindRead]
    obtain ⟨u, hu, hhost, hschemes, hpath, hport⟩ := h.read hp
    obtain ⟨host, hhost⟩ := Option.isSome_iff_exists.mp hhost
    cases kind with
    | vless =>
        simp only [LinkKind.parse, parseVless, hu, hhost, Option.bind_eq_bind, Option.bind_some]
        exact ⟨_, rfl, portOr443_eq (hnamed (by decide) hschemes hport) hp⟩
    | trojan =>
        simp only [LinkKind.parse, parseTrojan, hu, hhost, Option.bind_eq_bind, Option.bind_some]
        exact ⟨_, rfl, portOr443_eq (hnamed (by decide) hschemes hport) hp⟩
    | socks =>
        simp only [LinkKind.parse, parseSocksLink, plainNode, hu, hhost, Option.bind_eq_bind,
          Option.bind_some, hnamed (by decide) hschemes hport]
        exact ⟨_, rfl, fun _ => rfl⟩
    | http =>
        have hdefault : defaultPort u.scheme =
            some (if oneOf u.scheme ["https"] then 443 else 80) := by
          simp only [LinkKind.schemes, oneOf, List.any_cons, List.any_nil, Bool.or_false,
            Bool.or_eq_true, decide_eq_true_eq] at hschemes
          rcases hschemes with hs | hs
          · rw [hs]
            decide
          · rw [hs]
            decide
        have hgiven : u.port.getD (if oneOf u.scheme ["https"] then 443 else 80) = .ofNat p := by
          generalize (if oneOf u.scheme ["https"] then 443 else 80 : UInt16) = port at hdefault ⊢
          rw [hport, hdefault]
          by_cases heq : port = .ofNat p
          · rw [if_pos (congrArg some heq), heq]
            rfl
          · rw [if_neg fun h => heq (Option.some.inj h)]
            rfl
        simp only [LinkKind.parse, parseHttpLink, plainNode, hu, hhost, hpath rfl, Option.bind_eq_bind,
          Option.bind_some, hgiven]
        exact ⟨_, rfl, fun _ => rfl⟩
    | ss => exact absurd rfl hkind.1
    | vmess => exact absurd rfl hkind.2

/-! ### Shadowsocks and VMess -/

theorem Spells.notMem {s : Str} (h : Spells s p) {c : Char} (hc : ¬ ('0' ≤ c ∧ c ≤ '9')) : c ∉ s :=
  fun hmem => hc (h.digits c hmem)

theorem HostPort.split {hostport : Str} (h : HostPort hostport p) :
    ∃ host, splitHostPortStr hostport =
      if p < 65536 then some (host, UInt16.ofNat p) else none := by
  obtain ⟨s, hs, ⟨host, htrim, hhead⟩ | ⟨host, hhost, htrim⟩⟩ := h
  · refine ⟨host, ?_⟩
    have hbracket : stripPrefix "[".toList (trim hostport) = none := by
      refine if_neg fun hpre => ?_
      obtain ⟨rest, hrest⟩ := List.isPrefixOf_iff_prefix.mp hpre
      rw [htrim] at hrest
      cases host with
      | nil =>
          have hc : '[' = ':' := (List.cons_eq_cons.mp hrest).1
          exact absurd hc (by decide)
      | cons c cs => exact hhead (congrArg some (List.cons_eq_cons.mp hrest).1.symm)
    simp only [splitHostPortStr, hbracket]
    rw [htrim, rsplitOnce_append (hs.notMem (by decide))]
    simp only [Option.bind_eq_bind, Option.bind_some, hs.parseU16]
    split <;> rfl
  · refine ⟨host, ?_⟩
    have hbracket : stripPrefix "[".toList (trim hostport) = some (host ++ ']' :: ':' :: s) := by
      rw [htrim]
      exact if_pos (List.isPrefixOf_iff_prefix.mpr ⟨_, rfl⟩)
    have hdrop : (':' :: s).dropWhile (· = ':') = s := by
      rw [List.dropWhile_cons_of_pos (by decide)]
      cases hd : s with
      | nil => rfl
      | cons c cs =>
          refine List.dropWhile_cons_of_neg fun hc => ?_
          exact hs.notMem (by decide) (hd ▸ List.mem_cons.mpr (.inl (of_decide_eq_true hc).symm))
    simp only [splitHostPortStr, hbracket]
    rw [splitOnce_append _ hhost]
    simp only [Option.bind_eq_bind, Option.bind_some, hdrop, hs.parseU16]
    split <;> rfl

theorem SsPort.kept_iff_keeps {line : Str} (h : SsPort crates (trim line) p)
    (hscheme : ∃ scheme ∈ LinkKind.ss.schemes,
      (scheme.toList ++ "://".toList) <+: toLower (trim line)) :
    (Entry.link .ss line).Kept crates p ↔ p ≠ 0 := by
  obtain ⟨userinfo, hostport, q, hparts, hcolon, haddress⟩ := h.parts
  obtain ⟨method, password, hsplit⟩ := splitOnce_of_mem hcolon
  obtain ⟨host, hhost⟩ := haddress.split
  have hkindRead : (Entry.link .ss line).read crates = parseSs crates (trim line) :=
    parseShareLink_kind hscheme
  have hafter (f : Option (Str × Str × Str) → Option ProxyNode) :
      (ssParts crates (ssBody (trim line)) >>= fun parts => pure (f parts)) =
        .ok (f (some (userinfo, hostport, q))) := by
    rw [hparts]
    rfl
  let node (hash : Option Str) : ProxyNode := {
    name := (hash.filter (!·.isEmpty)).getD host
    typeName := "ss".toList
    server := host
    port := .ofNat p
    password := some password
    cipher := some method
    plugin := (ssPlugin crates (parseQuery q)).1
    pluginOpts := (ssPlugin crates (parseQuery q)).2 }
  have hread : ∃ hash, (Entry.link .ss line).read crates =
      .ok (if p < 65536 then some (node hash) else none) := by
    rw [hkindRead, parseSs]
    cases hi : find '#' (trim line) with
    | none =>
        refine ⟨none, (hafter _).trans ?_⟩
        simp only [Option.bind_eq_bind, Option.bind_some, hsplit, hhost]
        split <;> rfl
    | some i =>
        obtain ⟨a, b, heq, rfl⟩ := eq_append_of_find hi
        obtain ⟨hash, hhash⟩ : Runs ((some ∘ urlDecode) <$> sliceFrom (trim line) (byteLen a + 1)) := by
          rw [heq]
          exact runs_map.mpr (runs_sliceFrom.mpr (isBoundary_after a b rfl))
        refine ⟨hash, ?_⟩
        simp only [hhash]
        refine (hafter _).trans ?_
        simp only [Option.bind_eq_bind, Option.bind_some, hsplit, hhost]
        split <;> rfl
  obtain ⟨hash, hread⟩ := hread
  refine Entry.kept_iff_ne_zero (fun hp => ?_) fun hp => ?_
  · rw [hread, if_neg (by omega)]
  · rw [hread, if_pos (by omega)]
    exact ⟨_, rfl, fun _ => rfl⟩

theorem VmessPort.kept_iff_keeps {line : Str} (h : VmessPort crates (trim line) p)
    (hscheme : ∃ scheme ∈ LinkKind.vmess.schemes,
      (scheme.toList ++ "://".toList) <+: toLower (trim line)) :
    (Entry.link .vmess line).Kept crates p ↔ p ≤ 65535 ∨ p % 65536 = 0 ∨ 2 ^ 64 ≤ p := by
  obtain ⟨text, v, htext, hv, ⟨server, hserver, hne⟩, hnumber⟩ := h.json
  have hport := juint_of_numberOrText hnumber
  have hempty : server.isEmpty = false := by
    rw [Bool.eq_false_iff]
    exact fun he => hne (List.isEmpty_iff.mp he)
  have hkindRead : (Entry.link .vmess line).read crates = .ok (parseVmess crates (trim line)) :=
    parseShareLink_kind hscheme
  have htext' : decodeB64Url crates (trimStartMatches "VMESS://".toList (trim line).length
      (trimStartMatches "vmess://".toList (trim line).length (trim line))) = some text := htext
  have hread : ∃ node : ProxyNode, node.port = .ofNat (if p < 2 ^ 64 then p else 0) ∧
      (Entry.link .vmess line).read crates =
        .ok (if UInt16.ofNat (if p < 2 ^ 64 then p else 0) = 0 then none else some node) := by
    rw [hkindRead, parseVmess]
    simp only [htext', hv, hserver, hport, Option.bind_eq_bind, Option.bind_some, Option.pure_def]
    refine ⟨_, ?_, congrArg Except.ok (guard_eq ?_)⟩
    · rfl
    · rw [hempty]
      simp only [Bool.false_eq_true, false_or]
  obtain ⟨node, hnode, hread⟩ := hread
  rw [Entry.kept_iff_of_read hread hnode, Entry.wrapped_iff (by decide)]

/-! ## Every format -/

/-- The port is kept unless the reader takes another number for it: zero, in a link, or one in JSON
the low bits of which are a port. -/
theorem Entry.kept_iff (h : e.Writes crates p) : e.Kept crates p ↔ e.Keeps p := by
  cases e with
  | yaml m => exact iff_true_intro (YamlPort.kept h)
  | xray ob => exact XrayPort.kept_iff_keeps h
  | singbox ob => exact SingboxPort.kept_iff_keeps h
  | sip008 s => exact Sip008Port.kept_iff_keeps h
  | link kind line =>
      obtain ⟨hscheme, haddress⟩ := h
      cases kind with
      | ss => exact SsPort.kept_iff_keeps haddress hscheme
      | vmess => exact VmessPort.kept_iff_keeps haddress hscheme
      | vless => exact UrlPort.kept_iff_keeps (by decide) hscheme haddress
      | trojan => exact UrlPort.kept_iff_keeps (by decide) hscheme haddress
      | socks => exact UrlPort.kept_iff_keeps (by decide) hscheme haddress
      | http => exact UrlPort.kept_iff_keeps (by decide) hscheme haddress

namespace Sample

def noCrates : Crates := ⟨fun _ => none, fun _ => none, fun _ => none, fun _ _ => [], 0⟩

def link : Str := "ss://aes-256-gcm:p@h:8388#n".toList

def outbound : Json := .object [("protocol".toList, .string "vless".toList),
  ("settings".toList, .object [("vnext".toList, .array [.object [
    ("address".toList, .string "h".toList), ("port".toList, .int 65979),
    ("users".toList, .array [.object [("id".toList, .string "u".toList)]])]])])]

theorem link_writes : (Entry.link .ss link).Writes noCrates 8388 :=
  ⟨⟨"ss", by decide, by decide⟩, ⟨"aes-256-gcm:p".toList, "h:8388".toList, [], by decide,
    by decide, "8388".toList, by decide, .inl ⟨"h".toList, by decide, by decide⟩⟩⟩

theorem outbound_writes : (Entry.xray outbound).Writes noCrates 65979 :=
  ⟨_, _, _, rfl, (rfl : oneOf _ knownTypes = true), rfl, ⟨⟨[], rfl⟩, _, [], rfl⟩,
    ⟨_, rfl, by decide⟩, rfl⟩

end Sample

/-- A link that names the port 8388 keeps it, and an outbound that names 65979 is not refused. -/
theorem Entry.kept_iff_written : (Entry.link .ss Sample.link).Kept Sample.noCrates 8388 ∧
    ¬ (Entry.xray Sample.outbound).Kept Sample.noCrates 65979 := by
  have hlink : (Entry.link .ss Sample.link).Keeps 8388 := by
    show (8388 : Nat) ≠ 0
    decide
  have houtbound : ¬ (Entry.xray Sample.outbound).Keeps 65979 := by
    show ¬ (65979 ≤ 65535 ∨ 65979 % 65536 = 0 ∨ 2 ^ 63 ≤ 65979)
    decide
  exact ⟨(Entry.kept_iff Sample.link_writes).mpr hlink,
    fun h => houtbound ((Entry.kept_iff Sample.outbound_writes).mp h)⟩

/-- The number 65979 is taken for the port 443. -/
theorem Entry.not_kept_server :
    let crates : Crates := ⟨fun _ => none, fun _ => none, fun _ => none, fun _ _ => [], 0⟩
    let e : Entry := .sip008 (.object [("server".toList, .string "h".toList),
      ("password".toList, .string "p".toList), ("server_port".toList, .int 65979)])
    e.Writes crates 65979 ∧ e.read crates = .ok (some {
      name := "h".toList, typeName := "ss".toList, server := "h".toList, port := 443
      password := some "p".toList }) ∧ ¬ e.Kept crates 65979 := by
  intro crates e
  have hread : e.read crates = .ok (some {
      name := "h".toList, typeName := "ss".toList, server := "h".toList, port := 443
      password := some "p".toList }) := rfl
  refine ⟨⟨⟨"h".toList, rfl, by decide⟩, rfl, rfl⟩, hread, fun h => ?_⟩
  rw [Entry.Kept, if_neg (by decide), hread] at h
  cases h

end Config

end RustClash
