import Mathlib.Tactic.FinCases
import RustClash.Net.AddrText
import RustClash.Proxynet.Dial

/-!
# Outbound

`OutboundDialer` makes the options of a dial from a node and an address of its server.
The host that the options name is that address, in text.
-/

namespace RustClash

open Str Config

inductive OutboundError where
  | proxy (e : ProxyError)
  | anyhow (message : String)
deriving DecidableEq, Repr

instance : Inhabited OutboundError := ⟨.anyhow ""⟩

/-! ## From a node to its options -/

/-- The transport of a node without one. -/
def net (node : ProxyNode) : Str := if node.network.isEmpty then "tcp".toList else node.network

def hasPublicKey (node : ProxyNode) : Bool := node.realityPublicKey.any (!·.isEmpty)

def toVless (node : ProxyNode) (dialHost : Str) : VlessOptions where
  id := node.uuid.getD []
  host := dialHost
  port := node.port
  security := if hasPublicKey node then .reality else if node.tls then .tls else .none
  transport := if node.network.isEmpty then "tcp".toList else node.network
  path := node.wsPath
  hostHeader := node.wsHost
  sni := node.serverName
  alpn := []
  flow := node.flow
  fingerprint := node.clientFingerprint
  realityPublicKey := node.realityPublicKey
  realityShortId := node.realityShortId
  allowInsecure := node.skipCertVerify

def toTrojan (node : ProxyNode) (dialHost : Str) : TrojanOptions where
  password := node.password.getD []
  host := dialHost
  port := node.port
  transport := if node.network.isEmpty then "tcp".toList else node.network
  path := node.wsPath
  hostHeader := node.wsHost
  sni := node.serverName
  alpn := []
  allowInsecure := node.skipCertVerify

def toSs (node : ProxyNode) (dialHost : Str) : SsOptions where
  method := (node.cipher.filter (!·.isEmpty)).getD "aes-256-gcm".toList
  password := node.password.getD []
  host := dialHost
  port := node.port
  plugin := node.plugin
  pluginOpts := node.pluginOpts
  transport := net node
  path := node.wsPath
  hostHeader := node.wsHost
  sni := node.serverName
  alpn := []
  allowInsecure := node.skipCertVerify
  tls := node.tls

def toVmess (node : ProxyNode) (dialHost : Str) : VmessOptions where
  id := node.uuid.getD []
  security := (node.cipher.filter (!·.isEmpty)).getD "auto".toList
  alterId := node.alterId
  host := dialHost
  port := node.port
  transport := net node
  path := node.wsPath
  hostHeader := node.wsHost
  sni := node.serverName
  alpn := []
  allowInsecure := node.skipCertVerify
  tls := node.tls

def toSocks (node : ProxyNode) : SocksOptions := ⟨node.username, node.password⟩

def toHttp (node : ProxyNode) : HttpProxyOptions := ⟨node.username, node.password⟩

def unsupportedType (other : Str) : OutboundError :=
  let other := String.ofList other
  .anyhow s!"unsupported outbound type {other}"

def toKind (node : ProxyNode) (dialHost ty : Str) : Except OutboundError OutboundKind :=
  if oneOf ty ["vless"] then .ok (.vless (toVless node dialHost))
  else if oneOf ty ["trojan"] then .ok (.trojan (toTrojan node dialHost))
  else if oneOf ty ["ss", "shadowsocks"] then .ok (.shadowsocks (toSs node dialHost))
  else if oneOf ty ["vmess"] then .ok (.vmess (toVmess node dialHost))
  else if oneOf ty ["socks", "socks5"] then .ok (.socks5 (toSocks node))
  else if oneOf ty ["http", "https"] then .ok (.http (toHttp node))
  else .error (unsupportedType ty)

theorem oneOf_iff {s : Str} {literals : List String} :
    oneOf s literals ↔ ∃ t ∈ literals, s = t.toList := by
  simp [oneOf]

theorem oneOf_append {s : Str} {a b : List String} : oneOf s (a ++ b) ↔ oneOf s a ∨ oneOf s b := by
  rw [oneOf, List.any_append, Bool.or_eq_true]
  rfl

theorem oneOf_mono {s : Str} {a b : List String} (h : oneOf s a) (hsub : a ⊆ b) : oneOf s b := by
  obtain ⟨u, hu, rfl⟩ := oneOf_iff.mp h
  exact oneOf_iff.mpr ⟨u, hsub hu, rfl⟩

theorem not_oneOf {s : Str} {a b : List String} (h : oneOf s a) (hdisjoint : a.Disjoint b) :
    oneOf s b = false := by
  rw [Bool.eq_false_iff]
  intro hb
  obtain ⟨u, hu, rfl⟩ := oneOf_iff.mp h
  obtain ⟨v, hv, heq⟩ := oneOf_iff.mp hb
  exact hdisjoint hu (String.toList_injective heq ▸ hv)

section

variable {node : ProxyNode} {dialHost ty : Str}

theorem toKind_vless (h : oneOf ty ["vless"]) :
    toKind node dialHost ty = .ok (.vless (toVless node dialHost)) := if_pos h

theorem toKind_trojan (h : oneOf ty ["trojan"]) :
    toKind node dialHost ty = .ok (.trojan (toTrojan node dialHost)) := by
  obtain ⟨t, ht, rfl⟩ := oneOf_iff.mp h
  fin_cases ht
  rfl

theorem toKind_ss (h : oneOf ty ["ss", "shadowsocks"]) :
    toKind node dialHost ty = .ok (.shadowsocks (toSs node dialHost)) := by
  obtain ⟨t, ht, rfl⟩ := oneOf_iff.mp h
  fin_cases ht <;> rfl

theorem toKind_vmess (h : oneOf ty ["vmess"]) :
    toKind node dialHost ty = .ok (.vmess (toVmess node dialHost)) := by
  obtain ⟨t, ht, rfl⟩ := oneOf_iff.mp h
  fin_cases ht
  rfl

theorem toKind_socks (h : oneOf ty ["socks", "socks5"]) :
    toKind node dialHost ty = .ok (.socks5 (toSocks node)) := by
  obtain ⟨t, ht, rfl⟩ := oneOf_iff.mp h
  fin_cases ht <;> rfl

theorem toKind_http (h : oneOf ty ["http", "https"]) :
    toKind node dialHost ty = .ok (.http (toHttp node)) := by
  obtain ⟨t, ht, rfl⟩ := oneOf_iff.mp h
  fin_cases ht <;> rfl

end

/-! ## Addresses of a server -/

def isIpv4 : IpAddr → Bool
  | .v4 _ => true
  | .v6 _ => false

/-- The address that the host name is, if it is one. -/
def literalIp (host : Str) : Option IpAddr :=
  parseIpAddr (String.ofList ((trim host).rdropWhile (· = '.')))

/-- `sort_by_key` keeps the order of addresses of one family. -/
def resolveHost (doh : Str → Except String (List IpAddr)) (host : Str) :
    Except OutboundError (List IpAddr) :=
  match literalIp host with
  | some ip => .ok [ip]
  | none =>
      match doh ((trim host).rdropWhile (· = '.')) with
      | .error message => .error (.anyhow message)
      | .ok ips => .ok (ips.filter isIpv4 ++ ips.filter (!isIpv4 ·))

/-- The first IPv4 address, or else the first address. -/
def dialIp (ips : List IpAddr) : Option IpAddr := ips.find? isIpv4 <|> ips.head?

theorem resolveHost_literal (doh : Str → Except String (List IpAddr)) {host : Str} {ip : IpAddr}
    (h : literalIp host = some ip) : resolveHost doh host = .ok [ip] := by
  rw [resolveHost, h]

theorem dialIp_singleton (ip : IpAddr) : dialIp [ip] = some ip := by
  cases ip <;> rfl

/-- A server that is no address may be resolved to any. -/
theorem resolveHost_single {host : Str} {ip : IpAddr} (h : literalIp host = none) :
    resolveHost (fun _ => .ok [ip]) host = .ok [ip] := by
  rw [resolveHost, h]
  cases ip <;> rfl

def noAddress (server : Str) : OutboundError :=
  let server := String.ofList server
  .anyhow s!"DoH no A record for node {server}"

/-! ## Dialing a node -/

/-- `dial_via_ips`; the first act is `connect_happy`. -/
def dialViaIps (crates : DialCrates) (draws : DialDraws) (node : ProxyNode) (ips : List IpAddr)
    (host : Str) (port : UInt16) : Script DialAct UInt8 OutboundError Unit := do
  .perform (.connect ips node.port)
  match dialIp ips with
  | none => .fail (noAddress node.server)
  | some ip => do
      let kind ← .ofExcept (toKind node ip.toText (toLower node.typeName))
      (dial crates draws kind host port).mapError .proxy

def dialVia (crates : DialCrates) (draws : DialDraws) (doh : Str → Except String (List IpAddr))
    (node : ProxyNode) (host : Str) (port : UInt16) : Script DialAct UInt8 OutboundError Unit := do
  let ips ← .ofExcept (resolveHost doh node.server)
  dialViaIps crates draws node ips host port

/-! ## The checks of VLESS -/

open Dial

variable {node : ProxyNode}

/-- The node asks for a flow that VLESS does not have. -/
def ProxyNode.UnknownFlow (node : ProxyNode) : Prop :=
  ∃ flow, node.flow = some flow ∧ flow ≠ [] ∧ eqIgnoreCase flow visionFlow = false

/-- What the checks of VLESS let through. -/
theorem vlessChecks_toVless {ip : Str} : vlessChecks (toVless node ip) = .ok () ↔
    resolveTransport (net node) ≠ .unsupported ∧ ¬ node.UnknownFlow := by
  have htransport : (toVless node ip).transport = net node := rfl
  have hkey : ¬ ((toVless node ip).security = .reality ∧
      (toVless node ip).realityPublicKey.isNone) := by
    rintro ⟨hsec, hnone⟩
    have hnokey : hasPublicKey node = false := by
      rw [hasPublicKey, show node.realityPublicKey = none from Option.isNone_iff_eq_none.mp hnone]
      rfl
    cases htls : node.tls <;> simp [toVless, hnokey, htls] at hsec
  have hflow : (toVless node ip).flow = node.flow := rfl
  rw [vlessChecks, htransport, if_neg hkey, hflow]
  by_cases h : resolveTransport (net node) = .unsupported
  · simp [h]
  · rw [if_neg h]
    cases hf : node.flow with
    | none => simp [h, ProxyNode.UnknownFlow, hf]
    | some flow =>
        by_cases hunknown : flow ≠ [] ∧ eqIgnoreCase flow visionFlow = false
        · have hempty : flow.isEmpty = false := List.isEmpty_eq_false_iff.mpr hunknown.1
          simp [Option.filter, hempty, hunknown.2, ProxyNode.UnknownFlow, hf, hunknown.1]
        · have hcond : (!flow.isEmpty && !eqIgnoreCase flow visionFlow) = false := by
            rw [Bool.and_eq_false_iff]
            by_cases hempty : flow = []
            · simp [hempty]
            · simpa [hempty] using hunknown
          have hknown : ¬ node.UnknownFlow := by
            rintro ⟨f, hfe, hf'⟩
            rw [hf] at hfe
            cases hfe
            exact hunknown hf'
          simp [Option.filter, hcond, h, hknown]

end RustClash
