import RustClash.Core.Dialable
import RustClash.Proxynet.DialActs

/-!
# Encryption that a node asks for

Which listed nodes are dialed with the encryption that they ask for.  A node with TLS is,
if its first bytes are those of a handshake; a node with REALITY, if no dial of it
succeeds without one.
-/

namespace RustClash

open Str Config Script Dial

/-! ## What a node asks for -/

/-- The handshake of a layer of security. -/
def DialAct.isHandshake : DialAct → Bool
  | .tlsHandshake | .realityHandshake _ => true
  | _ => false

def DialAct.isReality : DialAct → Bool
  | .realityHandshake _ => true
  | _ => false

namespace ProxyNode

/-- A dial gave the node the encryption that it asks for. -/
structure Encrypts (node : ProxyNode) (r : Except OutboundError Unit × List DialAct) : Prop where
  tls : node.tls → ∀ a, r.2.find? DialAct.sends = some a → a.isHandshake
  reality : oneOf (NodeFilter.resolveSecurity node) ["reality"] → r.1 = .ok () →
    ∃ a ∈ r.2, a.isReality

/-- The node is dialed with REALITY. -/
def UsesReality (node : ProxyNode) : Prop := oneOf node.typeName ["vless"] ∧ hasPublicKey node

/-- The node is dialed with nothing below its protocol. -/
def Bare (node : ProxyNode) : Prop := oneOf node.typeName ["socks5", "http"] = true

end ProxyNode

variable {crates : DialCrates} {draws : DialDraws} {node : ProxyNode}

/-- The six types, and what a dial of each is. -/
theorem Config.Listed.kinds (h : Listed node) (ip : Str) :
    oneOf node.typeName ["vless"] ∧
        toKind node ip (toLower node.typeName) = .ok (.vless (toVless node ip)) ∨
      oneOf node.typeName ["trojan"] ∧
        toKind node ip (toLower node.typeName) = .ok (.trojan (toTrojan node ip)) ∨
      oneOf node.typeName ["ss"] ∧
        toKind node ip (toLower node.typeName) = .ok (.shadowsocks (toSs node ip)) ∨
      oneOf node.typeName ["vmess"] ∧
        toKind node ip (toLower node.typeName) = .ok (.vmess (toVmess node ip)) ∨
      oneOf node.typeName ["socks5"] ∧
        toKind node ip (toLower node.typeName) = .ok (.socks5 (toSocks node)) ∨
      oneOf node.typeName ["http"] ∧
        toKind node ip (toLower node.typeName) = .ok (.http (toHttp node)) := by
  rw [h.toLower_typeName]
  have htype : oneOf node.typeName (["vless"] ++ (["trojan"] ++ (["ss"] ++ (["vmess"] ++
    (["socks5"] ++ ["http"]))))) := h.type
  simp only [oneOf_append] at htype
  rcases htype with hty | hty | hty | hty | hty | hty
  · exact .inl ⟨hty, toKind_vless hty⟩
  · exact .inr (.inl ⟨hty, toKind_trojan hty⟩)
  · exact .inr (.inr (.inl ⟨hty, toKind_ss (oneOf_mono hty (by simp))⟩))
  · exact .inr (.inr (.inr (.inl ⟨hty, toKind_vmess hty⟩)))
  · exact .inr (.inr (.inr (.inr (.inl ⟨hty, toKind_socks (oneOf_mono hty (by simp))⟩))))
  · exact .inr (.inr (.inr (.inr (.inr ⟨hty, toKind_http (oneOf_mono hty (by simp))⟩))))

/-! ## What a dial sends first -/

section

variable {Q : Unit → Prop}

theorem opens_tlsWrap {sni : Str} {insecure : Bool} {alpn : List Str} :
    (tlsWrap crates sni insecure alpn).Opens DialAct.sends (·.isHandshake) Q := by
  rw [tlsWrap, opens_bind, opens_perform, if_neg (by simp [DialAct.sends])]
  split
  · exact opens_perform.mpr (by simp [DialAct.sends, DialAct.isHandshake])
  · exact opens_fail.mpr trivial

theorem opens_realityWrap {sni pbk : Str} {shortId : Option Str} {alpn : List Str} :
    (realityWrap crates draws sni pbk shortId alpn).Opens DialAct.sends (·.isHandshake) Q := by
  simp [realityWrap, DialAct.sends, DialAct.isHandshake]

theorem opens_vlessSecure {ip : Str} (htls : node.tls) :
    (vlessSecure crates draws (toVless node ip)).Opens DialAct.sends (·.isHandshake) Q := by
  cases hkey : hasPublicKey node with
  | true =>
      have hreality : (toVless node ip).security = .reality := if_pos hkey
      rw [vlessSecure, hreality]
      exact opens_realityWrap
  | false =>
      have hsecurity : (toVless node ip).security = .tls := by simp [toVless, hkey, htls]
      rw [vlessSecure, hsecurity]
      exact opens_tlsWrap

theorem opens_dialTrojan {o : TrojanOptions} {host : Str} {port : UInt16} :
    (dialTrojan crates o host port).Opens DialAct.sends (·.isHandshake) Q := by
  simp only [dialTrojan]
  split
  · exact opens_fail.mpr trivial
  · exact opens_bind.mpr opens_tlsWrap

theorem opens_layerTransport {sni : Str} {insecure : Bool} {alpn : List Str} {transport : Str}
    {path hostHeader : Option Str} {host : Str} {sniOpt : Option Str} :
    (layerTransport crates true sni insecure alpn transport path hostHeader host sniOpt).Opens
      DialAct.sends (·.isHandshake) Q :=
  opens_bind.mpr opens_tlsWrap

/-- SOCKS5 opens with its methods. -/
theorem not_opens_dialSocks5 (o : SocksOptions) (host : Str) (port : UInt16) :
    ¬ (dialSocks5 o host port).Opens DialAct.sends (·.isHandshake) Q := by
  simp [dialSocks5, DialAct.sends, DialAct.isHandshake]

/-- HTTP opens with its request. -/
theorem not_opens_dialHttpConnect (o : HttpProxyOptions) (host : Str) (port : UInt16) :
    ¬ (dialHttpConnect crates o host port).Opens DialAct.sends (·.isHandshake) Q := by
  simp [dialHttpConnect, DialAct.sends, DialAct.isHandshake]

end

/-- Of the nodes with TLS those that have a layer for it open with its handshake. -/
theorem opens_dialViaIps (h : Listed node) (htls : node.tls) {ips : List IpAddr} {host : Str}
    {port : UInt16} : (dialViaIps crates draws node ips host port).Opens DialAct.sends
      (·.isHandshake) (fun _ => True) ↔ ((dialIp ips).isSome → ¬ node.Bare) := by
  have hbare {types : List String} (hty : oneOf node.typeName types)
      (hdisjoint : types.Disjoint ["socks5", "http"]) : ¬ node.Bare := by
    rw [ProxyNode.Bare, not_oneOf hty hdisjoint]
    decide
  rw [dialViaIps, opens_bind, opens_perform, if_neg (by simp [DialAct.sends])]
  cases dialIp ips with
  | none => exact iff_of_true (opens_fail.mpr trivial) (by simp)
  | some ip =>
    rw [Option.isSome_some, imp_iff_right rfl]
    simp only [opens_bind, opens_ofExcept, opens_mapError]
    rcases h.kinds ip.toText with ⟨hty, hkind⟩ | ⟨hty, hkind⟩ | ⟨hty, hkind⟩ | ⟨hty, hkind⟩ |
        ⟨hty, hkind⟩ | ⟨hty, hkind⟩ <;>
      rw [hkind] <;> simp only [Except.ok.injEq, forall_eq', dial]
    · refine iff_of_true ?_ (hbare hty (by simp))
      simp only [dialVless, opens_bind, opens_ofExcept]
      exact fun _ _ => opens_vlessSecure htls
    · exact iff_of_true opens_dialTrojan (hbare hty (by simp))
    · refine iff_of_true ?_ (hbare hty (by simp))
      rw [opens_bind, show (toSs node ip.toText).tls = true from htls]
      exact opens_layerTransport
    · refine iff_of_true ?_ (hbare hty (by simp))
      rw [opens_bind, show (toVmess node ip.toText).tls = true from htls]
      exact opens_layerTransport
    · exact iff_of_false (not_opens_dialSocks5 _ host port)
        (not_not.mpr (oneOf_mono hty (by simp)))
    · exact iff_of_false (not_opens_dialHttpConnect _ host port)
        (not_not.mpr (oneOf_mono hty (by simp)))

/-! ## Whether a dial uses REALITY -/

theorem opens_handshake {sni pbk : Str} {shortId : Option Str} {alpn : List Str} {Q : Unit → Prop} :
    (realityWrap crates draws sni pbk shortId alpn).Opens DialAct.isReality (fun _ => True) Q := by
  simp [realityWrap, DialAct.isReality]

/-- A dial with REALITY succeeds with its handshake only. -/
theorem opens_reality (h : Listed node) (hreality : node.UsesReality) {ips : List IpAddr}
    {host : Str} {port : UInt16} :
    (dialViaIps crates draws node ips host port).Opens DialAct.isReality (fun _ => True)
      (fun _ => False) := by
  rw [dialViaIps, opens_bind, opens_perform, if_neg (by simp [DialAct.isReality])]
  cases dialIp ips with
  | none => exact opens_fail.mpr trivial
  | some ip =>
      have hsecurity : (toVless node ip.toText).security = .reality := if_pos hreality.2
      simp only [opens_bind, opens_ofExcept, opens_mapError]
      rw [h.toLower_typeName, toKind_vless hreality.1]
      simp only [Except.ok.injEq, forall_eq', dial, dialVless, opens_bind, opens_ofExcept]
      rw [vlessSecure, hsecurity]
      exact fun _ _ => opens_handshake

theorem isReality_of_inner {a : DialAct} (h : a.inner) : a.isReality = false := by
  cases a <;> first | rfl | cases h

section

variable {Q : Unit → Prop}

theorem emits_tls {sni : Str} {insecure : Bool} {alpn : List Str} (hQ : Q ()) :
    (tlsWrap crates sni insecure alpn).Emits (·.isReality = false) Q :=
  emits_tlsWrap.mpr ⟨rfl, fun _ => ⟨rfl, hQ⟩⟩

theorem emits_transport {kind : TransportKind} {path : Option Str} {hostHeader : Str} (hQ : Q ()) :
    (applyTransport kind path hostHeader).Emits (·.isReality = false) Q :=
  emits_applyTransport (fun _ _ => rfl) hQ

theorem emits_layers {tls : Bool} {sni : Str} {insecure : Bool} {alpn : List Str} {transport : Str}
    {path hostHeader : Option Str} {host : Str} {sniOpt : Option Str} (hQ : Q ()) :
    (layerTransport crates tls sni insecure alpn transport path hostHeader host sniOpt).Emits
      (·.isReality = false) Q := by
  have htransport : (if resolveTransport transport = .unsupported then
      fail (unsupportedTransport "" transport) else applyTransport (resolveTransport transport) path
        (resolveHostHeader hostHeader sniOpt host) : Dial Unit).Emits (·.isReality = false) Q := by
    split
    · exact emits_fail.mpr trivial
    · exact emits_transport hQ
  rw [layerTransport, emits_bind]
  cases tls with
  | true =>
      rw [if_pos rfl]
      exact emits_tls htransport
  | false =>
      rw [if_neg Bool.false_ne_true]
      exact emits_pure.mpr htransport

end

theorem emits_vless {ip : Str} (hkey : hasPublicKey node = false) {host : Str} {port : UInt16} :
    (dialVless crates draws (toVless node ip) host port).Emits (·.isReality = false)
      fun _ => True := by
  have hbehind : (applyTransport (resolveTransport (toVless node ip).transport) (toVless node ip).path
      (resolveHostHeader (toVless node ip).hostHeader (toVless node ip).sni
        (toVless node ip).host)).Emits (·.isReality = false) fun _ =>
          (establishVless crates (toVless node ip) host port).Emits (·.isReality = false)
            fun _ => True :=
    emits_transport (emits_establishVless isReality_of_inner _ host port)
  simp only [dialVless, emits_bind, emits_ofExcept]
  intro _ _
  cases htls : node.tls with
  | true =>
      have hsecurity : (toVless node ip).security = .tls := by simp [toVless, hkey, htls]
      rw [vlessSecure, hsecurity]
      exact emits_tls hbehind
  | false =>
      have hsecurity : (toVless node ip).security = .none := by simp [toVless, hkey, htls]
      rw [vlessSecure, hsecurity]
      exact emits_pure.mpr hbehind

theorem emits_trojan {o : TrojanOptions} {host : Str} {port : UInt16} :
    (dialTrojan crates o host port).Emits (·.isReality = false) fun _ => True := by
  simp only [dialTrojan]
  split
  · exact emits_fail.mpr trivial
  · simp only [emits_bind]
    exact emits_tls (emits_transport (emits_establishTrojan isReality_of_inner _ host port))

/-- No other dial has a handshake of REALITY. -/
theorem emits_dialViaIps (h : Listed node) (hreality : ¬ node.UsesReality) {ips : List IpAddr}
    {host : Str} {port : UInt16} :
    (dialViaIps crates draws node ips host port).Emits (·.isReality = false) fun _ => True := by
  rw [dialViaIps, emits_bind, emits_perform]
  refine ⟨rfl, ?_⟩
  cases dialIp ips with
  | none => exact emits_fail.mpr trivial
  | some ip =>
      simp only [emits_bind, emits_ofExcept, emits_mapError]
      rcases h.kinds ip.toText with ⟨hty, hkind⟩ | ⟨hty, hkind⟩ | ⟨hty, hkind⟩ | ⟨hty, hkind⟩ |
          ⟨hty, hkind⟩ | ⟨hty, hkind⟩ <;>
        rw [hkind] <;> simp only [Except.ok.injEq, forall_eq', dial, emits_bind]
      · exact emits_vless (by simpa [ProxyNode.UsesReality, hty] using hreality)
      · exact emits_trojan
      · exact emits_layers (emits_dialSs isReality_of_inner _ host port)
      · exact emits_layers (emits_dialVmess isReality_of_inner _ host port)
      · exact emits_dialSocks5 isReality_of_inner _ host port
      · exact emits_dialHttpConnect isReality_of_inner _ host port

/-! ## Which nodes are given their encryption -/

section

variable (hip : ∀ ip : IpAddr, crates.serverName ip.toText = true)
variable (hlaw : ∀ key, (crates.tls.aes256Gcm key).Lawful 16) (h : Listed node)

include h

theorem tls_iff (htls : node.tls) :
    (∀ ips host port p, ∀ a, ((dialViaIps crates draws node ips host port).run p).2.find?
      DialAct.sends = some a → a.isHandshake) ↔ ¬ node.Bare := by
  constructor
  · intro hfirst
    have hopens : (dialViaIps crates draws node [.v4 ⟨0, 0, 0, 0⟩] [] 0).Opens DialAct.sends
        (·.isHandshake) (fun _ => True) :=
      opens_iff.mpr fun p => ⟨hfirst _ _ _ p, fun _ _ _ => trivial⟩
    exact (opens_dialViaIps h htls).mp hopens (by rw [dialIp_singleton]; rfl)
  · intro hbare ips host port p
    exact (opens_iff.mp ((opens_dialViaIps h htls).mpr fun _ => hbare) p).1

include hip hlaw

theorem reality_iff : (∀ ips host port p,
    ((dialViaIps crates draws node ips host port).run p).1 = .ok () →
      ∃ a ∈ ((dialViaIps crates draws node ips host port).run p).2, a.isReality) ↔
      node.UsesReality ∨ ¬ node.Dialable crates := by
  constructor
  · intro hused
    by_contra hnot
    obtain ⟨hreality, hdialable⟩ := not_or.mp hnot
    have hsingle := dialIp_singleton (.v4 ⟨0, 0, 0, 0⟩)
    have hcan : (dialViaIps crates draws node [.v4 ⟨0, 0, 0, 0⟩] [] 0).Can fun _ => True :=
      (can_dialViaIps (hip _) hlaw h hsingle).mpr
        ⟨not_not.mp hdialable, .inl (addressable_of_length (by decide))⟩
    obtain ⟨p, a, hp, -⟩ := can_iff.mp hcan
    obtain ⟨x, hx, hisReality⟩ := hused _ _ _ p hp
    have hemits := (emits_iff.mp (emits_dialViaIps h hreality) p).1 x hx
    simp [hisReality] at hemits
  · rintro (hreality | hdialable) ips host port p hp
    · have hopens : (dialViaIps crates draws node ips host port).Opens DialAct.isReality
          (fun _ => True) (fun _ => False) := opens_reality h hreality
      cases hfind : ((dialViaIps crates draws node ips host port).run p).2.find? DialAct.isReality with
      | none => exact ((opens_iff.mp hopens p).2 () hfind hp).elim
      | some a => exact ⟨a, List.mem_of_find?_eq_some hfind, List.find?_some hfind⟩
    · have hcan : (dialViaIps crates draws node ips host port).Can fun _ => True :=
        can_iff.mpr ⟨p, (), hp, trivial⟩
      cases hips : dialIp ips with
      | none =>
          simp [dialViaIps, hips] at hcan
      | some ip => exact absurd ((can_dialViaIps (hip ip) hlaw h hips).mp hcan).1 hdialable

end

/-- Every dial of a listed node gives it the encryption that it asks for, if and only if the node is
no SOCKS5 or HTTP proxy with TLS, and REALITY is asked for by a VLESS node with a public key or by
one that cannot be dialed. -/
theorem ProxyNode.encrypts_iff (crates : Crates) (dialCrates : DialCrates) (draws : DialDraws)
    {raw : Bytes} {nodes : List ProxyNode} {node : ProxyNode}
    (hip : ∀ ip : IpAddr, dialCrates.serverName ip.toText = true)
    (hlaw : ∀ key, (dialCrates.tls.aes256Gcm key).Lawful 16)
    (hparse : NodeCatalog.parse crates raw = .ok nodes) (hnode : node ∈ nodes) :
    (∀ ips host port p, node.Encrypts ((dialViaIps dialCrates draws node ips host port).run p)) ↔
      (node.tls → ¬ node.Bare) ∧ (oneOf (NodeFilter.resolveSecurity node) ["reality"] →
        node.UsesReality ∨ ¬ node.Dialable dialCrates) := by
  have h : Listed node := listed_of_lists (NodeCatalog.lists_parse hparse) node hnode
  constructor
  · intro hencrypts
    refine ⟨fun htls => ?_, fun hreality => ?_⟩
    · exact (tls_iff h htls).mp fun ips host port p => (hencrypts ips host port p).tls htls
    · exact (reality_iff hip hlaw h).mp fun ips host port p =>
        (hencrypts ips host port p).reality hreality
  · rintro ⟨htls, hreality⟩ ips host port p
    exact ⟨fun ht => (tls_iff h ht).mpr (htls ht) ips host port p,
      fun hr => (reality_iff hip hlaw h).mpr (hreality hr) ips host port p⟩

/-- An HTTP proxy with TLS. -/
def httpsYaml : Bytes :=
  bytes "proxies:\n- \x7bname: a, type: http, server: h, port: 443, tls: true\x7d".toList

def httpsNode : ProxyNode where
  name := "a".toList
  typeName := "http".toList
  server := "h".toList
  port := 443
  tls := true
  security := some "tls".toList

theorem parse_httpsYaml : NodeCatalog.parse noCrates httpsYaml = .ok [httpsNode] := by
  decide +kernel

theorem ProxyNode.encrypts_iff_https : ¬ ∀ ips host port p,
    httpsNode.Encrypts ((dialViaIps .sums .zeros httpsNode ips host port).run p) := by
  intro hencrypts
  have hnode := (ProxyNode.encrypts_iff noCrates .sums .zeros serverName_sums keyTagged_lawful
    parse_httpsYaml List.mem_cons_self).mp hencrypts
  exact hnode.1 rfl rfl

/-- The request, with the host that is asked for, goes out in clear. -/
theorem ProxyNode.not_encrypts : ¬ ∀ (crates : Crates) (dialCrates : DialCrates) (draws : DialDraws)
    (raw : Bytes) (nodes : List ProxyNode) (node : ProxyNode),
    (∀ ip : IpAddr, dialCrates.serverName ip.toText = true) →
      (∀ key, (dialCrates.tls.aes256Gcm key).Lawful 16) →
      NodeCatalog.parse crates raw = .ok nodes → node ∈ nodes → ∀ ips host port p,
        node.Encrypts ((dialViaIps dialCrates draws node ips host port).run p) := by
  intro h
  have hencrypts := h noCrates .sums .zeros _ _ _ serverName_sums keyTagged_lawful parse_httpsYaml
    List.mem_cons_self [.v4 ⟨1, 2, 3, 4⟩] "b.example".toList 80 ⟨[], [], .anyhow ""⟩
  have hfirst := hencrypts.tls rfl
    (.write (HttpConnect.request .sums ⟨none, none⟩ "b.example".toList 80)) rfl
  cases hfirst

end RustClash
