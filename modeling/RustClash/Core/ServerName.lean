import RustClash.Core.Outbound
import RustClash.Proxynet.DialActs

/-!
# The name of a server

What a dial calls the server of a node, in the handshake of its security layer and in
the upgrade request, and for which nodes that is the name of the node whatever address
was dialed.
-/

namespace RustClash

open Str Config Script Dial

variable {crates : DialCrates} {draws : DialDraws} {node : ProxyNode}

/-! ## Names -/

/-- The first text that is not empty. -/
def firstFilled (texts : List Str) : Str := (texts.find? (!·.isEmpty)).getD []

/-- What the server of a node is called. -/
def ProxyNode.calls (node : ProxyNode) : Str :=
  firstFilled [node.serverName.getD [], node.wsHost.getD [], node.server]

def ProxyNode.Called (node : ProxyNode) (name : Str) : Prop := name = node.calls ∧ name ≠ []

/-- The act calls the server what it is called, where it is the node that says so. -/
def DialAct.Calls (node : ProxyNode) : DialAct → Prop
  | .tls name _ _ => node.Called name
  | .reality name _ _ _ => node.Called name
  | .upgrade _ host _ => node.wsHost.getD [] = [] → node.Called host
  | _ => True

/-- The node has a security layer. -/
def ProxyNode.Secured (node : ProxyNode) : Prop :=
  oneOf (toLower node.typeName) ["vless"] ∧ (hasPublicKey node ∨ node.tls) ∨
    oneOf (toLower node.typeName) ["trojan"] ∨
    oneOf (toLower node.typeName) ["ss", "shadowsocks", "vmess"] ∧ node.tls

/-- The dial is over before the handshake. -/
def ProxyNode.TurnedDown (node : ProxyNode) : Prop :=
  oneOf (toLower node.typeName) ["vless", "trojan"] ∧ resolveTransport (net node) = .unsupported ∨
    oneOf (toLower node.typeName) ["vless"] ∧ node.UnknownFlow

/-- The node has a name for its server: of the name and the host that are there the first is
not empty, and without them the server is an address in the form it prints in. -/
def ProxyNode.NamesServer (node : ProxyNode) : Prop :=
  match node.serverName, node.wsHost with
  | some name, _ => name ≠ []
  | none, some host => host ≠ []
  | none, none => ∃ ip, literalIp node.server = some ip ∧ ip.toText = node.server

/-- The host of an upgrade request falls back on what the handshake says. -/
theorem ProxyNode.Called.header {ip : Str}
    (h : node.Called (sniOrHost node.serverName node.wsHost ip)) (hhost : node.wsHost.getD [] = []) :
    node.Called (resolveHostHeader node.wsHost node.serverName ip) := by
  have hsame : resolveHostHeader node.wsHost node.serverName ip =
      sniOrHost node.serverName node.wsHost ip := by
    have hne := h.2
    cases hs : node.serverName with
    | some name =>
        rw [hs] at hne
        have hempty : name.isEmpty = false := List.isEmpty_eq_false_iff.mpr hne
        have hname : (some name).filter (fun s : Str => !s.isEmpty) = some name := by
          rw [Option.filter, hempty]
          rfl
        cases hw : node.wsHost with
        | some host =>
            rw [hw] at hhost
            have hempty : host = [] := hhost
            rw [resolveHostHeader, hname, hempty]
            rfl
        | none =>
            rw [resolveHostHeader, hname]
            rfl
    | none =>
        cases hw : node.wsHost with
        | some host =>
            rw [hs, hw] at hne
            rw [hw] at hhost
            exact absurd hhost hne
        | none => rfl
  exact hsame ▸ h

/-- Nothing but a handshake and an upgrade calls the server anything. -/
theorem DialAct.calls_of_inner {a : DialAct} (h : a.inner) : a.Calls node := by
  cases a <;> trivial

/-! ## The layers of each protocol -/

section

variable {ip : Str} {Q : Unit → Prop}

theorem calls_tlsWrap {insecure : Bool} {alpn : List Str}
    (hQ : node.Called (sniOrHost node.serverName node.wsHost ip) → Q ()) :
    (tlsWrap crates (sniOrHost node.serverName node.wsHost ip) insecure alpn).Emits
      (DialAct.Calls node) Q ↔ node.Called (sniOrHost node.serverName node.wsHost ip) := by
  rw [emits_tlsWrap]
  exact ⟨And.left, fun h => ⟨h, fun _ => ⟨trivial, hQ h⟩⟩⟩

theorem calls_vlessSecure (hsec : hasPublicKey node ∨ node.tls)
    (hQ : node.Called (sniOrHost node.serverName node.wsHost ip) → Q ()) :
    (vlessSecure crates draws (toVless node ip)).Emits (DialAct.Calls node) Q ↔
      node.Called (sniOrHost node.serverName node.wsHost ip) := by
  cases hkey : hasPublicKey node with
  | true =>
      have hreality : (toVless node ip).security = .reality := if_pos hkey
      rw [vlessSecure, hreality]
      exact emits_realityWrap.trans ⟨And.left, fun h => ⟨h, fun _ _ => ⟨trivial, hQ h⟩⟩⟩
  | false =>
      have htls : node.tls = true := hsec.resolve_left (by simp [hkey])
      have hsecurity : (toVless node ip).security = .tls := by simp [toVless, hkey, htls]
      rw [vlessSecure, hsecurity]
      exact calls_tlsWrap hQ

theorem calls_transport {kind : TransportKind} {path : Option Str}
    (h : node.Called (sniOrHost node.serverName node.wsHost ip)) (hQ : Q ()) :
    (applyTransport kind path (resolveHostHeader node.wsHost node.serverName ip)).Emits
      (DialAct.Calls node) Q :=
  emits_applyTransport (fun _ _ hhost => h.header hhost) hQ

theorem calls_layerTransport {insecure : Bool} {alpn : List Str} {transport : Str}
    {path : Option Str} (hQ : Q ()) :
    (layerTransport crates true (sniOrHost node.serverName node.wsHost ip) insecure alpn transport
      path node.wsHost ip node.serverName).Emits (DialAct.Calls node) Q ↔
      node.Called (sniOrHost node.serverName node.wsHost ip) := by
  rw [layerTransport, emits_bind, if_pos rfl]
  refine calls_tlsWrap fun h => ?_
  split
  · exact emits_fail.mpr trivial
  · exact calls_transport h hQ

end

theorem calls_dialVless {ip host : Str} {port : UInt16} (hsec : hasPublicKey node ∨ node.tls) :
    (dialVless crates draws (toVless node ip) host port).Emits (DialAct.Calls node) (fun _ => True) ↔
      (vlessChecks (toVless node ip) = .ok () →
        node.Called (sniOrHost node.serverName node.wsHost ip)) := by
  rw [dialVless, emits_bind, emits_ofExcept, Unique.forall_iff]
  refine imp_congr_right fun _ => ?_
  rw [emits_bind]
  refine calls_vlessSecure hsec fun h => ?_
  rw [emits_bind]
  exact calls_transport h (emits_establishVless DialAct.calls_of_inner _ host port)

theorem calls_dialTrojan {ip host : Str} {port : UInt16} :
    (dialTrojan crates (toTrojan node ip) host port).Emits (DialAct.Calls node) (fun _ => True) ↔
      (resolveTransport (net node) ≠ .unsupported →
        node.Called (sniOrHost node.serverName node.wsHost ip)) := by
  have htransport : (toTrojan node ip).transport = net node := rfl
  simp only [dialTrojan, htransport]
  split
  · next h => simp [h]
  · next h =>
      rw [emits_bind]
      refine (calls_tlsWrap fun hc => ?_).trans ⟨fun hc _ => hc, fun hc => hc h⟩
      rw [emits_bind]
      exact calls_transport hc (emits_establishTrojan DialAct.calls_of_inner _ host port)

/-! ## Which nodes name their server -/

/-- A dial through any of the addresses calls the server by the name of the dialed one, unless
it is over before. -/
theorem calls_dialViaIps {ips : List IpAddr} {host : Str} {port : UInt16} (hsec : node.Secured) :
    (dialViaIps crates draws node ips host port).Emits (DialAct.Calls node) (fun _ => True) ↔
      ∀ ip, dialIp ips = some ip → ¬ node.TurnedDown →
        node.Called (sniOrHost node.serverName node.wsHost ip.toText) := by
  rw [dialViaIps, emits_bind, emits_perform,
    and_iff_right (show DialAct.Calls node (.connect ips node.port) from trivial)]
  cases hip : dialIp ips with
  | none => simp
  | some ip =>
      simp only [Option.some.injEq, forall_eq', emits_bind, emits_ofExcept, emits_mapError]
      rcases hsec with ⟨hty, hsec⟩ | hty | ⟨hty, htls⟩
      · rw [toKind_vless hty]
        simp only [Except.ok.injEq, forall_eq', dial]
        rw [calls_dialVless hsec, vlessChecks_toVless]
        simp [ProxyNode.TurnedDown, hty, oneOf_mono hty (b := ["vless", "trojan"]) (by simp)]
      · rw [toKind_trojan hty]
        simp only [Except.ok.injEq, forall_eq', dial]
        rw [calls_dialTrojan]
        simp [ProxyNode.TurnedDown, oneOf_mono hty (b := ["vless", "trojan"]) (by simp),
          not_oneOf hty (b := ["vless"]) (by simp)]
      · have hturned : ¬ node.TurnedDown := by
          simp [ProxyNode.TurnedDown, not_oneOf hty (b := ["vless", "trojan"]) (by simp),
            not_oneOf hty (b := ["vless"]) (by simp)]
        have hkinds : oneOf (toLower node.typeName) ["ss", "shadowsocks"] ∨
            oneOf (toLower node.typeName) ["vmess"] := oneOf_append.mp hty
        rw [imp_iff_right hturned]
        rcases hkinds with hty | hty
        · rw [toKind_ss hty]
          simp only [Except.ok.injEq, forall_eq', dial]
          rw [emits_bind, show (toSs node ip.toText).tls = true from htls]
          exact calls_layerTransport (emits_dialSs DialAct.calls_of_inner _ host port)
        · rw [toKind_vmess hty]
          simp only [Except.ok.injEq, forall_eq', dial]
          rw [emits_bind, show (toVmess node ip.toText).tls = true from htls]
          exact calls_layerTransport (emits_dialVmess DialAct.calls_of_inner _ host port)

/-- Two addresses that do not print alike. -/
theorem toText_ne : (IpAddr.v4 ⟨0, 0, 0, 0⟩).toText ≠ (IpAddr.v4 ⟨1, 1, 1, 1⟩).toText := by decide

theorem calls_of_serverName {name : Str} (h : node.serverName = some name) (hne : name ≠ []) :
    node.calls = name := by
  have hempty : name.isEmpty = false := List.isEmpty_eq_false_iff.mpr hne
  simp [ProxyNode.calls, firstFilled, h, hempty]

theorem calls_of_wsHost {host : Str} (hname : node.serverName = none) (h : node.wsHost = some host)
    (hne : host ≠ []) : node.calls = host := by
  have hempty : host.isEmpty = false := List.isEmpty_eq_false_iff.mpr hne
  simp [ProxyNode.calls, firstFilled, hname, h, hempty]

theorem calls_of_none (hname : node.serverName = none) (hhost : node.wsHost = none) :
    node.calls = node.server := by
  rw [ProxyNode.calls, hname, hhost]
  cases hserver : node.server <;> rfl

/-- What a dial calls the server does not depend on the address, if and only if the node names
its server. -/
theorem called_iff (node : ProxyNode) :
    (∀ doh ips ip, resolveHost doh node.server = .ok ips → dialIp ips = some ip →
      node.Called (sniOrHost node.serverName node.wsHost ip.toText)) ↔ node.NamesServer := by
  have hresolved : ∃ doh ip, resolveHost doh node.server = .ok [ip] := by
    cases hip : literalIp node.server with
    | some ip => exact ⟨fun _ => .ok [], ip, resolveHost_literal _ hip⟩
    | none => exact ⟨_, .v4 ⟨0, 0, 0, 0⟩, resolveHost_single hip⟩
  obtain ⟨doh, ip, hdoh⟩ := hresolved
  rw [ProxyNode.NamesServer]
  cases hname : node.serverName with
  | some name =>
      constructor
      · intro h
        exact (h doh [ip] ip hdoh (dialIp_singleton ip)).2
      · intro hne _ _ _ _ _
        exact ⟨(calls_of_serverName hname hne).symm, hne⟩
  | none =>
    cases hhost : node.wsHost with
    | some host =>
        constructor
        · intro h
          exact (h doh [ip] ip hdoh (dialIp_singleton ip)).2
        · intro hne _ _ _ _ _
          exact ⟨(calls_of_wsHost hname hhost hne).symm, hne⟩
    | none =>
        have hcalls := calls_of_none hname hhost
        constructor
        · intro h
          have hsingle {doh : Str → Except String (List IpAddr)} {ip : IpAddr}
              (hdoh : resolveHost doh node.server = .ok [ip]) : ip.toText = node.server :=
            hcalls ▸ (h doh [ip] ip hdoh (dialIp_singleton ip)).1
          cases hip : literalIp node.server with
          | some ip => exact ⟨ip, rfl, hsingle (resolveHost_literal doh hip)⟩
          | none =>
              -- Of two addresses that do not print alike, one does not print as the server.
              exact absurd ((hsingle (resolveHost_single hip)).trans
                (hsingle (resolveHost_single hip)).symm) toText_ne
        · rintro ⟨ip, hip, heq⟩ doh ips ip' hips hip'
          rw [resolveHost_literal doh hip] at hips
          cases hips
          rw [dialIp_singleton] at hip'
          cases hip'
          refine ⟨heq.trans hcalls.symm, fun hempty => ?_⟩
          have hserver : node.server = [] := heq ▸ hempty
          rw [hserver] at hip
          cases hip

/-- Whatever the server is resolved to and however a dial goes on, it calls the server what it is
called, if and only if it is turned down before it does or the node names the server. -/
theorem ProxyNode.calls_iff (crates : DialCrates) (draws : DialDraws) (node : ProxyNode)
    (hsec : node.Secured) :
    (∀ doh ips, resolveHost doh node.server = .ok ips → ∀ host port p,
      ∀ a ∈ ((dialViaIps crates draws node ips host port).run p).2, a.Calls node) ↔
      node.TurnedDown ∨ node.NamesServer := by
  have hemits (ips : List IpAddr) (host : Str) (port : UInt16) :
      (∀ p, ∀ a ∈ ((dialViaIps crates draws node ips host port).run p).2, a.Calls node) ↔
        ∀ ip, dialIp ips = some ip → ¬ node.TurnedDown →
          node.Called (sniOrHost node.serverName node.wsHost ip.toText) := by
    have hcalls : (dialViaIps crates draws node ips host port).Emits (DialAct.Calls node)
        (fun _ => True) ↔ _ := calls_dialViaIps hsec
    rw [← hcalls, emits_iff]
    simp
  rw [or_iff_not_imp_left, ← called_iff]
  constructor
  · intro h hturned doh ips ip hips hip
    exact (hemits ips [] 0).mp (h doh ips hips [] 0) ip hip hturned
  · intro h doh ips hips host port
    exact (hemits ips host port).mpr fun ip hip hturned => h hturned doh ips ip hips hip

/-- A node with TLS that has nothing but a server. -/
def namelessNode : ProxyNode where
  typeName := "trojan".toList
  server := "a.example".toList
  port := 443
  password := some "secret".toList
  tls := true

theorem ProxyNode.calls_iff_nameless : ¬ (∀ doh ips, resolveHost doh namelessNode.server = .ok ips →
    ∀ host port p,
      ∀ a ∈ ((dialViaIps .sums .zeros namelessNode ips host port).run p).2, a.Calls namelessNode) :=
  fun h => by
    rcases (ProxyNode.calls_iff .sums .zeros namelessNode (.inr (.inl rfl))).mp h with
      (⟨-, hkind⟩ | ⟨hty, -⟩) | ⟨ip, hip, -⟩
    · exact absurd hkind (by decide)
    · exact absurd hty (by decide)
    · cases hip

/-- The certificate is looked up under the address. -/
theorem ProxyNode.not_calls : ¬ ∀ (crates : DialCrates) (draws : DialDraws) (node : ProxyNode),
    node.Secured → ∀ doh ips, resolveHost doh node.server = .ok ips → ∀ host port p,
      ∀ a ∈ ((dialViaIps crates draws node ips host port).run p).2, a.Calls node := by
  intro h
  have htls := h .sums .zeros namelessNode (.inr (.inl rfl)) (fun _ => .ok [.v4 ⟨1, 2, 3, 4⟩])
    [.v4 ⟨1, 2, 3, 4⟩] (by decide) "b.example".toList 80 ⟨[], [], .anyhow ""⟩
    (.tls "1.2.3.4".toList false []) (List.mem_cons_of_mem _ List.mem_cons_self)
  exact absurd htls.1 (by decide)

end RustClash
