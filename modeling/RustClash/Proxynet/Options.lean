import RustClash.Config.Node

/-!
# Options of an outbound

What a dial is told about the proxy, one record for each protocol.  `host` is the
address that was dialed; `sni_or_host` and `resolve_host_header` fall back on it.
-/

namespace RustClash

open Str Config

inductive VlessSecurity where
  | none
  | tls
  | reality
deriving DecidableEq, Repr

/-- `realityPublicKey` and `realityShortId` are read for `reality` only. -/
structure VlessOptions where
  id : Str
  host : Str
  port : UInt16
  security : VlessSecurity
  transport : Str
  path : Option Str
  hostHeader : Option Str
  sni : Option Str
  alpn : List Str
  flow : Option Str
  fingerprint : Option Str
  realityPublicKey : Option Str
  realityShortId : Option Str
  allowInsecure : Bool

structure TrojanOptions where
  password : Str
  host : Str
  port : UInt16
  transport : Str
  path : Option Str
  hostHeader : Option Str
  sni : Option Str
  alpn : List Str
  allowInsecure : Bool

/-- `tls` is set by the node, as Shadowsocks has no security of its own. -/
structure SsOptions where
  method : Str
  password : Str
  host : Str
  port : UInt16
  plugin : Option Str
  pluginOpts : Option Str
  transport : Str
  path : Option Str
  hostHeader : Option Str
  sni : Option Str
  alpn : List Str
  allowInsecure : Bool
  tls : Bool

/-- `security` is the cipher of the body; `tls` is the layer below. -/
structure VmessOptions where
  id : Str
  security : Str
  alterId : UInt16
  host : Str
  port : UInt16
  transport : Str
  path : Option Str
  hostHeader : Option Str
  sni : Option Str
  alpn : List Str
  allowInsecure : Bool
  tls : Bool

structure SocksOptions where
  username : Option Str
  password : Option Str

/-- A proxy that is spoken to with `CONNECT`. -/
structure HttpProxyOptions where
  username : Option Str
  password : Option Str

/-- The protocol of an outbound and its options. -/
inductive OutboundKind where
  | vless (options : VlessOptions)
  | trojan (options : TrojanOptions)
  | shadowsocks (options : SsOptions)
  | vmess (options : VmessOptions)
  | socks5 (options : SocksOptions)
  | http (options : HttpProxyOptions)

/-- An empty text counts as one. -/
def sniOrHost (sni hostHeader : Option Str) (host : Str) : Str := (sni <|> hostHeader).getD host

def VlessOptions.sniOrHost (o : VlessOptions) : Str := RustClash.sniOrHost o.sni o.hostHeader o.host
def TrojanOptions.sniOrHost (o : TrojanOptions) : Str :=
  RustClash.sniOrHost o.sni o.hostHeader o.host
def SsOptions.sniOrHost (o : SsOptions) : Str := RustClash.sniOrHost o.sni o.hostHeader o.host
def VmessOptions.sniOrHost (o : VmessOptions) : Str := RustClash.sniOrHost o.sni o.hostHeader o.host

namespace VmessOptions

/-- A client with no alter id asks for the AEAD header. -/
def aead (o : VmessOptions) : Bool := o.alterId = 0

/-- The cipher by its own name; one that is not known stays as it is and is refused later. -/
def bodySecurity (o : VmessOptions) : Str :=
  let security := toLower (trim o.security)
  if oneOf security ["aes-128-gcm", "auto", ""] then "aes-128-gcm".toList
  else if oneOf security ["chacha20-poly1305", "chacha20-ietf-poly1305"] then
    "chacha20-poly1305".toList
  else security

end VmessOptions

/-! ## Transports -/

inductive TransportKind where
  | rawTcp
  | webSocket
  | httpUpgrade
  | unsupported
deriving DecidableEq, Repr

/-- The name of a transport in any case; no name is raw TCP. -/
def resolveTransport (transport : Str) : TransportKind :=
  let lower := toLower transport
  if transport.isEmpty then .rawTcp
  else if oneOf lower ["tcp", "raw"] then .rawTcp
  else if oneOf lower ["ws", "websocket"] then .webSocket
  else if oneOf lower ["httpupgrade"] then .httpUpgrade
  else .unsupported

/-- A path begins with a slash. -/
def normalizePath (path : Option Str) : Str :=
  match path with
  | none => "/".toList
  | some p => if p.isEmpty then "/".toList else if startsWith '/' p then p else '/' :: p

/-- An empty text does not count. -/
def resolveHostHeader (hostHeader sni : Option Str) (serverHost : Str) : Str :=
  (hostHeader.filter (!·.isEmpty) <|> sni.filter (!·.isEmpty)).getD serverHost

end RustClash
