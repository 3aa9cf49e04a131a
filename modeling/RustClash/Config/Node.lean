import RustClash.Core.Str
import RustClash.Lib.FinMap

/-!
# Proxy nodes

`ProxyNode` as every source of nodes fills it in, and what is done to the nodes of
a list before it is shown: `NodeFilter` keeps the ones the program can dial, and
their transport and plugin are brought into one form.
-/

namespace RustClash

structure ProxyNode where
  name : Str := []
  typeName : Str := []
  server : Str := []
  port : UInt16 := 0
  uuid : Option Str := none
  password : Option Str := none
  tls : Bool := false
  serverName : Option Str := none
  flow : Option Str := none
  network : Str := "tcp".toList
  clientFingerprint : Option Str := none
  realityPublicKey : Option Str := none
  realityShortId : Option Str := none
  skipCertVerify : Bool := false
  wsPath : Option Str := none
  wsHost : Option Str := none
  security : Option Str := none
  cipher : Option Str := none
  username : Option Str := none
  plugin : Option Str := none
  pluginOpts : Option Str := none
  alterId : UInt16 := 0
deriving DecidableEq, Repr

namespace Config

open Str

/-- The text is one of the literals. -/
def oneOf (s : Str) (literals : List String) : Bool := literals.any fun t => s = t.toList

abbrev YamlMap := FinMap Str Str

def normalizeType (ty : Str) : Str :=
  let ty := toLower (trim ty)
  if oneOf ty ["shadowsocks", "ss"] then "ss".toList
  else if oneOf ty ["socks", "socks5"] then "socks5".toList
  else if oneOf ty ["https"] then "http".toList
  else ty

def knownTypes : List String := ["vless", "trojan", "ss", "vmess", "socks5", "http"]

/-- `websocket` is another name of `ws`. -/
def wsName (network : Str) : Str := if oneOf network ["websocket"] then "ws".toList else network

def parseBool (s : Option Str) : Bool :=
  s.any fun s => eqIgnoreCase s "true".toList || s = "1".toList || eqIgnoreCase s "yes".toList

def isTruthy (s : Option Str) : Bool := s.any fun s => oneOf s ["1", "true", "True", "yes"]

/-- The value of a key in a list of options separated by `;` or `&`. -/
def optFromPlugin (opts : Option Str) (key : String) : Option Str := do
  let opts ← opts
  ((split (fun c => c = ';' || c = '&') opts).filterMap (splitOnce '=')).findSome? fun (k, v) =>
    if eqIgnoreCase k key.toList then some v else none

/-! ## The filter -/

/-- `clash_proxynet::ss_supported_cipher`. -/
def ssSupportedCipher (name : Str) : Bool :=
  oneOf (toLower (trim name)) ["aes-128-gcm", "aead_aes_128_gcm", "aes-256-gcm", "aead_aes_256_gcm",
    "chacha20-ietf-poly1305", "chacha20-poly1305", "aead_chacha20_ietf_poly1305"]

namespace NodeFilter

def resolveSecurity (node : ProxyNode) : Str :=
  match node.security.filter (!·.isEmpty) with
  | some s => toLower (trim s)
  | none =>
      if node.realityPublicKey.any (!·.isEmpty) then "reality".toList
      else if node.tls then "tls".toList
      else "none".toList

def ssPluginOk (node : ProxyNode) : Bool :=
  let plugin := toLower (trim (node.plugin.getD []))
  plugin.isEmpty || oneOf plugin ["none", "obfs", "obfs-local", "simple-obfs", "v2ray-plugin"]

/-- The field is there and not blank. -/
def filled (s : Option Str) : Bool := !(trim (s.getD [])).isEmpty

def accept (node : ProxyNode) : Bool :=
  let ty := normalizeType node.typeName
  let network := wsName (toLower (trim node.network))
  if oneOf network ["grpc", "xhttp", "h2", "quic"] then false
  else if !oneOf network ["tcp", "ws", "httpupgrade", "raw", ""] then false
  else if oneOf ty ["vless"] then
    let flow := trim (node.flow.getD [])
    if !oneOf (resolveSecurity node) ["none", "tls", "reality"] then false
    else if !flow.isEmpty ∧ !eqIgnoreCase flow "xtls-rprx-vision".toList then false
    else filled node.uuid
  else if oneOf ty ["trojan"] then filled node.password
  else if oneOf ty ["ss"] then
    filled node.password &&
      ssSupportedCipher (trim (node.cipher.getD "aes-256-gcm".toList)) && ssPluginOk node
  else if oneOf ty ["vmess"] then filled node.uuid
  else oneOf ty ["socks5", "http"]

end NodeFilter

def normalizeNetwork (n : ProxyNode) : ProxyNode :=
  let net := wsName (toLower (trim n.network))
  if oneOf net ["httpupgrade"] then { n with network := "httpupgrade".toList }
  else { n with network := if oneOf net ["ws"] then net else "tcp".toList }

def normalizeSsPlugin (n : ProxyNode) : ProxyNode :=
  if !oneOf (toLower (n.plugin.getD [])) ["v2ray-plugin"] then n
  else { n with
    network := "ws".toList
    tls := n.tls || (optFromPlugin n.pluginOpts "tls").any fun v => oneOf v ["true", "1"]
    wsPath := n.wsPath <|> optFromPlugin n.pluginOpts "path"
    wsHost := n.wsHost <|> optFromPlugin n.pluginOpts "host" <|>
      optFromPlugin n.pluginOpts "obfs-host"
    plugin := none
    pluginOpts := none }

def filterAll (nodes : List ProxyNode) : List ProxyNode :=
  ((nodes.filter NodeFilter.accept).map normalizeNetwork).map normalizeSsPlugin

end Config

end RustClash
