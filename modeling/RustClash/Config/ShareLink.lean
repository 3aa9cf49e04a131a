import Mathlib.Algebra.Group.Nat.Defs
import RustClash.Config.Json
import RustClash.Config.Percent

/-!
# Share links

One parser for each scheme.  What other crates do to a text, and the order in which a
hash map yields its entries, are the fields of `Crates`.  Each map is made with a key of its
own, and two maps with the same entries may yield them in different orders.
-/

namespace RustClash

/-- `url::Url`, as its accessors show it. -/
structure Url where
  scheme : Str
  username : Str
  password : Option Str
  hostStr : Option Str
  port : Option UInt16
  path : Str
  query : Option Str
  fragment : Option Str

structure Crates where
  /-- `url::Url::parse`. -/
  parseUrl : Str → Option Url
  /-- The standard engine of `base64`. -/
  decodeBase64 : Str → Option Bytes
  /-- `serde_json::from_str`. -/
  parseJson : Str → Option Config.Json
  /-- The entries of a map as an iteration over it yields them, by the key that it was made
  with. -/
  orderOf : Nat → FinMap Str Str → List (Str × Str)
  /-- The key of the next map. -/
  mapKey : Nat

/-- The order of the next map. -/
def Crates.hashOrder (crates : Crates) : FinMap Str Str → List (Str × Str) :=
  crates.orderOf crates.mapKey

/-- After so many maps. -/
def Crates.after (crates : Crates) (n : Nat) : Crates := { crates with mapKey := crates.mapKey + n }

namespace Config

open Str Checked

abbrev Query := FinMap Str Str

def parseQuery (q : Str) : Query :=
  let q := (stripPrefix "?".toList q).getD q
  ((split (· = '&') q).filter (!·.isEmpty)).foldl (fun map part =>
    match splitOnce '=' part with
    | some (k, v) => map.insert (toLower (urlDecode k)) (urlDecode v)
    | none => map.insert (urlDecode part) []) ∅

namespace Query

def get (qs : Query) (key : String) : Option Str := qs.lookup key.toList

/-- `type`, or `network`. -/
def network (qs : Query) : Str :=
  wsName (toLower ((qs.get "type" <|> qs.get "network").getD "tcp".toList))

end Query

namespace Url

/-- The fragment, or the host if there is none. -/
def name (uri : Url) : Str :=
  ((uri.fragment.map urlDecode).filter (!·.isEmpty)).getD (uri.hostStr.getD [])

/-- The port if it is not zero. -/
def portOr443 (uri : Url) : UInt16 := if 0 < uri.port.getD 0 then uri.port.getD 0 else 443

end Url

def parseVless (crates : Crates) (url : Str) : Option ProxyNode := do
  let uri ← crates.parseUrl url
  let qs := parseQuery (uri.query.getD [])
  let pbk := qs.get "pbk"
  let security := if pbk.any (!·.isEmpty) then "reality".toList
    else toLower (trim ((qs.get "security").getD "none".toList))
  let name := Url.name uri
  let server ← uri.hostStr
  return {
    name := if (trim name).isEmpty then server else name
    typeName := "vless".toList
    server
    port := Url.portOr443 uri
    uuid := some (urlDecode uri.username)
    tls := oneOf security ["tls", "reality"]
    serverName := qs.get "sni" <|> qs.get "servername"
    flow := qs.get "flow"
    network := qs.network
    clientFingerprint := qs.get "fp"
    realityPublicKey := pbk
    realityShortId := qs.get "sid"
    skipCertVerify := isTruthy (qs.get "allowinsecure" <|> qs.get "insecure")
    wsPath := qs.get "path"
    wsHost := qs.get "host"
    security := some security }

def parseTrojan (crates : Crates) (url : Str) : Option ProxyNode := do
  let uri ← crates.parseUrl url
  let qs := parseQuery (uri.query.getD [])
  let security := toLower ((qs.get "security").getD "tls".toList)
  let server ← uri.hostStr
  return {
    name := Url.name uri
    typeName := "trojan".toList
    server
    port := Url.portOr443 uri
    password := some (urlDecode uri.username)
    tls := !oneOf security ["none"]
    serverName := qs.get "sni" <|> qs.get "servername"
    network := qs.network
    clientFingerprint := qs.get "fp"
    skipCertVerify := isTruthy (qs.get "allowinsecure" <|> qs.get "insecure")
    wsPath := qs.get "path"
    wsHost := qs.get "host"
    security := some security }

/-! ## Shadowsocks -/

/-- The text with `=` up to a multiple of four bytes. -/
def pad (s : Str) : Str :=
  let m := byteLen s % 4
  if m = 0 then s else s ++ List.replicate (4 - m) '='

/-- The alphabet for file names turned into the standard one. -/
def standardAlphabet (s : Str) : Str :=
  replaceAll "_".toList "/".toList (replaceAll "-".toList "+".toList s)

def decodeB64Url (crates : Crates) (s : Str) : Option Str := do
  let bytes ← crates.decodeBase64 (pad s) <|> crates.decodeBase64 (pad (standardAlphabet s))
  fromUtf8 bytes

def decodeSsUserinfo (crates : Crates) (left : Str) : Option Str :=
  if contains ":".toList left then some (urlDecode left) else decodeB64Url crates left

def splitHostPortStr (s : Str) : Option (Str × UInt16) := do
  let s := trim s
  match stripPrefix "[".toList s with
  | some rest =>
      let (host, rest) ← splitOnce ']' rest
      return (host, ← parseU16 (rest.dropWhile (· = ':')))
  | none =>
      let (host, port) ← rsplitOnce ':' s
      return (host, ← parseU16 port)

/-- The user information, the address and the query of a link without its scheme and its
fragment. -/
def ssParts (crates : Crates) (body : Str) : Checked (Option (Str × Str × Str)) :=
  match rfind '@' body with
  | some i => do
      let (left, right) ← splitAt body i
      let right ← sliceFrom right 1
      let (hp, q) := (splitOnce '?' right).getD (right, [])
      return (decodeSsUserinfo crates left).map fun userinfo => (userinfo, hp, q)
  | none => .ok do
      let decoded ← decodeB64Url crates (body.filter (!isWhiteSpace ·))
      let (left, right) ← splitOnce '@' decoded
      return (left, right, [])

/-- The link without its scheme and its fragment. -/
def ssBody (url : Str) : Str :=
  let rest := (split (· = '#') url).headD url
  trimStartMatches "SS://".toList url.length (trimStartMatches "ss://".toList url.length rest)

/-- The plugin and its options. -/
def ssPlugin (crates : Crates) (qs : Query) : Option Str × Option Str :=
  match qs.get "plugin" with
  | none => (none, none)
  | some p =>
      match splitOnce ';' p with
      | some (name, opts) => (some name, some opts)
      | none =>
          let others := (crates.hashOrder qs).filter fun e => e.1 ≠ "plugin".toList
          (some p, if others.isEmpty then none
            else some (join ";".toList (others.map fun e => e.1 ++ '=' :: e.2)))

def parseSs (crates : Crates) (url : Str) : Checked (Option ProxyNode) := do
  let hash ← match find '#' url with
    | some i => (some ∘ urlDecode) <$> sliceFrom url (i + 1)
    | none => pure none
  let rest := (split (· = '#') url).headD url
  let body := trimStartMatches "ss://".toList url.length rest
  let parts ← ssParts crates (trimStartMatches "SS://".toList url.length body)
  return do
    let (userinfo, hostport, plugin) ← parts
    let (method, password) ← splitOnce ':' userinfo
    let (host, port) ← splitHostPortStr hostport
    let (plugin, pluginOpts) := ssPlugin crates (parseQuery plugin)
    return {
      name := (hash.filter (!·.isEmpty)).getD host
      typeName := "ss".toList
      server := host
      port
      password := some password
      cipher := some method
      plugin
      pluginOpts }

/-! ## VMess, SOCKS and HTTP -/

/-- A number, or a text that spells one out. -/
def juint (v : Json) (key : String) : Nat :=
  ((v.get key).bind fun p => p.asU64 <|> p.asStr.bind (parseNat (2 ^ 64))).getD 0

def parseVmess (crates : Crates) (url : Str) : Option ProxyNode := do
  let body := trimStartMatches "vmess://".toList url.length url
  let json ← decodeB64Url crates (trimStartMatches "VMESS://".toList url.length body)
  let v ← crates.parseJson json
  let server ← jstr v "add"
  let port : UInt16 := .ofNat (juint v "port")
  if server.isEmpty ∨ port = 0 then none
  let tls := (jstr v "tls").any fun s => !s.isEmpty && !eqIgnoreCase s "none".toList
  return {
    name := ((jstr v "ps").filter (!·.isEmpty)).getD server
    typeName := "vmess".toList
    server
    port
    uuid := jstr v "id"
    tls
    serverName := jstr v "sni"
    network := wsName (toLower ((jstr v "net").getD "tcp".toList))
    wsPath := jstr v "path"
    wsHost := jstr v "host"
    security := some (if tls then "tls".toList else "none".toList)
    cipher := jstr v "scy"
    alterId := .ofNat (juint v "aid") }

/-- A node that is only an address with credentials. -/
def plainNode (uri : Url) (typeName : String) (defaultPort : UInt16) (tls : Bool) :
    Option ProxyNode := do
  let host ← uri.hostStr
  let user := urlDecode uri.username
  return {
    name := ((uri.fragment.map urlDecode).filter (!·.isEmpty)).getD host
    typeName := typeName.toList
    server := host
    port := uri.port.getD defaultPort
    username := if user.isEmpty then none else some user
    password := uri.password.map urlDecode
    tls }

def parseSocksLink (crates : Crates) (url : Str) : Option ProxyNode := do
  let uri ← crates.parseUrl url
  plainNode uri "socks5" 1080 false

def parseHttpLink (crates : Crates) (url : Str) : Option ProxyNode := do
  let uri ← crates.parseUrl url
  if !oneOf uri.path ["/", ""] then none
  let https := oneOf uri.scheme ["https"]
  plainNode uri "http" (if https then 443 else 80) https

def parseShareLink (crates : Crates) (line : Str) : Checked (Option ProxyNode) :=
  let line := trim line
  let isScheme (scheme : String) : Bool := scheme.toList.isPrefixOf (toLower line)
  if isScheme "vless://" then .ok (parseVless crates line)
  else if isScheme "trojan://" then .ok (parseTrojan crates line)
  else if isScheme "ss://" then parseSs crates line
  else if isScheme "vmess://" then .ok (parseVmess crates line)
  else if isScheme "socks5://" || isScheme "socks://" then .ok (parseSocksLink crates line)
  else if isScheme "http://" || isScheme "https://" then .ok (parseHttpLink crates line)
  else .ok none

end Config

end RustClash
