import Mathlib.Algebra.Group.Int.Defs
import RustClash.Config.Node

/-!
# Nodes in JSON

The outbounds of Xray and sing-box and the servers of SIP008.  A JSON value is what
the parser of the text yields; `as u16` keeps the low 16 bits of a number.
-/

namespace RustClash

namespace Config

open Str

/-- `serde_json::Value`.  An integer is in the range of `i64` or of `u64`. -/
inductive Json where
  | null
  | bool (b : Bool)
  | int (n : Int)
  | float
  | string (s : Str)
  | array (vs : List Json)
  | object (fields : List (Str × Json))

namespace Json

/-- `Value::get` with a key. -/
def get (v : Json) (key : String) : Option Json :=
  match v with
  | .object fields => (fields.find? fun f => f.1 = key.toList).map (·.2)
  | _ => none

def asArray : Json → Option (List Json)
  | .array vs => some vs
  | _ => none

def asStr : Json → Option Str
  | .string s => some s
  | _ => none

def asBool : Json → Option Bool
  | .bool b => some b
  | _ => none

def asI64 : Json → Option Int
  | .int n => if n < 2 ^ 63 then some n else none
  | _ => none

def asU64 : Json → Option Nat
  | .int n => if 0 ≤ n then some n.toNat else none
  | _ => none

end Json

def jstr (v : Json) (key : String) : Option Str := (v.get key).bind Json.asStr

def jint (v : Json) (key : String) : Int := ((v.get key).bind Json.asI64).getD 0

/-- The value of a key if it is `true` or `false`. -/
def jbool (v : Json) (key : String) : Option Bool := (v.get key).bind Json.asBool

/-- The elements of a key if it is an array. -/
def jarray (v : Json) (key : String) : Option (List Json) := (v.get key).bind Json.asArray

/-- A name that is not blank, or the address. -/
def nameOr (tag : Option Str) (server : Str) : Str :=
  (tag.filter fun s => !(trim s).isEmpty).getD server

/-! ## Xray -/

/-- The address and the credentials of an outbound. -/
structure XrayServer where
  server : Str
  port : UInt16
  uuid : Option Str := none
  password : Option Str := none
  flow : Option Str := none
  cipher : Option Str := none
  alterId : UInt16 := 0
  username : Option Str := none

def xrayServer (protocol : Str) (settings : Json) : Option XrayServer :=
  if oneOf protocol ["vless", "vmess"] then do
    let v ← (← jarray settings "vnext").head?
    let server ← jstr v "address"
    let u ← (← jarray v "users").head?
    return {
      server
      port := .ofInt (jint v "port")
      uuid := jstr u "id"
      flow := jstr u "flow"
      cipher := jstr u "security" <|> jstr u "encryption"
      alterId := .ofNat (((u.get "alterId").bind Json.asU64).getD 0) }
  else if oneOf protocol ["ss"] then do
    let s := ((jarray settings "servers").bind List.head?).getD settings
    return {
      server := ← jstr s "address"
      port := .ofInt (jint s "port")
      password := jstr s "password"
      cipher := jstr s "method" }
  else if oneOf protocol ["socks5", "http"] then do
    let s := ((jarray settings "servers").bind List.head?).getD settings
    let users := (jarray s "users").bind List.head?
    return {
      server := ← jstr s "address"
      port := .ofInt (jint s "port")
      password := users.bind (jstr · "pass") <|> jstr s "password"
      username := users.bind (jstr · "user") <|> jstr s "user" }
  else do
    let s ← (← jarray settings "servers").head?
    return {
      server := ← jstr s "address"
      port := .ofInt (jint s "port")
      password := jstr s "password" }

/-- What the transport settings of an outbound say. -/
structure StreamSettings where
  network : Str := "tcp".toList
  sni : Option Str := none
  fp : Option Str := none
  pbk : Option Str := none
  sid : Option Str := none
  security : Str := "none".toList
  tls : Bool := false
  wsPath : Option Str := none
  wsHost : Option Str := none
  skip : Bool := false

/-- The settings of the security layer. -/
def xraySecurity (stream : Json) : StreamSettings :=
  let network := (jstr stream "network").getD "tcp".toList
  let security := toLower ((jstr stream "security").getD "none".toList)
  let st : StreamSettings := { network, security, tls := oneOf security ["tls", "reality"] }
  if oneOf security ["reality"] then
    match stream.get "realitySettings" with
    | some rs => { st with
        sni := jstr rs "serverName"
        fp := jstr rs "fingerprint"
        pbk := jstr rs "publicKey"
        sid := jstr rs "shortId" }
    | none => st
  else if oneOf security ["tls"] then
    match stream.get "tlsSettings" with
    | some ts => { st with
        sni := jstr ts "serverName"
        fp := jstr ts "fingerprint"
        skip := (jbool ts "allowInsecure").getD false }
    | none => st
  else st

def xrayStream (stream : Json) : StreamSettings :=
  let st := xraySecurity stream
  match if oneOf st.network ["ws", "websocket"] then stream.get "wsSettings" else none with
  | some ws => { st with
      network := "ws".toList
      wsPath := jstr ws "path"
      wsHost := (ws.get "headers").bind (jstr · "Host") }
  | none => st

def mapXray (ob : Json) : Option ProxyNode := do
  let protocol := normalizeType (← jstr ob "protocol")
  if !oneOf protocol knownTypes then none
  let settings ← ob.get "settings"
  let s ← xrayServer protocol settings
  if (trim s.server).isEmpty ∨ s.port = 0 then none
  let st := ((ob.get "streamSettings").map xrayStream).getD {}
  return {
    name := nameOr (jstr ob "tag") s.server
    typeName := protocol
    server := s.server
    port := s.port
    uuid := s.uuid
    password := s.password
    tls := st.tls
    serverName := st.sni
    flow := s.flow
    network := st.network
    clientFingerprint := st.fp
    realityPublicKey := st.pbk
    realityShortId := st.sid
    skipCertVerify := st.skip
    wsPath := st.wsPath
    wsHost := st.wsHost
    security := some st.security
    cipher := s.cipher
    username := s.username
    alterId := s.alterId }

/-! ## sing-box -/

def singboxTransport (tr : Json) : StreamSettings :=
  let network := toLower ((jstr tr "type").getD "tcp".toList)
  if oneOf network ["ws", "websocket"] then
    { network := "ws".toList
      wsPath := jstr tr "path"
      wsHost := (tr.get "headers").bind (jstr · "Host") }
  else { network }

def singboxTls (st : StreamSettings) (tls : Json) : StreamSettings :=
  if jbool tls "enabled" = some false then st
  else
    let st := { st with
      tls := true
      security := "tls".toList
      sni := jstr tls "server_name"
      fp := (tls.get "utls").bind (jstr · "fingerprint")
      skip := (jbool tls "insecure").getD false }
    match (tls.get "reality").filter fun r => jbool r "enabled" ≠ some false with
    | some r => { st with
        security := "reality".toList
        pbk := jstr r "public_key"
        sid := jstr r "short_id" }
    | none => st

def mapSingbox (ob : Json) : Option ProxyNode := do
  let ty := normalizeType (← jstr ob "type")
  if !oneOf ty knownTypes then none
  let server ← jstr ob "server"
  let port : UInt16 := .ofInt (jint ob "server_port")
  if (trim server).isEmpty ∨ port = 0 then none
  let st := ((ob.get "transport").map singboxTransport).getD {}
  let st := ((ob.get "tls").map (singboxTls st)).getD st
  return {
    name := nameOr (jstr ob "tag") server
    typeName := ty
    server
    port
    uuid := jstr ob "uuid"
    password := jstr ob "password"
    tls := st.tls
    serverName := st.sni
    flow := jstr ob "flow"
    network := st.network
    clientFingerprint := st.fp
    realityPublicKey := st.pbk
    realityShortId := st.sid
    skipCertVerify := st.skip
    wsPath := st.wsPath
    wsHost := st.wsHost
    security := some st.security
    cipher := jstr ob "method" <|> jstr ob "cipher"
    username := jstr ob "username"
    alterId := .ofNat (((ob.get "alter_id").bind Json.asU64).getD 0)
    plugin := jstr ob "plugin"
    pluginOpts := jstr ob "plugin_opts" }

/-! ## SIP008 -/

def sip008Server (s : Json) : Option ProxyNode := do
  let server ← jstr s "server"
  let port : UInt16 := .ofInt (jint s "server_port")
  let password ← jstr s "password"
  if server.isEmpty ∨ port = 0 then none
  return {
    name := ((jstr s "remarks").filter (!·.isEmpty)).getD server
    typeName := "ss".toList
    server
    port
    password := some password
    cipher := jstr s "method"
    plugin := jstr s "plugin"
    pluginOpts := jstr s "plugin_opts" }

def parseSip008 (v : Json) : List ProxyNode :=
  ((jarray v "servers").getD []).filterMap sip008Server

/-- `try_parse_json` on the value of the text. -/
def nodesOfJson (v : Json) : List ProxyNode :=
  match jarray v "outbounds" with
  | some obs => filterAll <| obs.filterMap fun ob =>
      if (ob.get "protocol").isSome then mapXray ob
      else if (ob.get "type").isSome then mapSingbox ob
      else none
  | none => if (jarray v "servers").isSome then filterAll (parseSip008 v) else []

end Config

end RustClash
