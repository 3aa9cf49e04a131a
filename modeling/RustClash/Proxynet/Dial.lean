import RustClash.Lib.Base64
import RustClash.Lib.Http
import RustClash.Lib.Script
import RustClash.Proxynet.HttpObfs
import RustClash.Proxynet.Options
import RustClash.Proxynet.Reality.Hello
import RustClash.Proxynet.RecordCalls
import RustClash.Proxynet.Ss
import RustClash.Proxynet.Vmess.Protocol

/-!
# Dialing

`dial` lays the layers of an outbound over a connection and sends the request of its
protocol.  It is a script: the peer may refuse an act at any point, which stands for a
failed handshake, an upgrade that is refused, a write that fails and a time limit that
runs out.  `dial_socks5` and `dial_http_connect` read the answers of the proxy.
-/

namespace RustClash

open Str Config

/-- What a dial does on the connection.  A layer lies over the connection and the layers
before it, and what is sent goes through all of them. -/
inductive DialAct where
  | connect (ips : List IpAddr) (port : UInt16)
  | tls (serverName : Str) (insecure : Bool) (alpn : List Str)
  | reality (serverName pbk : Str) (shortId : Option Str) (alpn : List Str)
  | httpObfs (path host : Str)
  | tlsObfs (host : Str)
  | shadowed (kind : Ss.SsCipher) (password : Str)
  | vlessResponse (host : Str) (port : UInt16)
  | vision (uuid : Octets 16)
  | vmessAuth (sess : Vmess.ClientSession) (security : Str)
  | tlsHandshake
  | realityHandshake (clientHello : Bytes)
  | upgrade (path host : Str) (webSocket : Bool)
  | write (bytes : Bytes)

/-- The act sends something, which is all that the others do not. -/
def DialAct.sends : DialAct → Bool
  | .tlsHandshake | .realityHandshake _ | .upgrade .. | .write _ => true
  | _ => false

abbrev Dial := Script DialAct UInt8 ProxyError

/-- What the dial uses of other crates. -/
structure DialCrates where
  primitives : Primitives
  tls : TlsPrimitives
  sha224 : Bytes → Octets 28
  base64 : Base64
  /-- `ServerName::try_from` takes the name. -/
  serverName : Str → Bool

/-- What a dial draws at random, and the time it asks for. -/
structure DialDraws where
  privateKey : Octets 32
  random : Octets 32
  now : UInt32
  session : Octets 33
  request : Vmess.Draws

/-- Primitives to evaluate with: a hash is a sum, and a cipher only tags. -/
def TlsPrimitives.sums : TlsPrimitives where
  digest hash data := ⟨List.replicate hash.len (sumFrom 0 data), by simp⟩
  hmac hash key data := ⟨List.replicate hash.len (sumFrom (sumFrom 0 key) data), by simp⟩
  hkdfExpand _ prk info len := ⟨List.replicate len (sumFrom (sumFrom 0 prk) info), by simp⟩
  hkdfSha256 salt ikm info len :=
    ⟨List.replicate len (sumFrom (sumFrom (sumFrom 0 salt) ikm) info), by simp⟩
  hmacSha512 key data := ⟨List.replicate 64 (sumFrom (sumFrom 0 key) data), rfl⟩
  x25519 _ point := point
  x25519Public secret := secret
  aes128Gcm := keyTagged
  aes256Gcm := keyTagged
  chaCha20Poly1305 := keyTagged
  decodeBase64 := Base64.decode
  domainToAscii _ := none

/-- Crates to evaluate with; every name that is not empty is one of a server. -/
def DialCrates.sums : DialCrates where
  primitives := .sums
  tls := .sums
  sha224 data := ⟨List.replicate 28 (sumFrom 0 data), rfl⟩
  base64 := ⟨fun bs => String.ofList (Base64.encodeWith false true bs)⟩
  serverName name := !name.isEmpty

def DialDraws.zeros : DialDraws where
  privateKey := ⟨List.replicate 32 0, rfl⟩
  random := ⟨List.replicate 32 0, rfl⟩
  now := 0
  session := ⟨List.replicate 33 0, rfl⟩
  request :=
    { now := 0
      delta := 0
      paddingByte := 0
      padding := ⟨[], rfl⟩
      sealNow := 0
      authRand := ⟨[0, 0, 0, 0], rfl⟩
      nonce8 := ⟨[0, 0, 0, 0, 0, 0, 0, 0], rfl⟩ }

namespace Dial

open Script

variable (crates : DialCrates) (draws : DialDraws)

/-! ## Layers -/

def badSni (sni : Str) : ProxyError :=
  let sni := String.ofList sni
  ⟨.invalidResponse, s!"bad SNI {sni}"⟩

def tlsWrap (sni : Str) (insecure : Bool) (alpn : List Str) : Dial Unit := do
  perform (.tls sni insecure alpn)
  if crates.serverName sni then perform .tlsHandshake else fail (badSni sni)

def clientVersion : Octets 3 := ⟨[26, 3, 27], rfl⟩

/-- The ClientHello of `reality::handshake`, up to the record it is written in. -/
def realityHello (serverName pbk : Str) (shortId : Option Str) (alpn : List Str) :
    Except ProxyError Bytes := do
  let pub ← Reality.decodePbk crates.tls (String.ofList pbk)
  let hello := Reality.build crates.tls (String.ofList serverName) (alpn.map String.ofList)
    draws.privateKey draws.random
  let authKey ← Reality.deriveAuthKey crates.tls hello.privateKey pub
    ((hello.handshake.take 38).drop 6)
  let sid ← Reality.parseShortId (shortId.map String.ofList)
  let handshake ← Reality.sealSessionId crates.tls hello.handshake authKey sid draws.now
    clientVersion
  if Reality.maxPlaintext < handshake.length then throw TlsRecordStream.recordTooLarge
  return handshake

def realityWrap (serverName pbk : Str) (shortId : Option Str) (alpn : List Str) : Dial Unit := do
  perform (.reality serverName pbk shortId alpn)
  let hello ← ofExcept (realityHello crates draws serverName pbk shortId alpn)
  perform (.realityHandshake hello)

def unsupportedTransport (what : String) (transport : Str) : ProxyError :=
  let transport := String.ofList transport
  ⟨.transportUpgradeFailed, s!"{what}transport '{transport}' is not supported"⟩

def applyTransport (kind : TransportKind) (path : Option Str) (hostHeader : Str) : Dial Unit :=
  match kind with
  | .rawTcp => pure ()
  | .webSocket => perform (.upgrade (normalizePath path) hostHeader true)
  | .httpUpgrade => perform (.upgrade (normalizePath path) hostHeader false)
  | .unsupported => fail ⟨.transportUpgradeFailed, "unsupported transport"⟩

/-! ## VLESS -/

def visionFlow : Str := "xtls-rprx-vision".toList

def isVision (flow : Option Str) : Bool := flow.any (eqIgnoreCase · visionFlow)

def vlessAddons (vision : Bool) : Bytes :=
  if vision then
    UInt8.ofNat (2 + (bytes visionFlow).length) :: 0x0A ::
      UInt8.ofNat (bytes visionFlow).length :: bytes visionFlow
  else [0]

def vlessUnusable (id : Str) : ProxyError :=
  let id := String.ofList id
  ⟨.authRequired, s!"VLESS user id '{id}' is unusable"⟩

def vlessRequest (id host : Str) (port : UInt16) (vision : Bool) : Except ProxyError Bytes := do
  let some uuid := Uuid.uuidWriteBe crates.primitives (String.ofList id) | throw (vlessUnusable id)
  let addr ← ProxyAddress.writeTypeAndAddress (String.ofList host) 0x01 0x02 0x03
  return 0x00 :: uuid.bytes ++ vlessAddons vision ++ 0x01 :: toBe16 port.toNat ++ addr

def establishVless (o : VlessOptions) (host : Str) (port : UInt16) : Dial Unit := do
  let req ← ofExcept (vlessRequest crates o.id host port (isVision o.flow))
  perform (.write req)
  perform (.vlessResponse host port)
  if isVision o.flow then
    match Uuid.uuidWriteBe crates.primitives (String.ofList o.id) with
    | none => fail ⟨.authRequired, "VLESS user id is unusable"⟩
    | some uuid => perform (.vision uuid)
  else pure ()

def flowUnsupported (flow : Str) : ProxyError :=
  let flow := String.ofList flow
  ⟨.invalidResponse, s!"VLESS flow '{flow}' is not supported"⟩

/-- The checks of `dial_vless` on its options. -/
def vlessChecks (o : VlessOptions) : Except ProxyError Unit :=
  if resolveTransport o.transport = .unsupported then
    .error (unsupportedTransport "VLESS " o.transport)
  else if o.security = .reality ∧ o.realityPublicKey.isNone then
    .error ⟨.authRequired, "VLESS REALITY needs pbk"⟩
  else
    match o.flow.filter fun flow => !flow.isEmpty && !eqIgnoreCase flow visionFlow with
    | some flow => .error (flowUnsupported flow)
    | none => .ok ()

def vlessSecure (o : VlessOptions) : Dial Unit :=
  match o.security with
  | .tls => tlsWrap crates o.sniOrHost o.allowInsecure o.alpn
  | .reality =>
      let alpn := if o.alpn.isEmpty then ["h2".toList, "http/1.1".toList] else o.alpn
      realityWrap crates draws o.sniOrHost (o.realityPublicKey.getD []) o.realityShortId alpn
  | .none => pure ()

def dialVless (o : VlessOptions) (host : Str) (port : UInt16) : Dial Unit := do
  ofExcept (vlessChecks o)
  vlessSecure crates draws o
  applyTransport (resolveTransport o.transport) o.path
    (resolveHostHeader o.hostHeader o.sni o.host)
  establishVless crates o host port

/-! ## Trojan -/

/-- `sha224_hex_lower`. -/
def sha224HexLower (data : Bytes) : Bytes :=
  let digit (n : UInt8) : UInt8 := if n < 10 then 48 + n else 87 + n
  (crates.sha224 data).bytes.flatMap fun (b : UInt8) => [digit (b >>> 4), digit (b &&& 0x0F)]

def trojanRequest (password host : Str) (port : UInt16) : Except ProxyError Bytes := do
  let addr ← ProxyAddress.writeTypeAndAddress (String.ofList host) 0x01 0x03 0x04
  return sha224HexLower crates (bytes password) ++ [13, 10] ++ 0x01 :: addr ++
    toBe16 port.toNat ++ [13, 10]

def establishTrojan (o : TrojanOptions) (host : Str) (port : UInt16) : Dial Unit := do
  let req ← ofExcept (trojanRequest crates o.password host port)
  perform (.write req)

def dialTrojan (o : TrojanOptions) (host : Str) (port : UInt16) : Dial Unit :=
  let kind := resolveTransport o.transport
  if kind = .unsupported then fail (unsupportedTransport "Trojan " o.transport)
  else do
    tlsWrap crates o.sniOrHost o.allowInsecure o.alpn
    applyTransport kind o.path (resolveHostHeader o.hostHeader o.sni o.host)
    establishTrojan crates o host port

/-- The layers of Shadowsocks and VMess. -/
def layerTransport (tls : Bool) (sni : Str) (insecure : Bool) (alpn : List Str) (transport : Str)
    (path hostHeader : Option Str) (host : Str) (sniOpt : Option Str) : Dial Unit := do
  (if tls then tlsWrap crates sni insecure alpn else pure ())
  if resolveTransport transport = .unsupported then fail (unsupportedTransport "" transport)
  else applyTransport (resolveTransport transport) path (resolveHostHeader hostHeader sniOpt host)

/-! ## Shadowsocks -/

/-- `parse_opts` of simple-obfs; a key that comes again replaces the value. -/
def parseOpts (s : Str) : FinMap Str Str :=
  ((split (fun c => c = ';' || c = '&') s).filter (!·.isEmpty)).foldl (fun map part =>
    match splitOnce '=' part <|> splitOnce ':' part with
    | some (k, v) => map.insert (toLower (trim k)) (trim v)
    | none => map) ∅

/-- The value of the first of two keys that is there. -/
def optOf (opts : FinMap Str Str) (key other : String) : Option Str :=
  opts.lookup key.toList <|> opts.lookup other.toList

def unsupportedMode (other : Str) : ProxyError :=
  let other := String.ofList other
  ⟨.transportUpgradeFailed, s!"unsupported simple-obfs mode {other}"⟩

def unsupportedPlugin (other : Str) : ProxyError :=
  let other := String.ofList other
  ⟨.transportUpgradeFailed, s!"unsupported shadowsocks plugin {other}"⟩

/-- The mode of simple-obfs. -/
def obfsMode (pluginOpts : Option Str) : Str :=
  ((optOf (parseOpts (pluginOpts.getD [])) "obfs" "mode").map toLower).getD "http".toList

def applyPlugin (plugin : Str) (o : SsOptions) : Dial Unit :=
  let plugin := toLower (trim plugin)
  let opts := parseOpts (o.pluginOpts.getD [])
  let mode := obfsMode o.pluginOpts
  let host := (optOf opts "obfs-host" "host").getD o.host
  let path := (optOf opts "obfs-uri" "path").getD "/".toList
  if oneOf plugin ["", "none"] then pure ()
  else if oneOf plugin ["obfs", "obfs-local", "simple-obfs"] then
    if oneOf mode ["http"] then perform (.httpObfs path host)
    else if oneOf mode ["tls"] then perform (.tlsObfs host)
    else fail (unsupportedMode mode)
  else fail (unsupportedPlugin plugin)

def unsupportedCipher (method : Str) : ProxyError :=
  let method := String.ofList method
  ⟨.authRequired, s!"unsupported shadowsocks cipher {method}"⟩

def pluginLayer (o : SsOptions) : Dial Unit :=
  match o.plugin with
  | some plugin => applyPlugin plugin o
  | none => pure ()

/-- The stream of `ShadowedStream::new`, and the address as its first write. -/
def ssConnect (o : SsOptions) (host : Str) (port : UInt16) : Dial Unit :=
  match Ss.SsCipher.parse (String.ofList o.method) with
  | none => fail (unsupportedCipher o.method)
  | some kind => do
      perform (.shadowed kind o.password)
      let header ← ofExcept (ProxyAddress.writeSocksPortLast (String.ofList host) port
        (2 + ProxyAddress.maxLength))
      perform (.write header)

def dialSs (o : SsOptions) (host : Str) (port : UInt16) : Dial Unit := do
  pluginLayer o
  ssConnect o host port

/-! ## VMess -/

def dialVmess (o : VmessOptions) (host : Str) (port : UInt16) : Dial Unit := do
  let security ← ofExcept (Vmess.securityValue (String.ofList o.bodySecurity))
  let sess := Vmess.ClientSession.new crates.primitives o.aead draws.session
  let header ← ofExcept (Vmess.encodeRequest crates.primitives (String.ofList o.id)
    (String.ofList host) port security sess draws.request)
  perform (.write header)
  perform (.vmessAuth sess o.bodySecurity)

/-! ## SOCKS5 -/

namespace Socks

def versionMismatch : ProxyError := ⟨.invalidResponse, "SOCKS5 version mismatch"⟩
def credentialsRequested : ProxyError :=
  ⟨.authRequired, "SOCKS5 server requested username/password"⟩
def authenticationFailed : ProxyError := ⟨.authFailed, "SOCKS5 authentication failed"⟩
def noAcceptableMethod : ProxyError := ⟨.authFailed, "SOCKS5 no acceptable auth method"⟩

def unknownMethod (other : UInt8) : ProxyError :=
  let other := other.toNat
  ⟨.invalidResponse, s!"SOCKS5 auth method {other}"⟩

def connectFailed (status : UInt8) : ProxyError :=
  let status := status.toNat
  ⟨.invalidResponse, s!"SOCKS5 connect failed status {status}"⟩

def unknownAtyp (other : UInt8) : ProxyError :=
  let other := other.toNat
  ⟨.invalidResponse, s!"SOCKS5 bind atyp {other}"⟩

/-- The lengths are the low bytes. -/
def credentials (user pass : Bytes) : Bytes :=
  0x01 :: UInt8.ofNat user.length :: user ++ UInt8.ofNat pass.length :: pass

def authenticate (user pass : Bytes) (method : UInt8) : Dial Unit :=
  if method = 0x00 then pure ()
  else if method = 0x02 then
    if user.isEmpty then fail credentialsRequested
    else do
      perform (.write (credentials user pass))
      let resp ← readExact 2
      if resp.getD 1 0 = 0x00 then pure () else fail authenticationFailed
  else if method = 0xff then fail noAcceptableMethod
  else fail (unknownMethod method)

/-- The bytes of the bound address and port that are still to come. -/
def boundLength (atyp : UInt8) : Dial Nat :=
  if atyp = 0x01 then pure (4 + 2)
  else if atyp = 0x04 then pure (16 + 2)
  else if atyp = 0x03 then do
    let len ← readExact 1
    pure ((len.getD 0 0).toNat + 2)
  else fail (unknownAtyp atyp)

def reply : Dial Unit := do
  let head ← readExact 4
  if head.getD 0 0 ≠ 0x05 ∨ head.getD 1 0 ≠ 0x00 then fail (connectFailed (head.getD 1 0))
  else do
    let rest ← boundLength (head.getD 3 0)
    let _ ← readExact rest
    pure ()

end Socks

def dialSocks5 (o : SocksOptions) (host : Str) (port : UInt16) : Dial Unit := do
  let user := bytes (o.username.getD [])
  let pass := bytes (o.password.getD [])
  perform (.write (if user.isEmpty then [0x05, 0x01, 0x00] else [0x05, 0x02, 0x00, 0x02]))
  let sel ← readExact 2
  if sel.getD 0 0 ≠ 0x05 then fail Socks.versionMismatch
  else do
    Socks.authenticate user pass (sel.getD 1 0)
    let addr ← ofExcept (ProxyAddress.writeSocksPortLast (String.ofList host) port
      (2 + ProxyAddress.maxLength))
    perform (.write ([0x05, 0x01, 0x00] ++ addr))
    Socks.reply

/-! ## HTTP CONNECT -/

namespace HttpConnect

def tooLarge : ProxyError := ⟨.invalidResponse, "HTTP CONNECT response too large"⟩

def failed (status : Str) : ProxyError :=
  let status := String.ofList status
  ⟨.invalidResponse, s!"HTTP CONNECT failed: {status}"⟩

def hostPort (host : Str) (port : UInt16) : Bytes :=
  let port := Http.digits port.toNat
  if ':' ∈ host then ascii "[" ++ bytes host ++ ascii "]:" ++ port
  else bytes host ++ ascii ":" ++ port

/-- The header with the credentials, if there is a name and a password. -/
def authorization (o : HttpProxyOptions) : Bytes :=
  match o.username, o.password with
  | some user, some pass =>
      if user.isEmpty then []
      else
        ascii "Proxy-Authorization: Basic " ++
          utf8 (crates.base64.encode (bytes (user ++ ':' :: pass))) ++ ascii "\r\n"
  | _, _ => []

def request (o : HttpProxyOptions) (host : Str) (port : UInt16) : Bytes :=
  ascii "CONNECT " ++ hostPort host port ++ ascii " HTTP/1.1\r\nHost: " ++ hostPort host port ++
    ascii "\r\n" ++ authorization crates o ++ ascii "Proxy-Connection: Keep-Alive\r\n\r\n"

/-- `\r\n\r\n` stands in the buffer. -/
def headComplete (buf : Bytes) : Bool := buf.tails.any ([13, 10, 13, 10].isPrefixOf ·)

/-- The response up to the empty line, byte by byte; `left` more bytes may follow the next. -/
def readHead : (left : Nat) → (buf : Bytes) → Dial Bytes
  | left, buf => do
      let b ← readExact 1
      let buf := buf ++ b
      if headComplete buf then pure buf
      else
        match left with
        | 0 => fail tooLarge
        | left + 1 => readHead left buf

/-- `str::lines`, as far as the first one. -/
def firstLine (s : Str) : Str :=
  let line := s.takeWhile (· ≠ '\n')
  if endsWith '\r' line then line.dropLast else line

end HttpConnect

def dialHttpConnect (o : HttpProxyOptions) (host : Str) (port : UInt16) : Dial Unit := do
  perform (.write (HttpConnect.request crates o host port))
  let buf ← HttpConnect.readHead 8192 []
  let status := HttpConnect.firstLine (fromUtf8Lossy buf)
  if contains " 200".toList status then pure () else fail (HttpConnect.failed status)

end Dial

open Dial in
def dial (crates : DialCrates) (draws : DialDraws) (kind : OutboundKind) (host : Str)
    (port : UInt16) : Dial Unit :=
  match kind with
  | .vless o => dialVless crates draws o host port
  | .trojan o => dialTrojan crates o host port
  | .shadowsocks o => do
      layerTransport crates o.tls o.sniOrHost o.allowInsecure o.alpn o.transport o.path
        o.hostHeader o.host o.sni
      dialSs o host port
  | .vmess o => do
      layerTransport crates o.tls o.sniOrHost o.allowInsecure o.alpn o.transport o.path
        o.hostHeader o.host o.sni
      dialVmess crates draws o host port
  | .socks5 o => dialSocks5 o host port
  | .http o => dialHttpConnect crates o host port

end RustClash
