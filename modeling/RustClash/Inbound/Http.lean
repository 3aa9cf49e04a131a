import RustClash.Config.ShareLink
import RustClash.Core.Rules
import RustClash.Lib.Http

/-!
# The HTTP inbound

`handle_client` reads the header of a request and either answers it, opens a tunnel,
or sends it on: the rewritten header, the bytes that came with the old one, and then
whatever else the client sends.
-/

namespace RustClash

namespace Inbound

open Str

structure HttpRequest where
  method : Str
  target : Str
  headers : List (Str × Str)
  leftover : Bytes
deriving DecidableEq

/-! ## Reading -/

def findHeaderEnd : Bytes → Option Nat
  | [] => none
  | b :: bs =>
      if [13, 10, 13, 10].isPrefixOf (b :: bs) then some 0
      else (findHeaderEnd bs).map (· + 1)

/-- `splitn` into at most three parts. -/
def splitn3 (s : Str) : List Str :=
  match splitOnce ' ' s with
  | none => [s]
  | some (first, rest) =>
      match splitOnce ' ' rest with
      | none => [first, rest]
      | some (second, third) => [first, second, third]

/-- The value is appended to the first `Cookie` header, if there is one. -/
def appendCookie (value : Str) : List (Str × Str) → Option (List (Str × Str))
  | [] => none
  | h :: hs =>
      if eqIgnoreCase h.1 "Cookie".toList then some ((h.1, h.2 ++ "; ".toList ++ value) :: hs)
      else (appendCookie value hs).map (h :: ·)

/-- What a line adds to the headers. -/
def pushHeader (headers : List (Str × Str)) (line : Str) : List (Str × Str) :=
  match splitOnce ':' line with
  | none => headers
  | some (name, value) =>
      let merged := if eqIgnoreCase (trim name) "Cookie".toList then appendCookie (trim value) headers
        else none
      merged.getD (headers ++ [(trim name, trim value)])

def parseHeader (header leftover : Bytes) : Except String HttpRequest :=
  let lines := Http.splitPair '\r' '\n' (fromUtf8Lossy header)
  match (splitn3 (lines.headD [])).filter (!·.isEmpty) with
  | method :: target :: _ =>
      .ok { method, target, headers := lines.tail.foldl pushHeader [], leftover }
  | _ => .error "bad request line"

/-- `read_http_request`, from what each read of the client returns.  The reads it leaves are
those of the relay. -/
def readHttpRequest : List Bytes → (ms : Bytes) → Except String (HttpRequest × List Bytes)
  | [], _ => .error "client closed before headers"
  | buf :: reads, ms =>
      if buf.isEmpty then .error "client closed before headers"
      else match findHeaderEnd (ms ++ buf) with
        | some idx =>
            if 64 * 1024 < idx then .error "headers too large"
            else (parseHeader ((ms ++ buf).take idx) ((ms ++ buf).drop (idx + 4))).map (·, reads)
        | none =>
            if 64 * 1024 < (ms ++ buf).length then .error "headers too large"
            else readHttpRequest reads (ms ++ buf)

/-! ## Forwarding -/

/-- The host and the path that a request is for. -/
def forwardTarget (parseUrl : Str → Option Url) (target : Str) (headers : List (Str × Str)) :
    Option (Str × Str) :=
  if "http://".toList.isPrefixOf (toLower target) then do
    let u ← parseUrl target
    let host ← u.hostStr
    let host := match u.port with
      | some port => host ++ ':' :: (toString port.toNat).toList
      | none => host
    let path := if u.path.isEmpty then "/".toList else u.path
    return (host, path ++ (u.query.map ('?' :: ·)).getD [])
  else do
    let host ← headers.find? fun h => eqIgnoreCase h.1 "Host".toList
    if host.2.isEmpty then none
    return (host.2, if startsWith '/' target then target else '/' :: target)

/-- The headers that are not sent on. -/
def hop : List String :=
  ["host", "connection", "keep-alive", "proxy-authenticate", "proxy-authorization", "te", "trailer",
    "trailers", "transfer-encoding", "upgrade", "proxy-connection"]

def isHop (name : Str) : Bool := hop.any fun h => eqIgnoreCase name h.toList

def headerLine (h : Str × Str) : Str := h.1 ++ ": ".toList ++ h.2

/-- The lines of a forwarded request. -/
def forwardLines (method path host : Str) (headers : List (Str × Str)) : List Str :=
  (method ++ ' ' :: path ++ " HTTP/1.1".toList) :: ("Host: ".toList ++ host) ::
    (headers.filter fun h => !isHop h.1).map headerLine ++ ["Connection: close".toList]

def rewriteForward (method path host : Str) (headers : List (Str × Str)) (leftover : Bytes) :
    Bytes :=
  bytes (Http.joinPair '\r' '\n' (forwardLines method path host headers) ++ "\r\n".toList) ++ leftover

/-- What is done with a request. -/
inductive Handled where
  | answer (status : Nat) (reason : String)
  | connect (hostPort : Str)
  | forward (action : RuleAction) (hostPort : Str) (sent : Bytes)
deriving DecidableEq

/-- `handle_client` after the header was read, where the destination is reached. -/
def handleClient (parseUrl : Str → Option Url) (decideRoute : Str → RuleAction)
    (req : HttpRequest) : Handled :=
  if eqIgnoreCase req.method "CONNECT".toList then
    match Authority.withPort req.target "443" with
    | some hostPort => .connect hostPort
    | none => .answer 400 "Invalid host"
  else if "https://".toList.isPrefixOf (toLower req.target) then
    .answer 400 "HTTPS requires CONNECT"
  else
    match forwardTarget parseUrl req.target req.headers with
    | none => .answer 400 "Invalid host"
    | some (host, path) =>
        match Authority.withPort host "80" with
        | none => .answer 400 "Invalid host"
        | some hostPort =>
            match decideRoute hostPort with
            | .reject => .answer 403 "Forbidden by rules"
            | action => .forward action hostPort
                (rewriteForward req.method path host req.headers req.leftover)

end Inbound

end RustClash
