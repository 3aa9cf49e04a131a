import RustClash.Config.Node

/-!
# The YAML reader

`load_proxies_yaml` reads the `proxies:` section of a Clash configuration line by
line.  An item starts an entry, a flow map fills one at once, and a pair is put at
the key that the enclosing pairs without a value spell out: `nest` keeps those with
their indentation, the innermost first.
-/

namespace RustClash

namespace Config

open Str Checked

/-- The text between quotes, with the escapes of quotes and backslashes undone. -/
def unquote (s : Str) : Checked Str :=
  if 2 ≤ byteLen s ∧ ((startsWith '"' s ∧ endsWith '"' s) ∨ (startsWith '\'' s ∧ endsWith '\'' s)) then do
    let s ← sliceTo s (byteLen s - 1)
    let s ← sliceFrom s 1
    return replaceAll "\\\\".toList "\\".toList (replaceAll "\\\"".toList "\"".toList s)
  else .ok s

/-! ## Flow maps -/

/-- Where a scan over a flow map stands: the open braces, the open quote and the
character before. -/
structure Scan where
  depth : Nat := 0
  quote : Option Char := none
  prev : Option Char := none

/-- What a character does to a scan. -/
def Scan.next (st : Scan) (c : Char) : Scan :=
  match st.quote with
  | some q => { st with quote := if c = q ∧ st.prev ≠ some '\\' then none else some q, prev := some c }
  | none =>
      if c = '\'' ∨ c = '"' then { st with quote := some c, prev := some c }
      else if c = '{' then { st with depth := st.depth + 1, prev := some c }
      else if c = '}' then { st with depth := st.depth - 1, prev := some c }
      else { st with prev := some c }

/-- The scan is outside quotes and braces. -/
def Scan.top (st : Scan) : Bool := st.quote.isNone && st.depth = 0

/-- The piece between two commas, if it is not blank. -/
def pieceOf (cur : Str) : List Str :=
  let piece := trim cur
  if piece.isEmpty then [] else [piece]

def splitFlowFrom : Str → Scan → (cur : Str) → List Str
  | [], _, cur => pieceOf cur
  | c :: cs, st, cur =>
      if c = ',' ∧ st.top then pieceOf cur ++ splitFlowFrom cs (st.next c) []
      else splitFlowFrom cs (st.next c) (cur ++ [c])

def splitFlow (s : Str) : List Str := splitFlowFrom s {} []

/-- The loop of `index_top_colon` from the character `i` on. -/
def indexTopColonFrom : Str → Scan → (i : Nat) → Option Nat
  | [], _, _ => none
  | c :: cs, st, i =>
      if c = ':' ∧ st.top then some i else indexTopColonFrom cs (st.next c) (i + 1)

/-- The number of characters before the first colon outside quotes and braces. -/
def indexTopColon (s : Str) : Option Nat := indexTopColonFrom s {} 0

def dropOpen (s : Str) : Checked Str := if startsWith '{' s then sliceFrom s 1 else .ok s

def dropClose (s : Str) : Checked Str :=
  if endsWith '}' s then sliceTo s (byteLen s - 1) else .ok s

/-- The parts of a flow map, without its braces. -/
def flowParts (flow : Str) : Checked (List Str) := do
  let s ← dropOpen (trim flow)
  let s ← dropClose s
  return splitFlow s

/-- The key and the value of a part cut at the offset `colon`. -/
def flowPair (part : Str) (colon : Nat) : Checked (Str × Str) := do
  let key ← sliceTo part colon
  let val ← sliceFrom part (colon + 1)
  let val ← unquote (trim val)
  return (trim key, val)

/-- The value is a flow map itself. -/
def isFlowMap (val : Str) : Bool := startsWith '{' val && endsWith '}' val

/-- What one part puts into the map; `inner` reads the flow map that is its value. -/
def applyFlowPart (inner : YamlMap → Str → Checked YamlMap) (map : YamlMap) (part : Str) :
    Checked YamlMap := do
  let some colon := indexTopColon part | return map
  let (key, val) ← flowPair part colon
  if key.isEmpty then return map
  if isFlowMap val then
    let nested ← inner ∅ val
    return nested.entries.foldl (fun map e => map.insert (key ++ '.' :: e.1) e.2) map
  return map.insert key val

/-- `apply_flow_map`, for values nested less than `fuel` deep. -/
def applyFlowMapWithin : (fuel : Nat) → YamlMap → Str → Checked YamlMap
  | 0, map, _ => .ok map
  | fuel + 1, map, flow => do
      let parts ← flowParts flow
      parts.foldlM (applyFlowPart (applyFlowMapWithin fuel)) map

/-- A value is shorter than the flow map it stands in, so that no nesting is cut off. -/
def applyFlowMap (map : YamlMap) (flow : Str) : Checked YamlMap :=
  applyFlowMapWithin (flow.length + 1) map flow

/-! ## Sections -/

/-- The pairs without a value around a line, innermost first, with their indentation. -/
abbrev Nest := List (Nat × Str)

def applyPair (map : YamlMap) (nest : Nest) (indent : Nat) (content : Str) :
    Checked (YamlMap × Nest) := do
  let some colon := find ':' content | return (map, nest)
  let key ← sliceTo content colon
  let val ← sliceFrom content (colon + 1)
  let val ← unquote (trim val)
  let nest := nest.dropWhile fun e => indent ≤ e.1
  let full := match nest with
    | [] => trim key
    | (_, p) :: _ => p ++ '.' :: trim key
  if val.isEmpty then return (map, (indent, full) :: nest)
  return (map.insert full val, nest)

/-- The entries read so far, the one being read, and its enclosing pairs. -/
structure Section where
  result : List YamlMap := []
  current : Option YamlMap := none
  nest : Nest := []

/-- The line starts another top-level key. -/
def endsSection (raw : Str) : Bool :=
  !raw.isEmpty && !(startsWith ' ' raw || startsWith '\t' raw) && endsWith ':' (trimEnd raw) &&
    !startsWith '-' (trimStart raw)

def isComment (raw : Str) : Bool := (trim raw).isEmpty || startsWith '#' (trimStart raw)

def indentOf (raw : Str) : Nat := (raw.takeWhile (· = ' ')).length

/-- What a line of the section does. -/
def readLine (st : Section) (raw : Str) : Checked Section := do
  let content := trim raw
  match stripPrefix "- ".toList content with
  | some rest =>
      let result := st.result ++ st.current.toList
      let rest := trim rest
      if rest.isEmpty then return { result, current := some ∅ }
      if startsWith '{' rest then
        let map ← applyFlowMap ∅ rest
        return { result, current := some map }
      let (map, nest) ← applyPair ∅ [] (indentOf raw + 2) rest
      return { result, current := some map, nest }
  | none =>
      let some map := st.current | return st
      let (map, nest) ← applyPair map st.nest (indentOf raw) content
      return { st with current := some map, nest }

def readLines : List Str → Section → Checked Section
  | [], st => .ok st
  | raw :: lines, st =>
      if isComment raw then readLines lines st
      else if endsSection raw then .ok st
      else do
        let st ← readLine st raw
        readLines lines st

/-- The lines after the first `proxies:`. -/
def sectionLines (lines : List Str) : List Str :=
  (lines.dropWhile fun l => trimEnd l ≠ "proxies:".toList).drop 1

def parseProxiesSection (lines : List Str) : Checked (List YamlMap) := do
  let st ← readLines (sectionLines lines) {}
  return st.result ++ st.current.toList

/-! ## Nodes -/

def get (p : YamlMap) (key : String) : Option Str := p.lookup key.toList

def pluginOptsFromYaml (p : YamlMap) : Option Str :=
  match (get p "plugin-opts").filter fun raw => !raw.isEmpty && !startsWith '{' raw with
  | some raw => some raw
  | none =>
      let parts := ["mode", "obfs", "host", "obfs-host", "path", "tls", "mux"].filterMap fun short =>
        (get p ("plugin-opts." ++ short)).map fun v =>
          let mapped := if short = "mode" then "obfs" else if short = "host" then "obfs-host" else short
          mapped.toList ++ '=' :: v
      if parts.isEmpty then none else some (join ";".toList parts)

def yamlToNode (p : YamlMap) : Option ProxyNode := do
  let ty := normalizeType ((get p "type").getD [])
  if !oneOf ty knownTypes then none
  let network := wsName (toLower (trim ((get p "network").getD "tcp".toList)))
  let name ← get p "name"
  let server ← get p "server"
  let port := ((get p "port").bind parseU16).getD 0
  if (trim name).isEmpty ∨ (trim server).isEmpty ∨ port = 0 then none
  let hasReality := (get p "reality-opts.public-key").any (!·.isEmpty)
  let tls := parseBool (get p "tls") || oneOf ty ["trojan"] || hasReality
  let security := if hasReality then "reality" else if tls then "tls" else "none"
  let plugin := get p "plugin"
  let pluginOpts := pluginOptsFromYaml p
  let wsPath := get p "ws-opts.path" <|> get p "http-opts.path"
  let wsHost := get p "ws-opts.headers.Host" <|> get p "ws-opts.headers.host"
  let v2ray := plugin.any fun s => eqIgnoreCase s "v2ray-plugin".toList
  return {
    name
    typeName := ty
    server
    port
    uuid := get p "uuid" <|> get p "id"
    password := get p "password"
    tls := tls || v2ray &&
      pluginOpts.any fun s => contains "tls=true".toList s || contains "tls=1".toList s
    serverName := get p "servername" <|> get p "sni"
    flow := get p "flow"
    network := if v2ray then "ws".toList else network
    clientFingerprint := get p "client-fingerprint"
    realityPublicKey := get p "reality-opts.public-key"
    realityShortId := get p "reality-opts.short-id"
    skipCertVerify := parseBool (get p "skip-cert-verify")
    wsPath := if v2ray then wsPath <|> optFromPlugin pluginOpts "path" else wsPath
    wsHost := if v2ray then wsHost <|> optFromPlugin pluginOpts "host" else wsHost
    security := some security.toList
    cipher := get p "cipher" <|> get p "method"
    username := get p "username"
    plugin := if v2ray then none else plugin
    pluginOpts := if v2ray then none else pluginOpts
    alterId := ((get p "alterId" <|> get p "alter-id").bind parseU16).getD 0 }

/-- The lines of a text; a carriage return ends a line like a line feed. -/
def yamlLines (text : Str) : List Str :=
  split (· = '\n') (replaceAll "\r".toList "\n".toList (replaceAll "\r\n".toList "\n".toList text))

def loadProxiesYaml (text : Str) : Checked (List ProxyNode) := do
  let entries ← parseProxiesSection (yamlLines text)
  return entries.filterMap yamlToNode

end Config

end RustClash
