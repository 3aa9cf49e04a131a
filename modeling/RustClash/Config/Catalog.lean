import RustClash.Config.ShareLink
import RustClash.Config.Yaml

/-!
# The catalog

`NodeCatalog::parse` tells the formats of a subscription apart: a Clash configuration,
JSON, a list of share links, or the base64 of one of them.
-/

namespace RustClash

namespace Config

open Str Checked

/-- The parts of a line that may be links: all of it, or what stands between blanks. -/
def linkParts (line : Str) : List Str :=
  if contains "://".toList line ∧ (' ' ∈ line ∨ '\t' ∈ line) then
    (split (fun c => c = ' ' || c = '\t') line).filter (!·.isEmpty)
  else [line]

/-- The lines of a list of links that are neither blank nor comments. -/
def uriLines (text : Str) : List Str :=
  ((split (fun c => c = '\r' || c = '\n') text).map trim).filter fun l =>
    !l.isEmpty && !startsWith '#' l

/-- What may be links in a text. -/
def linksOf (text : Str) : List Str := (uriLines text).flatMap linkParts

/-- Each link has a map of its own. -/
def parseUriList (crates : Crates) (text : Str) : Checked (List ProxyNode) := do
  let nodes ← (linksOf text).zipIdx.mapM fun link => parseShareLink (crates.after link.2) link.1
  return nodes.filterMap id

def looksLikeUriList (text : Str) : Bool := (uriLines text).any (contains "://".toList)

def tryParseJson (crates : Crates) (text : Str) : List ProxyNode :=
  ((crates.parseJson text).map nodesOfJson).getD []

/-- The base64 of a text that could be a subscription. -/
def tryOne (crates : Crates) (s : Str) : Option Str := do
  let decoded ← fromUtf8 (← crates.decodeBase64 (pad s))
  if contains "://".toList decoded ∨ contains "proxies:".toList decoded ∨
      startsWith '{' (trimStart decoded) then some decoded else none

def tryDecodeB64 (crates : Crates) (text : Str) : Option Str :=
  let compact := text.filter (!isWhiteSpace ·)
  if byteLen compact < 16 then none
  else tryOne crates compact <|> do
    let decoded ← fromUtf8 (← crates.decodeBase64 (pad (standardAlphabet compact)))
    if decoded.isEmpty then none else some decoded

def decodeUtf8 (raw : Bytes) : Str :=
  match raw with
  | 0xEF :: 0xBB :: 0xBF :: rest => fromUtf8Lossy rest
  | _ => fromUtf8Lossy raw

/-- The text without the blanks and the byte order marks around it. -/
def stripText (text : Str) : Str := (trim text).dropWhile (· = '\uFEFF')

/-- What the text is read as. -/
inductive Format where
  | empty
  | yaml
  | json (nodes : List ProxyNode)
  | links
  | other

def formatOf (crates : Crates) (text : Str) : Format :=
  let trimmed := trimStart text
  let nodes := if startsWith '{' trimmed || startsWith '[' trimmed then tryParseJson crates trimmed
    else []
  if text.isEmpty then .empty
  else if contains "proxies:".toList text then .yaml
  else if !nodes.isEmpty then .json nodes
  else if looksLikeUriList text then .links
  else .other

/-- `parse_text`; `encoded` reads a text of no known format. -/
def parseTextWith (crates : Crates) (encoded : Str → Checked (List ProxyNode)) (text : Str) :
    Checked (List ProxyNode) :=
  let text := stripText text
  match formatOf crates text with
  | .empty => .ok []
  | .yaml => filterAll <$> loadProxiesYaml text
  | .json nodes => .ok nodes
  | .links => filterAll <$> parseUriList crates text
  | .other => encoded text

/-- `parse_text` without `allow_b64`. -/
def parseInner (crates : Crates) (text : Str) : Checked (List ProxyNode) :=
  parseTextWith crates (fun _ => .ok []) text

/-- The branch of `parse_text` for base64. -/
def parseEncoded (crates : Crates) (text : Str) : Checked (List ProxyNode) :=
  match tryDecodeB64 crates text with
  | none => .ok []
  | some decoded => do
      let inner ← parseInner crates decoded
      if !inner.isEmpty then return inner
      else if looksLikeUriList decoded then
        -- the maps of the first attempt are made
        filterAll <$> parseUriList (crates.after (linksOf (stripText decoded)).length) decoded
      else if contains "proxies:".toList decoded then filterAll <$> loadProxiesYaml decoded
      else return []

def NodeCatalog.parse (crates : Crates) (raw : Bytes) : Checked (List ProxyNode) :=
  parseTextWith crates (parseEncoded crates) (decodeUtf8 raw)

end Config

end RustClash
