import RustClash.Core.Str
import RustClash.Core.TtlLru
import RustClash.Net.Addr

/-!
# The rule database

`RuleDb` gives every host name one of three actions.  A record is found under the
labels of a name from its end on, and stands for that name alone or for all names
below it.  Verdicts are cached under the normal form of the name.

The two accesses of `match_domain` to the cache lock it separately, so they are
functions of their own here: what happens between them is the caller's.
-/

namespace RustClash

/-! ## Authorities: a host with an optional port -/

namespace Authority

open Str

def trySplitHostPort (authority : Str) : Option (Str × Str) :=
  if startsWith '[' authority then
    match splitOnce ']' authority with
    | some (host, ':' :: port) => if port.isEmpty then none else some (host.drop 1, port)
    | _ => none
  else if authority.count ':' = 1 then
    (rsplitOnce ':' authority).filter fun (host, port) => !host.isEmpty && !port.isEmpty
  else none

def joinHostPort (host port : Str) : Str :=
  if contains ":".toList host ∧ ¬ startsWith '[' host then '[' :: host ++ "]:".toList ++ port
  else host ++ ':' :: port

/-- `trim_matches` with both brackets. -/
def trimBrackets (s : Str) : Str :=
  (s.dropWhile fun c => c = '[' || c = ']').rdropWhile fun c => c = '[' || c = ']'

def withPort (authority : Str) (defaultPort : String) : Option Str :=
  let authority := trim authority
  if authority.isEmpty then none
  else match trySplitHostPort authority with
    | some (host, port) => some (joinHostPort host port)
    | none =>
        let host := trimBrackets authority
        if host.isEmpty then none else some (joinHostPort host defaultPort.toList)

end Authority

open Str

/-! ## Actions -/

inductive RuleAction where
  | reject
  | direct
  | proxy
deriving DecidableEq

def RuleAction.fromU8 (v : UInt8) : Option RuleAction :=
  if v = 1 then some .reject
  else if v = 2 then some .direct
  else if v = 3 then some .proxy
  else none

/-! ## Addresses -/

/-- `is_loopback`, `is_private`, the link local and shared ranges, and `UNSPECIFIED`. -/
def Ipv4Addr.isLocal (ip : Ipv4Addr) : Bool :=
  ip.a = 127 ∨ ip.a = 10 ∨ (ip.a = 172 ∧ 16 ≤ ip.b ∧ ip.b ≤ 31) ∨ (ip.a = 192 ∧ ip.b = 168) ∨
    (ip.a = 169 ∧ ip.b = 254) ∨ (ip.a = 100 ∧ 64 ≤ ip.b ∧ ip.b ≤ 127) ∨ ip = ⟨0, 0, 0, 0⟩

/-- `is_loopback`, `is_unicast_link_local`, `is_multicast`, and the unique local range. -/
def Ipv6Addr.isLocal (ip : Ipv6Addr) : Bool :=
  let b (i : Nat) : UInt8 := ip.octets.getD i 0
  ip.octets = List.replicate 15 0 ++ [1] ∨ (b 0 = 0xFE ∧ b 1 &&& 0xC0 = 0x80) ∨ b 0 = 0xFF ∨
    b 0 &&& 0xFE = 0xFC

def actionForIp : IpAddr → RuleAction
  | .v4 ip => if ip.isLocal then .direct else .proxy
  | .v6 ip => if ip.isLocal then .direct else .proxy

/-! ## Records -/

/-- The table of records, by the labels of a name from its end on. -/
abbrev RuleRecords := FinMap Str UInt8

namespace RuleDb

def flagSuffix : UInt8 := 0x80
def sep : Char := Char.ofNat 0x01

/-- The loop of `match_domain_uncached`: the key so far, its number of labels, and the
action of the last record that applies. -/
structure Walk where
  sb : Str
  acc : Nat
  best : Option RuleAction

/-- The round of one label, of a name with `count` of them. -/
def Walk.next (records : RuleRecords) (count : Nat) (w : Walk) (label : Str) : Walk :=
  let sb := if w.sb.isEmpty then label else w.sb ++ sep :: label
  let acc := w.acc + 1
  match records.lookup sb with
  | some packed =>
      let action := RuleAction.fromU8 (packed &&& 0x7F)
      let isSuffix := packed &&& flagSuffix ≠ 0
      ⟨sb, acc, if isSuffix ∨ acc = count then action else w.best⟩
  | none => ⟨sb, acc, w.best⟩

def matchDomainUncached (records : RuleRecords) (domain : Str) : RuleAction :=
  let labels := (split (· = '.') domain).filter (!·.isEmpty)
  if labels.isEmpty then .proxy
  else (labels.reverse.foldl (Walk.next records labels.length) ⟨[], 0, none⟩).best.getD .proxy

/-! ## Verdicts and the cache -/

variable (idna : String → Option String)

/-- What `match_domain` finds before it computes anything. -/
inductive Found where
  | action (action : RuleAction)
  /-- The name is looked up and its verdict then cached. -/
  | missed (key : String)

/-- `match_domain` up to the first access to the cache. -/
def find (cache : TtlLru RuleAction) (now : Nat) (domain : String) : Found × TtlLru RuleAction :=
  let domain := domainToAscii idna domain
  if domain.isEmpty then (.action .proxy, cache)
  else match parseIpAddr domain with
    | some ip => (.action (actionForIp ip), cache)
    | none =>
        match cache.get now domain with
        | (some c, cache) => (.action c, cache)
        | (none, cache) => (.missed domain, cache)

/-- The second access: the verdict is cached for ten minutes. -/
def remember (cache : TtlLru RuleAction) (now later : Nat) (order : List String → List String)
    (key : String) (action : RuleAction) : TtlLru RuleAction :=
  cache.set now later order key action none

/-- The host that `decide_route` judges. -/
def routeHost (hostPort : Str) : Str :=
  let host := match Authority.trySplitHostPort hostPort with
    | some (host, _) => host
    | none => hostPort
  Authority.trimBrackets (trim host)

/-- What `decide_route` finds for its host, an address before the name is looked at. -/
def judge (cache : TtlLru RuleAction) (now : Nat) (host : Str) : Found × TtlLru RuleAction :=
  match parseIpAddr (String.ofList host) with
  | some ip => (.action (actionForIp ip), cache)
  | none => find idna cache now (String.ofList host)

/-- `decide_route` up to the first access to the cache. -/
def decide (cache : TtlLru RuleAction) (now : Nat) (hostPort : Str) : Found × TtlLru RuleAction :=
  judge idna cache now (routeHost hostPort)

/-! ## Whole calls -/

/-- What a call reads: the clock, at each of its accesses, and the order of the hash map. -/
structure Readings where
  now : Nat
  start : Nat
  later : Nat
  order : List String → List String

/-- A call whose two accesses follow one another. -/
def Found.complete (records : RuleRecords) (r : Readings) :
    Found × TtlLru RuleAction → RuleAction × TtlLru RuleAction
  | (.action a, cache) => (a, cache)
  | (.missed key, cache) =>
      let a := matchDomainUncached records key.toList
      (a, remember cache r.start r.later r.order key a)

def matchDomain (records : RuleRecords) (cache : TtlLru RuleAction) (r : Readings) (domain : String) :
    RuleAction × TtlLru RuleAction :=
  Found.complete records r (find idna cache r.now domain)

def decideRoute (records : RuleRecords) (cache : TtlLru RuleAction) (r : Readings) (hostPort : Str) :
    RuleAction × TtlLru RuleAction :=
  Found.complete records r (decide idna cache r.now hostPort)

/-! ## Verdicts without the cache -/

/-- The verdict on a name, computed from the records. -/
def verdict (records : RuleRecords) (domain : String) : RuleAction :=
  let domain := domainToAscii idna domain
  if domain.isEmpty then .proxy
  else match parseIpAddr domain with
    | some ip => actionForIp ip
    | none => matchDomainUncached records domain.toList

/-- The verdict on a host with an optional port. -/
def routeVerdict (records : RuleRecords) (hostPort : Str) : RuleAction :=
  let host := String.ofList (routeHost hostPort)
  match parseIpAddr host with
  | some ip => actionForIp ip
  | none => verdict idna records host

end RuleDb

end RustClash
