import Mathlib.Data.List.Basic

/-!
# Network addresses

The address types of `std::net`, as far as the clients of this crate read
them: IPv4 and IPv6 addresses by their octets, and IPv4 socket addresses.

`parseIpAddr` is `str::parse::<IpAddr>` of the standard library: a dotted IPv4 address of four
decimal numbers without leading zeros, or an IPv6 address of hexadecimal groups
with at most one `::` and an optional trailing IPv4 address.  Every reader takes
the rest of the text and returns what it read with the text after it; a reader
that fails leaves its caller at the old text.
-/

namespace RustClash

/-- `Ipv4Addr`: the four octets. -/
structure Ipv4Addr where
  a : UInt8
  b : UInt8
  c : UInt8
  d : UInt8
deriving DecidableEq, Repr

/-- `Ipv4Addr::octets`. -/
def Ipv4Addr.octets (ip : Ipv4Addr) : List UInt8 := [ip.a, ip.b, ip.c, ip.d]

/-- `Ipv6Addr`: the sixteen octets. -/
structure Ipv6Addr where
  octets : List UInt8
  size : octets.length = 16
deriving DecidableEq, Repr

/-- `IpAddr`. -/
inductive IpAddr where
  | v4 (ip : Ipv4Addr)
  | v6 (ip : Ipv6Addr)
deriving DecidableEq, Repr

/-- `SocketAddrV4`. -/
structure SocketAddrV4 where
  ip : Ipv4Addr
  port : UInt16
deriving DecidableEq, Repr

/-! ## Parsing -/

/-- `Ipv6Addr::from([u16; 8])`; missing groups are zero. -/
def Ipv6Addr.ofGroups (groups : List UInt16) : Ipv6Addr where
  octets := (List.range 8).flatMap fun i =>
    let g := groups.getD i 0
    [(g / 256).toUInt8, g.toUInt8]
  size := by simp

namespace AddrParser

/-- The value of a digit in a radix of at most sixteen. -/
def toDigit (radix : Nat) (c : Char) : Option Nat :=
  let v :=
    if '0' ≤ c ∧ c ≤ '9' then some (c.toNat - '0'.toNat)
    else if 'a' ≤ c ∧ c ≤ 'f' then some (c.toNat - 'a'.toNat + 10)
    else if 'A' ≤ c ∧ c ≤ 'F' then some (c.toNat - 'A'.toNat + 10)
    else none
  v.filter (· < radix)

/-- The digits at the front of a text and the text after them. -/
def takeDigits (radix : Nat) : List Char → List Nat × List Char
  | [] => ([], [])
  | c :: cs =>
      match toDigit radix c with
      | none => ([], c :: cs)
      | some d => let (ds, rest) := takeDigits radix cs; (d :: ds, rest)

/-- `read_number`, for a number below `bound`. -/
def readNumber (radix maxDigits bound : Nat) (allowZeroPrefix : Bool) (s : List Char) :
    Option (Nat × List Char) :=
  let (digits, rest) := takeDigits radix s
  let value := digits.foldl (fun acc d => acc * radix + d) 0
  if digits.length = 0 ∨ maxDigits < digits.length then none
  else if ¬ allowZeroPrefix ∧ digits.head? = some 0 ∧ 1 < digits.length then none
  else if value < bound then some (value, rest)
  else none

/-- `read_separator`: every item but the first follows the separator. -/
def readSeparator {α : Type} (sep : Char) (isFirst : Bool)
    (inner : List Char → Option (α × List Char)) (s : List Char) : Option (α × List Char) :=
  if isFirst then inner s
  else match s with
    | [] => none
    | c :: cs => if c = sep then inner cs else none

def readIpv4Addr (s : List Char) : Option (Ipv4Addr × List Char) := do
  let octet := readNumber 10 3 256 false
  let (a, s) ← octet s
  let (b, s) ← readSeparator '.' false octet s
  let (c, s) ← readSeparator '.' false octet s
  let (d, s) ← readSeparator '.' false octet s
  return (⟨UInt8.ofNat a, UInt8.ofNat b, UInt8.ofNat c, UInt8.ofNat d⟩, s)

/-- `read_groups`: the groups of one side of `::`, at most `left` of them, whether
they end in an embedded IPv4 address, and the text after them. -/
def readGroups : (left : Nat) → (isFirst : Bool) → List Char → List UInt16 × Bool × List Char
  | 0, _, s => ([], false, s)
  | left + 1, isFirst, s =>
      let ipv4 := if 1 ≤ left then readSeparator ':' isFirst readIpv4Addr s else none
      match ipv4 with
      | some (ip, s) =>
          ([ip.a.toUInt16 * 256 + ip.b.toUInt16, ip.c.toUInt16 * 256 + ip.d.toUInt16], true, s)
      | none =>
          match readSeparator ':' isFirst (readNumber 16 4 65536 true) s with
          | none => ([], false, s)
          | some (g, s) =>
              let (gs, ipv4, s) := readGroups left false s
              (UInt16.ofNat g :: gs, ipv4, s)

def readIpv6Addr (s : List Char) : Option (Ipv6Addr × List Char) :=
  let (head, headIpv4, s) := readGroups 8 true s
  if head.length = 8 then some (.ofGroups head, s)
  else if headIpv4 then none
  else match s with
    | ':' :: ':' :: s =>
        let (tail, _, s) := readGroups (7 - head.length) true s
        let zeros := List.replicate (8 - tail.length - head.length) 0
        some (.ofGroups (head ++ zeros ++ tail), s)
    | _ => none

end AddrParser

/-- `str::parse::<IpAddr>`: the whole text must be read. -/
def parseIpAddr (host : String) : Option IpAddr :=
  match AddrParser.readIpv4Addr host.toList with
  | some (ip, rest) => if rest.isEmpty then some (.v4 ip) else none
  | none =>
      match AddrParser.readIpv6Addr host.toList with
      | some (ip, rest) => if rest.isEmpty then some (.v6 ip) else none
      | none => none

example : parseIpAddr "1.2.3.04" = none := by decide
example : parseIpAddr "::1" = some (.v6 (.ofGroups [0, 0, 0, 0, 0, 0, 0, 1])) := by decide

end RustClash
