import RustClash.Core.Utf8
import RustClash.Lib.ByteOrder
import RustClash.Lib.Loop
import RustClash.Net.Addr

/-!
# DNS messages

The readers and writers of `dns.rs`.  A name is a list of labels and ends in the root or
in a pointer to the rest of it elsewhere in the message; `read_dns_name` follows at most
64 of these steps.  Out of range is a `Fault`, what a reader refuses is `none`.
-/

namespace RustClash

namespace Dns

open Str Checked

/-! ## Names -/

/-- The loop of `read_dns_name`: where it stands, the offset to resume at once it has
jumped, and the labels so far. -/
structure NameReader where
  off : Nat
  stop : Nat
  jumped : Bool
  labels : List Str

/-- The offset in a pointer. -/
def pointer (high low : UInt8) : Nat := (high &&& 0x3F).toNat <<< 8 ||| low.toNat

/-- The rounds of the loop that are left, `n` of them. -/
def readLabels (msg : Bytes) : (n : Nat) → NameReader → Checked (Option (Str × Nat))
  | 0, _ => .ok none
  | n + 1, r =>
      if msg.length ≤ r.off then .ok none
      else do
        let len ← get msg r.off
        if len = 0 then
          .ok (some (join ['.'] r.labels, if r.jumped then r.stop else r.off + 1))
        else if len &&& 0xC0 = 0xC0 then
          if msg.length ≤ r.off + 1 then .ok none
          else do
            let low ← get msg (r.off + 1)
            readLabels msg n
              ⟨pointer len low, if r.jumped then r.stop else r.off + 2, true, r.labels⟩
        else if msg.length < r.off + 1 + len.toNat then .ok none
        else do
          let label ← slice msg (r.off + 1) (r.off + 1 + len.toNat)
          readLabels msg n
            ⟨r.off + 1 + len.toNat, r.stop, r.jumped, r.labels ++ [fromUtf8Lossy label]⟩

/-- `read_dns_name`: the name and the offset after it. -/
def readDnsName (msg : Bytes) (off : Nat) : Checked (Option (Str × Nat)) :=
  readLabels msg 64 ⟨off, off, false, []⟩

def labelsOf (domain : Str) : List Str := (split (· = '.') domain).filter (!·.isEmpty)

def encodeLabel (label : Str) : Bytes := UInt8.ofNat (bytes label).length :: bytes label

variable (idna : String → Option String)

def encodeDnsName (name : Str) : Bytes :=
  (labelsOf (domainToAscii idna (String.ofList name)).toList).flatMap encodeLabel ++ [0]

/-! ## Queries and responses -/

def be16 (msg : Bytes) (i : Nat) : Checked UInt16 := do
  let hi ← get msg i
  let lo ← get msg (i + 1)
  pure (UInt16.ofNat (ofBe16 hi lo))

def buildDnsQuery (id : UInt16) (qname : Str) : Bytes :=
  toBe16 id.toNat ++ toBe16 0x0100 ++ toBe16 1 ++ List.replicate 6 0 ++ encodeDnsName idna qname ++
    toBe16 1 ++ toBe16 1

/-- `build_named_a_response`: the name of the answer is a pointer to the question. -/
def buildNamedAResponse (id : UInt16) (qname : Str) (ip : Ipv4Addr) : Bytes :=
  toBe16 id.toNat ++ toBe16 0x8580 ++ toBe16 1 ++ toBe16 1 ++ List.replicate 4 0 ++
    encodeDnsName idna qname ++ toBe16 1 ++ toBe16 1 ++
    toBe16 0xC00C ++ toBe16 1 ++ toBe16 1 ++ toBe 4 300 ++ toBe16 4 ++ ip.octets

def buildEmptyDns (id : UInt16) (qname : Str) (qtype : UInt16) : Bytes :=
  toBe16 id.toNat ++ toBe16 0x8180 ++ toBe16 1 ++ List.replicate 6 0 ++ encodeDnsName idna qname ++
    toBe16 qtype.toNat ++ toBe16 1

/-- `parse_dns_query`: the id, the name and the type of the first question. -/
def parseDnsQuery (payload : Bytes) : Checked (Option (UInt16 × Str × UInt16)) :=
  if payload.length < 12 then .ok none
  else do
    let id ← be16 payload 0
    let flags ← be16 payload 2
    if flags &&& 0x8000 ≠ 0 then .ok none
    else do
      let qd ← be16 payload 4
      if qd < 1 then .ok none
      else do
        let some (qname, off) ← readDnsName payload 12 | .ok none
        if payload.length < off + 4 ∨ qname.isEmpty then .ok none
        else do
          let qtype ← be16 payload off
          let qclass ← be16 payload (off + 2)
          .ok (if qclass = 1 then some (id, qname, qtype) else none)

/-- The questions of `parse_a_answers`, `n` of them, and the offset after them. -/
def skipQuestions (msg : Bytes) : (n : Nat) → (off : Nat) → Checked (Option Nat)
  | 0, off => .ok (some off)
  | n + 1, off => do
      let some (_, off) ← readDnsName msg off | .ok none
      if msg.length < off + 4 then .ok none else skipQuestions msg n (off + 4)

/-- The address of an answer record that holds one, at its fixed fields. -/
def readAddress (msg : Bytes) (off : Nat) : Checked IpAddr := do
  let a ← get msg off
  let b ← get msg (off + 1)
  let c ← get msg (off + 2)
  let d ← get msg (off + 3)
  pure (.v4 ⟨a, b, c, d⟩)

/-- The answers of `parse_a_answers`, `n` of them. -/
def readAnswers (msg : Bytes) : (n : Nat) → (off : Nat) → List IpAddr →
    Checked (Option (List IpAddr))
  | 0, _, ips => .ok (some ips)
  | n + 1, off, ips => do
      let some (_, off) ← readDnsName msg off | .ok none
      if msg.length < off + 10 then .ok none
      else do
        let ty ← be16 msg off
        let rdlen ← be16 msg (off + 8)
        if msg.length < off + 10 + rdlen.toNat then .ok none
        else if ty = 1 ∧ rdlen = 4 then do
          let ip ← readAddress msg (off + 10)
          readAnswers msg n (off + 10 + rdlen.toNat) (ips ++ [ip])
        else readAnswers msg n (off + 10 + rdlen.toNat) ips

def parseAAnswers (msg : Bytes) : Checked (Option (List IpAddr)) :=
  if msg.length < 12 then .ok none
  else do
    let flags ← be16 msg 2
    if flags &&& 0x8000 = 0 then .ok none
    else do
      let qd ← be16 msg 4
      let an ← be16 msg 6
      let some off ← skipQuestions msg qd.toNat 12 | .ok none
      readAnswers msg an.toNat off []

/-! ## Answering a query in place -/

/-- The loop of `build_a_response` over the labels of the question. -/
def questionLoop (query : Bytes) : Loop Nat (Checked Nat) where
  body i :=
    if i < query.length then
      match get query i with
      | .error e => .inr (.error e)
      | .ok len => if len = 0 then .inr (.ok i) else .inl (i + (1 + len.toNat))
    else .inr (.ok i)
  measure i := query.length - i
  decreases := by
    intro i i' h
    split at h
    · split at h
      · cases h
      · split at h
        · cases h
        · cases h
          omega
    · cases h

def buildAResponse (query : Bytes) (ip : Ipv4Addr) : Checked (Option Bytes) :=
  if query.length < 12 then .ok none
  else do
    let header ← slice query 0 12
    let header ← copy header 2 4 [0x81, 0x80]
    let header ← copy header 6 8 [0, 1]
    let i ← (questionLoop query).run 12
    if query.length < i + 5 then .ok none
    else do
      let question ← slice query 12 (i + 5)
      .ok (some (header ++ question ++
        [0xC0, 0x0C, 0x00, 0x01, 0x00, 0x01, 0x00, 0x00, 0x00, 0x3C, 0x00, 0x04] ++ ip.octets))

end Dns

end RustClash
