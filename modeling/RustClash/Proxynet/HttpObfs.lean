import RustClash.Lib.Http
import RustClash.Net.Cursor
import RustClash.Net.Transport
import RustClash.Proxynet.Primitives

/-!
# The simple-obfs HTTP stream

`HttpObfsStream` sends its first write as the body of an upgrade request, and everything
after it as it is.  The header of the response is taken off what is read.
-/

namespace RustClash

/-- The standard engine of the `base64` crate. -/
structure Base64 where
  encode : Bytes → String

/-- The alphabet of the standard engine, and its padding. -/
def Base64.Standard (b : Base64) : Prop :=
  ∀ bs, ∀ c ∈ (b.encode bs).toList, c.isAlphanum ∨ c = '+' ∨ c = '/' ∨ c = '='

namespace HttpObfs

inductive HttpRead where
  | header (buf : Bytes)
  | leftover (data : Cursor)
  | transfer
deriving DecidableEq

inductive HttpWrite where
  | first
  | flush (cur : Cursor)
  | transfer
deriving DecidableEq

/-- What `build_http_request` draws: the bytes of the key, and the two numbers the version
of the user agent is made of. -/
structure Draws where
  key : Octets 16
  minor : UInt32
  patch : UInt32

def findHeaderEnd : Bytes → Option Nat
  | [] => none
  | b :: bs =>
      if [13, 10, 13, 10].isPrefixOf (b :: bs) then some 4
      else (findHeaderEnd bs).map (· + 1)

def startLine (path : String) : Bytes :=
  ascii "GET " ++ utf8 (if path.isEmpty then "/" else path) ++ ascii " HTTP/1.1"

def hostLine (host : String) : Bytes := ascii "Host: " ++ utf8 host

/-- The lines of the request before the empty one. -/
def requestLines (b : Base64) (path host : String) (body : Bytes) (draws : Draws) : List Bytes :=
  [startLine path,
    hostLine host,
    ascii "User-Agent: curl/7." ++ Http.digits (draws.minor % 51).toNat ++
      (ascii "." ++ Http.digits (draws.patch % 2).toNat),
    ascii "Upgrade: websocket",
    ascii "Connection: Upgrade",
    ascii "Sec-WebSocket-Key: " ++ utf8 (b.encode draws.key.bytes),
    ascii "Content-Length: " ++ Http.digits body.length]

def buildHttpRequest (b : Base64) (path host : String) (body : Bytes) (draws : Draws) : Bytes :=
  Http.joinPair 13 10 (requestLines b path host body draws) ++ (ascii "\r\n" ++ body)

def maxHeader : Nat := 4096

def tooLarge : IoError := ⟨.other, "obfs http response too large"⟩
def headerEof : IoError := ⟨.unexpectedEof, "obfs http eof"⟩

end HttpObfs

open HttpObfs

/-- The stream over `inner`, with what its request will draw. -/
structure HttpObfsStream (b : Base64) (σ : Type) where
  inner : σ
  path : String
  host : String
  read : HttpRead
  write : HttpWrite
  draws : Draws

namespace HttpObfsStream

variable {b : Base64} {σ : Type}

def new (b : Base64) (inner : σ) (path host : String) (draws : Draws) : HttpObfsStream b σ :=
  ⟨inner, path, host, .header [], .first, draws⟩

/-! ## Reading -/

section

variable [AsyncRead σ]

/-- What one pass of the loop of `poll_read` does. -/
def readPass (st : HttpObfsStream b σ) (cap : Nat) :
    HttpObfsStream b σ ⊕ (Answer UInt8 IoError cap × HttpObfsStream b σ) :=
  match st.read with
  | .header acc =>
      if maxHeader < acc.length then .inr (.ready (.error tooLarge), st)
      else
        match pollRead st.inner 256 with
        | (.pending, inner) => .inr (.pending, { st with inner })
        | (.ready (.error e), inner) => .inr (.ready (.error e), { st with inner })
        | (.ready (.ok d), inner) =>
            if d.items.isEmpty then .inr (.ready (.error headerEof), { st with inner })
            else
              let acc := acc ++ d.items
              match findHeaderEnd acc with
              | some pos => .inl { st with inner, read := .leftover (.new (acc.drop pos)) }
              | none => .inl { st with inner, read := .header acc }
  | .leftover data =>
      if data.remaining.isEmpty then .inl { st with read := .transfer }
      else
        let next := data.advance (min data.remaining.length cap)
        .inr (.ready (.ok (.fill cap data.remaining)),
          { st with read := if next.pos = next.data.length then .transfer else .leftover next })
  | .transfer =>
      let (r, inner) := pollRead st.inner cap
      .inr (r, { st with inner })

def readMeasure (st : HttpObfsStream b σ) : Nat :=
  match st.read with
  | .header acc => maxHeader + 2 - acc.length
  | .leftover _ => 1
  | .transfer => 0

def readLoop (b : Base64) (σ : Type) [AsyncRead σ] (cap : Nat) :
    Loop (HttpObfsStream b σ) (Answer UInt8 IoError cap × HttpObfsStream b σ) where
  body st := st.readPass cap
  measure := readMeasure
  decreases := by
    intro st st' h
    simp only [readPass] at h
    split at h
    · next acc hread =>
        split at h
        · cases h
        · next hmax =>
            split at h
            · cases h
            · cases h
            · next d inner hr =>
                split at h
                · cases h
                · next hd =>
                    have hpos : 0 < d.items.length :=
                      List.length_pos_iff.mpr fun h => hd (List.isEmpty_iff.mpr h)
                    split at h
                    · cases h
                      simp only [readMeasure, hread]
                      omega
                    · cases h
                      simp only [readMeasure, hread, List.length_append]
                      omega
    · next data hread =>
        split at h
        · cases h
          simp only [readMeasure, hread]
          exact Nat.zero_lt_one
        · cases h
    · cases h

instance : AsyncRead (HttpObfsStream b σ) where
  pollRead st cap := (readLoop b σ cap).run st

end

/-! ## Writing -/

section

variable [AsyncWrite σ]

/-- What one pass of the loop of `poll_write` does; the write behind the loop is its last. -/
def writePass (st : HttpObfsStream b σ) (buf : Bytes) :
    HttpObfsStream b σ ⊕ (Poll (IoResult Nat) × HttpObfsStream b σ) :=
  match st.write with
  | .first =>
      .inl { st with write := .flush (.new (buildHttpRequest b st.path st.host buf st.draws)) }
  | .flush cur =>
      match pollWriteBuf st.inner cur with
      | (.pending, cur, inner) => .inr (.pending, { st with inner, write := .flush cur })
      | (.ready (.error e), cur, inner) =>
          .inr (.ready (.error e), { st with inner, write := .flush cur })
      | (.ready (.ok _), cur, inner) =>
          if cur.data.length ≤ cur.pos then
            .inr (.ready (.ok buf.length), { st with inner, write := .transfer })
          else .inl { st with inner, write := .flush cur }
  | .transfer =>
      let (r, inner) := pollWrite st.inner buf
      .inr (r, { st with inner })

variable [ZeroLaw σ]

def writeMeasure (buf : Bytes) (st : HttpObfsStream b σ) : Nat :=
  match st.write with
  | .first =>
      (buildHttpRequest b st.path st.host buf st.draws).length + ZeroLaw.bound.zeros st.inner + 1
  | .flush cur => cur.remaining.length + ZeroLaw.bound.zeros st.inner
  | .transfer => 0

def writeLoop (b : Base64) (σ : Type) [AsyncWrite σ] [ZeroLaw σ] (buf : Bytes) :
    Loop (HttpObfsStream b σ) (Poll (IoResult Nat) × HttpObfsStream b σ) where
  body st := st.writePass buf
  measure := writeMeasure buf
  decreases := by
    intro st st' h
    simp only [writePass] at h
    split at h
    · next hwrite =>
        cases h
        simp only [writeMeasure, hwrite, Cursor.remaining_new]
        exact Nat.lt_succ_self _
    · next cur hwrite =>
        split at h
        · cases h
        · cases h
        · next n cur' inner hw =>
            split at h
            · cases h
            · next hpos =>
                cases h
                simp only [writeMeasure, hwrite]
                exact pollWriteBuf_lt ZeroLaw.bound hw (Nat.not_le.mp hpos)
    · cases h

instance : AsyncWrite (HttpObfsStream b σ) where
  pollWrite st buf := (writeLoop b σ buf).run st
  pollFlush st :=
    let (r, inner) := pollFlush st.inner
    (r, { st with inner })

end

end HttpObfsStream

end RustClash
