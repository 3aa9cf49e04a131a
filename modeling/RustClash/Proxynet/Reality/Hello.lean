import RustClash.Lib.Checked
import RustClash.Proxynet.Reality.Auth

/-!
# The ClientHello

`TlsWriter` writes a vector with room for its length first, and fills the length
in when the vector ends.  The random bytes and the private key that `build` draws
are arguments.
-/

namespace RustClash

namespace Reality

/-- The bytes of a message as they are put together. -/
structure TlsWriter where
  buf : Bytes

namespace TlsWriter

def new : TlsWriter := ⟨[]⟩

def writeBytes (w : TlsWriter) (v : Bytes) : TlsWriter := ⟨w.buf ++ v⟩
def writeU8 (w : TlsWriter) (v : UInt8) : TlsWriter := w.writeBytes [v]
def writeU16 (w : TlsWriter) (v : Nat) : TlsWriter := w.writeBytes (toBe16 v)
def writeZeros (w : TlsWriter) (n : Nat) : TlsWriter := w.writeBytes (List.replicate n 0)

/-- `begin_vector8`, `begin_vector16` and `begin_vector24`: a length of `width` bytes. -/
def beginVector (w : TlsWriter) (width : Nat) : Nat × TlsWriter :=
  let w := w.writeZeros width
  (w.buf.length, w)

/-- The length in front of the vector is filled in, as many bytes of it as were left. -/
def endVector (w : TlsWriter) (marker width : Nat) : TlsWriter :=
  let length := w.buf.length - marker
  ⟨Checked.overwrite w.buf (marker - width) (toBe width length)⟩

/-- A vector with `content` in it. -/
def vector (w : TlsWriter) (width : Nat) (content : TlsWriter → TlsWriter) : TlsWriter :=
  let (marker, w) := w.beginVector width
  (content w).endVector marker width

end TlsWriter

/-- The message, and the private key behind the share in it. -/
structure ClientHello where
  handshake : Bytes
  privateKey : Octets 32

variable (p : TlsPrimitives)

/-- A name that is not ASCII goes out as an A-label, if it has one. -/
def toAlabel (name : String) : String :=
  if (utf8 name).all (· < 128) then name else (p.domainToAscii name).getD name

def writeSni (w : TlsWriter) (name : String) : TlsWriter :=
  let ascii := toAlabel p name
  (w.writeU16 0).vector 2 fun w =>
    w.vector 2 fun w => (w.writeU8 0).vector 2 fun w => w.writeBytes (utf8 ascii)

/-- X25519 is the only group. -/
def writeGroups (w : TlsWriter) : TlsWriter :=
  (w.writeU16 10).vector 2 fun w => w.vector 2 fun w => w.writeU16 0x001D

def writeSigalgs (w : TlsWriter) : TlsWriter :=
  (w.writeU16 13).vector 2 fun w => w.vector 2 fun w =>
    [0x0403, 0x0804, 0x0401, 0x0503, 0x0805, 0x0501, 0x0806, 0x0601].foldl TlsWriter.writeU16 w

/-- TLS 1.3 and no version before it. -/
def writeVersions (w : TlsWriter) : TlsWriter :=
  (w.writeU16 43).vector 2 fun w => w.vector 1 fun w => w.writeU16 0x0304

def writePsk (w : TlsWriter) : TlsWriter :=
  (w.writeU16 45).vector 2 fun w => w.vector 1 fun w => w.writeU8 1

/-- The public key for X25519. -/
def writeKeyShare (w : TlsWriter) (pk : Octets 32) : TlsWriter :=
  (w.writeU16 51).vector 2 fun w => w.vector 2 fun w =>
    (w.writeU16 0x001D).vector 2 fun w => w.writeBytes pk.bytes

def writeAlpn (w : TlsWriter) (alpn : List String) : TlsWriter :=
  (w.writeU16 16).vector 2 fun w => w.vector 2 fun w =>
    alpn.foldl (fun w name => w.vector 1 fun w => w.writeBytes (utf8 name)) w

/-- The protocols are named only if there are any. -/
def writeExtensions (w : TlsWriter) (serverName : String) (alpn : List String)
    (publicKey : Octets 32) : TlsWriter :=
  let w := writeSni p w serverName
  let w := writePsk (writeVersions (writeSigalgs (writeGroups w)))
  let w := writeKeyShare w publicKey
  if alpn.isEmpty then w else writeAlpn w alpn

/-- The session id is left zero, for what authenticates the client. -/
def build (serverName : String) (alpn : List String) (privateKey random : Octets 32) :
    ClientHello :=
  let publicKey := p.x25519Public privateKey
  let w := (TlsWriter.new.writeU8 1).vector 3 fun w =>
    let w := (w.writeU16 0x0303).writeBytes random.bytes
    let w := (w.writeU8 (UInt8.ofNat sessionIdSize)).writeZeros sessionIdSize
    let w := w.vector 2 fun w => ((w.writeU16 0x1301).writeU16 0x1302).writeU16 0x1303
    let w := w.vector 1 fun w => w.writeU8 0
    w.vector 2 fun w => writeExtensions p w serverName alpn publicKey
  ⟨w.buf, privateKey⟩

end Reality

end RustClash
