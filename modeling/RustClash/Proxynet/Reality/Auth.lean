import RustClash.Lib.Checked
import RustClash.Proxynet.Reality.Schedule

/-!
# REALITY authentication

The client proves that it knows the server's public key with a sealed session id;
the server proves that it knows the private one with the signature on its
certificate.
-/

namespace RustClash

namespace Reality

open Uuid (hexDigit hexBytes)

def sessionIdSize : Nat := 32
def authKeySize : Nat := 32
def shortIdSize : Nat := 8
def sessionIdOffset : Nat := 39

variable (p : TlsPrimitives)

def deriveAuthKey (clientPrivate serverPublic : Octets 32) (clientRandom : Bytes) :
    Except ProxyError (Octets authKeySize) :=
  if clientRandom.length ≠ 32 then .error (hsErr "The client random is 32 bytes.")
  else
    let shared := p.x25519 clientPrivate serverPublic
    .ok (p.hkdfSha256 (clientRandom.take 20) shared.bytes (ascii "REALITY") authKeySize)

/-- What the session id tells the server. -/
def sessionIdPlaintext (clientVersion : Octets 3) (unixTime : UInt32) (shortId : Octets shortIdSize) :
    Bytes :=
  clientVersion.bytes ++ [0] ++ toBe 4 unixTime.toNat ++ shortId.bytes

def sealSessionId (clientHello : Bytes) (authKey : Octets authKeySize)
    (shortId : Octets shortIdSize) (unixTime : UInt32) (clientVersion : Octets 3) :
    Except ProxyError Bytes :=
  if clientHello.length < sessionIdOffset + sessionIdSize then
    .error (hsErr "The ClientHello is too short to contain a session id.")
  else
    let declared := clientHello.getD (sessionIdOffset - 1) 0
    if declared ≠ UInt8.ofNat sessionIdSize then
      let declared := declared.toNat
      .error (hsErr s!"REALITY requires a {sessionIdSize}-byte session id; this ClientHello declares {declared}.")
    else
      let clientRandom := (clientHello.take 38).drop 6
      let plaintext := sessionIdPlaintext clientVersion unixTime shortId
      let clientHello :=
        Checked.overwrite clientHello sessionIdOffset (List.replicate sessionIdSize 0)
      let nonce := clientRandom.drop 20
      let sealed := (p.aes256Gcm authKey.bytes).encrypt nonce clientHello plaintext
      let size := sealed.length
      if size ≠ sessionIdSize then .error (hsErr s!"sealed session id is {size} bytes")
      else .ok (Checked.overwrite clientHello sessionIdOffset sealed)

def verifyCertificate (authKey ed25519Pk signature : Bytes) : Bool :=
  signature.length = 64 && (p.hmacSha512 authKey ed25519Pk).bytes == signature

/-- `hex::decode`. -/
def hexDecode (cs : List Char) : Option Bytes := (cs.mapM hexDigit).map hexBytes

/-- The bytes at the front of `[0u8; n]`. -/
def Octets.padded (n : Nat) (bytes : Bytes) : Octets n :=
  ⟨(bytes ++ List.replicate n 0).take n, by simp⟩

def parseShortId (hex : Option String) : Except ProxyError (Octets shortIdSize) :=
  match hex.filter (!·.isEmpty) with
  | none => .ok (Octets.padded shortIdSize [])
  | some hex =>
      let len := (utf8 hex).length
      if len % 2 ≠ 0 then
        .error (hsErr s!"A REALITY short id is an even number of hex digits; '{hex}' is not.")
      else if shortIdSize * 2 < len then
        let size := len / 2
        .error (hsErr s!"A REALITY short id is at most {shortIdSize} bytes; '{hex}' is {size}.")
      else
        match hexDecode hex.toList with
        | none => .error (hsErr s!"'{hex}' is not hex")
        | some bytes => .ok (Octets.padded shortIdSize bytes)

/-- The standard alphabet, and the padding of a last group that lacks it. -/
def standardBase64 (value : String) : List Char :=
  let padded := value.toList.map fun c => if c = '-' then '+' else if c = '_' then '/' else c
  match (utf8 (String.ofList padded)).length % 4 with
  | 2 => padded ++ ['=', '=']
  | 3 => padded ++ ['=']
  | _ => padded

def decodePbk (value : String) : Except ProxyError (Octets 32) :=
  match p.decodeBase64 (standardBase64 value) with
  | none => .error (hsErr s!"REALITY public key '{value}' is not valid base64url.")
  | some key =>
      if h : key.length = 32 then .ok ⟨key, h⟩
      else
        let size := key.length
        .error (hsErr s!"REALITY public key decodes to {size} bytes; need 32.")

/-! ## What sealing does -/

/-- The session id that a ClientHello carries. -/
def sessionIdOf (clientHello : Bytes) : Bytes := (clientHello.drop sessionIdOffset).take sessionIdSize

/-- The seal, with the ClientHello under a zeroed session id as associated data. -/
def sealedSessionId (clientHello : Bytes) (authKey : Octets authKeySize)
    (shortId : Octets shortIdSize) (unixTime : UInt32) (clientVersion : Octets 3) : Bytes :=
  (p.aes256Gcm authKey.bytes).encrypt (((clientHello.take 38).drop 6).drop 20)
    (Checked.overwrite clientHello sessionIdOffset (List.replicate sessionIdSize 0))
    (sessionIdPlaintext clientVersion unixTime shortId)

/-- Sealing replaces the session id, which is where the server looks for it. -/
theorem sealSessionId_ok {clientHello sealedHello : Bytes} {authKey : Octets authKeySize}
    {shortId : Octets shortIdSize} {unixTime : UInt32} {clientVersion : Octets 3}
    (h : sealSessionId p clientHello authKey shortId unixTime clientVersion = .ok sealedHello) :
    sessionIdOf sealedHello = sealedSessionId p clientHello authKey shortId unixTime clientVersion ∧
      (sessionIdOf sealedHello).length = sessionIdSize ∧
      sealedHello.length = clientHello.length := by
  simp only [sealSessionId] at h
  split at h
  · cases h
  · next hlen =>
    split at h
    · cases h
    · split at h
      · cases h
      · next hsize =>
        cases h
        change ¬ (sealedSessionId p clientHello authKey shortId unixTime clientVersion).length ≠
          sessionIdSize at hsize
        change sessionIdOf (Checked.overwrite _ sessionIdOffset
          (sealedSessionId p clientHello authKey shortId unixTime clientVersion)) = _ ∧
            (sessionIdOf (Checked.overwrite _ sessionIdOffset
              (sealedSessionId p clientHello authKey shortId unixTime clientVersion))).length = _ ∧
            (Checked.overwrite _ sessionIdOffset
              (sealedSessionId p clientHello authKey shortId unixTime clientVersion)).length = _
        rw [not_not] at hsize
        rw [Nat.not_lt] at hlen
        generalize sealedSessionId p clientHello authKey shortId unixTime clientVersion = sid at hsize ⊢
        have hzeroed : (Checked.overwrite clientHello sessionIdOffset
            (List.replicate sessionIdSize 0)).length = clientHello.length :=
          Checked.length_overwrite (by rwa [List.length_replicate])
        generalize Checked.overwrite clientHello sessionIdOffset (List.replicate sessionIdSize 0) =
          zeroed at hzeroed ⊢
        have htake : (zeroed.take sessionIdOffset).length = sessionIdOffset := by
          rw [List.length_take, hzeroed]
          omega
        have hsid : sessionIdOf (Checked.overwrite zeroed sessionIdOffset sid) = sid := by
          rw [sessionIdOf, Checked.overwrite, List.append_assoc, List.drop_left' htake,
            List.take_left' hsize]
        refine ⟨hsid, hsid.symm ▸ hsize, ?_⟩
        rw [Checked.length_overwrite (by rw [hsize, hzeroed]; exact hlen), hzeroed]

end Reality

end RustClash
