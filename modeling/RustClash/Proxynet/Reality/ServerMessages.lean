import RustClash.Lib.Loop
import RustClash.Lib.Session
import RustClash.Proxynet.Reality.Auth

/-!
# Messages of the server

`parseServerHello` and `extractLeaf` take one field after the other off a message.
Neither looks at what stands behind the last field it asks for.
-/

namespace RustClash

namespace Reality

/-- A field of `n` bytes. -/
def take (n : Nat) (what : String) : Session Bytes ProxyError Bytes := fun src =>
  let had := src.length
  if had < n then
    (.error (hsErr s!"The peer's message ended before {what}: needed {n} more bytes, had {had}."), src)
  else (.ok (src.take n), src.drop n)

def takeU8 (what : String) : Session Bytes ProxyError UInt8 := do
  let field ← take 1 what
  pure (field.getD 0 0)

def takeU16 (what : String) : Session Bytes ProxyError Nat := do
  let field ← take 2 what
  pure (ofBe16 (field.getD 0 0) (field.getD 1 0))

def takeU24 (what : String) : Session Bytes ProxyError Nat := do
  let field ← take 3 what
  pure (ofBe field)

/-! ## ServerHello -/

/-- The random of a HelloRetryRequest. -/
def hrr : Bytes :=
  [0xCF, 0x21, 0xAD, 0x74, 0xE5, 0x9A, 0x61, 0x11, 0xBE, 0x1D, 0x8C, 0x02, 0x1E, 0x65, 0xB8, 0x91,
    0xC2, 0xA2, 0x11, 0x16, 0x7A, 0xBB, 0x8C, 0x5E, 0x07, 0x9E, 0x09, 0xE2, 0xC8, 0xA8, 0x33, 0x9C]

structure ServerHello where
  suite : CipherSuite
  keyShare : Octets 32
deriving DecidableEq

/-- What the extensions that were read so far say. -/
structure Extensions where
  keyShare : Option (Octets 32)
  tls13 : Bool

/-- A key share that is not X25519, or too short, is not taken. -/
def Extensions.read (found : Extensions) (extension : Nat × Bytes) : Extensions :=
  let (ty, data) := extension
  if ty = 43 ∧ data = [0x03, 0x04] then { found with tls13 := true }
  else if ty = 51 ∧ 4 ≤ data.length then
    let group := ofBe16 (data.getD 0 0) (data.getD 1 0)
    let sl := ofBe16 (data.getD 2 0) (data.getD 3 0)
    if h : group = 0x001D ∧ sl = 32 ∧ 4 + 32 ≤ data.length then
      { found with
        keyShare := some ⟨(data.drop 4).take 32, by rw [List.length_take, List.length_drop]; omega⟩ }
    else found
  else found

def takeExtension : Session Bytes ProxyError (Nat × Bytes) := do
  let ty ← takeU16 "an extension type"
  let len ← takeU16 "an extension length"
  let data ← take len "extension"
  pure (ty, data)

/-- `Display` for `04X`. -/
def hex4 (n : Nat) : String :=
  let digits := (Nat.toDigits 16 n).map Char.toUpper
  String.ofList (List.replicate (4 - digits.length) '0' ++ digits)

theorem take_ok {n : Nat} {what : String} {src field rest : Bytes} :
    take n what src = (.ok field, rest) ↔ field.length = n ∧ src = field ++ rest := by
  simp only [take]
  split
  · next hlt =>
    refine ⟨nofun, ?_⟩
    rintro ⟨rfl, rfl⟩
    rw [List.length_append] at hlt
    omega
  · next hge =>
    constructor
    · intro h
      cases h
      exact ⟨by rw [List.length_take]; omega, (List.take_append_drop n src).symm⟩
    · rintro ⟨rfl, rfl⟩
      rw [List.take_left' rfl, List.drop_left' rfl]

theorem takeU8_ok {what : String} {src rest : Bytes} {b : UInt8} :
    takeU8 what src = (.ok b, rest) ↔ src = [b] ++ rest := by
  rw [takeU8, Session.bind_ok]
  constructor
  · rintro ⟨field, rest', htake, hpure⟩
    obtain ⟨rfl, rfl⟩ := Session.pure_ok.mp hpure
    obtain ⟨hlen, rfl⟩ := take_ok.mp htake
    obtain ⟨b, rfl⟩ := List.length_eq_one_iff.mp hlen
    rfl
  · rintro rfl
    exact ⟨[b], rest, take_ok.mpr ⟨rfl, rfl⟩, Session.pure_ok.mpr ⟨rfl, rfl⟩⟩

theorem takeU16_ok {what : String} {src rest : Bytes} {n : Nat}
    (h : takeU16 what src = (.ok n, rest)) : src = toBe16 n ++ rest ∧ n < 65536 := by
  rw [takeU16, Session.bind_ok] at h
  obtain ⟨field, rest', htake, hpure⟩ := h
  obtain ⟨rfl, rfl⟩ := Session.pure_ok.mp hpure
  obtain ⟨hlen, rfl⟩ := take_ok.mp htake
  obtain ⟨hi, lo, rfl⟩ := List.length_eq_two.mp hlen
  refine ⟨congrArg (· ++ rest) (toBe16_ofBe16 hi lo).symm, ?_⟩
  have hhi := hi.toNat_lt
  have hlo := lo.toNat_lt
  show hi.toNat * 256 + lo.toNat < 65536
  omega

theorem takeU24_ok {what : String} {src rest : Bytes} {n : Nat}
    (h : takeU24 what src = (.ok n, rest)) : src = toBe 3 n ++ rest ∧ n < 2 ^ 24 := by
  rw [takeU24, Session.bind_ok] at h
  obtain ⟨field, rest', htake, hpure⟩ := h
  obtain ⟨rfl, rfl⟩ := Session.pure_ok.mp hpure
  obtain ⟨hlen, rfl⟩ := take_ok.mp htake
  have hlt := ofBe_lt field
  have hbe := toBe_ofBe field
  rw [hlen] at hlt hbe
  exact ⟨by rw [hbe], hlt⟩

/-- An extension on the wire. -/
def encodeExtension (extension : Nat × Bytes) : Bytes :=
  toBe16 extension.1 ++ toBe16 extension.2.length ++ extension.2

theorem takeExtension_ok {exts rest : Bytes} {extension : Nat × Bytes}
    (h : takeExtension exts = (.ok extension, rest)) :
    exts = encodeExtension extension ++ rest ∧ extension.1 < 65536 ∧
      extension.2.length < 65536 := by
  simp only [takeExtension, Session.bind_ok] at h
  obtain ⟨ty, r₁, hty, len, r₂, hlen, data, r₃, hdata, hpure⟩ := h
  obtain ⟨rfl, rfl⟩ := Session.pure_ok.mp hpure
  obtain ⟨rfl, htyLt⟩ := takeU16_ok hty
  obtain ⟨rfl, hlenLt⟩ := takeU16_ok hlen
  obtain ⟨rfl, rfl⟩ := take_ok.mp hdata
  exact ⟨by simp only [encodeExtension, List.append_assoc], htyLt, hlenLt⟩

/-- The loop over the extensions. -/
def extensionLoop : Loop (Bytes × Extensions) (Except ProxyError Extensions) where
  body st :=
    if st.1.isEmpty then .inr (.ok st.2)
    else
      match takeExtension st.1 with
      | (.error e, _) => .inr (.error e)
      | (.ok extension, exts) => .inl (exts, st.2.read extension)
  measure st := st.1.length
  decreases := by
    intro st st' h
    split at h
    · cases h
    · split at h
      · cases h
      · next htake =>
        cases h
        rw [(takeExtension_ok htake).1, encodeExtension]
        simp only [List.length_append, length_toBe16]
        omega

/-- A hello of at least four bytes, behind its message header. -/
def readServerHello (clientHello : Bytes) : Session Bytes ProxyError ServerHello := do
  let vr ← take 34 "the version and random"
  Session.failIf (vr.drop 2 = hrr)
    (hsErr "The server sent a HelloRetryRequest, which this client does not implement.")
  let sidLen ← takeU8 "the session id length"
  let echo ← take sidLen.toNat "the session id"
  Session.failIf (echo ≠ sessionIdOf clientHello)
    (hsErr "The server echoed a different session id than we sent. The ClientHello was altered in flight.")
  let suiteId ← takeU16 "the cipher suite"
  let compression ← takeU8 "the compression method"
  Session.failIf (compression ≠ 0)
    (hsErr "The server selected a compression method; TLS 1.3 has none.")
  let suite ← Session.ofExcept <|
    match CipherSuite.fromId suiteId with
    | some suite => .ok suite
    | none =>
        let id := hex4 suiteId
        .error (hsErr s!"The server chose cipher suite 0x{id}, which we did not offer.")
  let extLen ← takeU16 "the extensions length"
  let exts ← take extLen "the extensions"
  let found ← Session.ofExcept (extensionLoop.run (exts, ⟨none, false⟩))
  Session.failIf (found.tls13 = false) (hsErr "The server did not select TLS 1.3.")
  match found.keyShare with
  | some keyShare => pure ⟨suite, keyShare⟩
  | none =>
      Session.ofExcept (.error (hsErr "The server's key_share is missing or is not X25519."))

def parseServerHello (raw clientHello : Bytes) : Except ProxyError ServerHello :=
  if raw.length < 4 then .error (hsErr "short ServerHello")
  else (readServerHello clientHello (raw.drop 4)).1

/-! ## The leaf certificate -/

def takeFirst : Session Bytes ProxyError Bytes := do
  let certLen ← takeU24 "the leaf certificate length"
  take certLen "the leaf certificate"

def readLeaf : Session Bytes ProxyError Bytes := do
  let ctxLen ← takeU8 "the certificate request context length"
  let _ ← take ctxLen.toNat "the certificate request context"
  let listLen ← takeU24 "the certificate list length"
  let list ← take listLen "the certificate list"
  Session.failIf (list.isEmpty = true) (hsErr "The server sent an empty certificate list.")
  Session.ofExcept (takeFirst list).1

def extractLeaf (body : Bytes) : Except ProxyError Bytes := (readLeaf body).1

/-! ## What is accepted -/

/-- The cipher suites of the ClientHello. -/
def offeredSuites : List Nat := [0x1301, 0x1302, 0x1303]

/-- The fields of a ServerHello. -/
structure ServerHelloFields where
  version : Octets 2
  random : Octets 32
  sessionId : Bytes
  suite : Nat
  compression : UInt8
  extensions : List (Nat × Bytes)

namespace ServerHelloFields

def encode (h : ServerHelloFields) : Bytes :=
  let extensions := h.extensions.flatMap encodeExtension
  h.version.bytes ++ h.random.bytes ++ [UInt8.ofNat h.sessionId.length] ++ h.sessionId ++
    toBe16 h.suite ++ [h.compression] ++ toBe16 extensions.length ++ extensions

/-- Every number fits the bytes that it is written in. -/
structure Fits (h : ServerHelloFields) : Prop where
  sessionId : h.sessionId.length < 256
  suite : h.suite < 65536
  extension : ∀ e ∈ h.extensions, e.1 < 65536 ∧ e.2.length < 65536
  extensions : (h.extensions.flatMap encodeExtension).length < 65536

/-- The choices of a server that REALITY goes on with, when the ClientHello had the session
id `sid`. -/
structure Selects (h : ServerHelloFields) (sid : Bytes) (parsed : ServerHello) : Prop where
  notRetry : h.random.bytes ≠ hrr
  echo : h.sessionId = sid
  offered : h.suite ∈ offeredSuites
  suite : CipherSuite.fromId h.suite = some parsed.suite
  compression : h.compression = 0
  tls13 : (43, [0x03, 0x04]) ∈ h.extensions
  keyShare : ∃ more, (51, toBe16 0x001D ++ toBe16 32 ++ parsed.keyShare.bytes ++ more) ∈ h.extensions

end ServerHelloFields

theorem CipherSuite.fromId_offered {id : Nat} {suite : CipherSuite} (h : fromId id = some suite) :
    id ∈ offeredSuites := by
  simp only [fromId] at h
  split at h
  · next hid => simp [offeredSuites, hid]
  · split at h
    · next hid => simp [offeredSuites, hid]
    · split at h
      · next hid => simp [offeredSuites, hid]
      · cases h

/-- The loop reads all extensions, one after the other. -/
theorem extensionLoop_ok {exts : Bytes} {found found' : Extensions}
    (h : extensionLoop.run (exts, found) = .ok found') :
    ∃ extensions : List (Nat × Bytes), exts = extensions.flatMap encodeExtension ∧
      (∀ e ∈ extensions, e.1 < 65536 ∧ e.2.length < 65536) ∧
      found' = extensions.foldl Extensions.read found := by
  refine Loop.rule (l := extensionLoop) (P := fun st r => ∀ found', r = .ok found' →
    ∃ extensions : List (Nat × Bytes), st.1 = extensions.flatMap encodeExtension ∧
      (∀ e ∈ extensions, e.1 < 65536 ∧ e.2.length < 65536) ∧
      found' = extensions.foldl Extensions.read st.2) ?_ ?_ (exts, found) found' h
  · intro st st' r hb ih found' hr
    simp only [extensionLoop] at hb
    split at hb
    · cases hb
    · split at hb
      · cases hb
      · next e rest htake =>
        cases hb
        obtain ⟨hexts, hty, hlen⟩ := takeExtension_ok htake
        obtain ⟨extensions, hrest, hfits, hfound⟩ := ih found' hr
        refine ⟨e :: extensions, ?_, List.forall_mem_cons.mpr ⟨⟨hty, hlen⟩, hfits⟩, hfound⟩
        rw [hexts]
        exact congrArg (encodeExtension e ++ ·) hrest
  · intro st r hb found' hr
    simp only [extensionLoop] at hb
    split at hb
    · next hnil =>
      cases hb
      cases hr
      exact ⟨[], List.isEmpty_iff.mp hnil, nofun, rfl⟩
    · split at hb
      · cases hb
        cases hr
      · cases hb

/-- The data of a key share that is taken. -/
theorem Extensions.keyShare_data {data : Bytes}
    (h : ofBe16 (data.getD 0 0) (data.getD 1 0) = 0x001D ∧
      ofBe16 (data.getD 2 0) (data.getD 3 0) = 32 ∧ 4 + 32 ≤ data.length) :
    data = toBe16 0x001D ++ toBe16 32 ++ (data.drop 4).take 32 ++ data.drop 36 := by
  obtain ⟨hgroup, hsl, hlen⟩ := h
  have hfour : data = [data.getD 0 0, data.getD 1 0, data.getD 2 0, data.getD 3 0] ++ data.drop 4 := by
    rcases data with _ | ⟨b₀, _ | ⟨b₁, _ | ⟨b₂, _ | ⟨b₃, data⟩⟩⟩⟩
    · simp at hlen
    · simp at hlen
    · simp at hlen
    · simp at hlen
    · rfl
  have hgroup : toBe16 0x001D = [data.getD 0 0, data.getD 1 0] := by rw [← hgroup, toBe16_ofBe16]
  have hsl : toBe16 32 = [data.getD 2 0, data.getD 3 0] := by rw [← hsl, toBe16_ofBe16]
  have hdrop : data.drop 36 = (data.drop 4).drop 32 := by rw [List.drop_drop]
  rw [hgroup, hsl, hdrop, List.append_assoc, List.take_append_drop]
  exact hfour

/-- What the list of extensions says is in one of them, unless it was said before. -/
theorem Extensions.foldl_read (extensions : List (Nat × Bytes)) (found : Extensions) :
    ((extensions.foldl Extensions.read found).tls13 = true →
      found.tls13 = true ∨ (43, [0x03, 0x04]) ∈ extensions) ∧
    (∀ ks, (extensions.foldl Extensions.read found).keyShare = some ks →
      found.keyShare = some ks ∨
        ∃ more, (51, toBe16 0x001D ++ toBe16 32 ++ ks.bytes ++ more) ∈ extensions) := by
  induction extensions generalizing found with
  | nil => exact ⟨Or.inl, fun _ h => Or.inl h⟩
  | cons e extensions ih =>
    obtain ⟨htls, hks⟩ := ih (found.read e)
    obtain ⟨ty, data⟩ := e
    have hread : ((found.read (ty, data)).tls13 = true →
        found.tls13 = true ∨ (ty, data) = (43, [0x03, 0x04])) ∧
        (∀ ks, (found.read (ty, data)).keyShare = some ks → found.keyShare = some ks ∨
          ∃ more, (ty, data) = (51, toBe16 0x001D ++ toBe16 32 ++ ks.bytes ++ more)) := by
      simp only [Extensions.read]
      split
      · next h => exact ⟨fun _ => Or.inr (by rw [h.1, h.2]), fun _ h => Or.inl h⟩
      · split
        · next h =>
          split
          · next hx =>
            refine ⟨Or.inl, fun ks hks => Or.inr ⟨data.drop 36, ?_⟩⟩
            cases hks
            exact Prod.ext h.1 (keyShare_data hx)
          · exact ⟨Or.inl, fun _ h => Or.inl h⟩
        · exact ⟨Or.inl, fun _ h => Or.inl h⟩
    constructor
    · intro h
      rcases htls h with h | h
      · rcases hread.1 h with h | h
        · exact Or.inl h
        · exact Or.inr (h ▸ List.mem_cons_self)
      · exact Or.inr (List.mem_cons_of_mem _ h)
    · intro ks h
      rcases hks ks h with h | ⟨more, h⟩
      · rcases hread.2 ks h with h | ⟨more, h⟩
        · exact Or.inl h
        · exact Or.inr ⟨more, h ▸ List.mem_cons_self⟩
      · exact Or.inr ⟨more, List.mem_cons_of_mem _ h⟩

/-- An accepted ServerHello selects what REALITY goes on with. -/
theorem parseServerHello_sound {raw clientHello : Bytes} {parsed : ServerHello}
    (h : parseServerHello raw clientHello = .ok parsed) :
    ∃ (hello : ServerHelloFields) (behind : Bytes), raw.drop 4 = hello.encode ++ behind ∧
      hello.Fits ∧ hello.Selects (sessionIdOf clientHello) parsed := by
  simp only [parseServerHello] at h
  split at h
  · cases h
  · rcases hread : readServerHello clientHello (raw.drop 4) with ⟨r, behind⟩
    rw [hread] at h
    obtain rfl : r = .ok parsed := h
    simp only [readServerHello, Session.bind_ok, Session.failIf_ok, Session.ofExcept_ok] at hread
    obtain ⟨vr, _, hvr, _, _, ⟨hretry, rfl⟩, sidLen, _, hsidLen, echo, _, hecho, _, _,
      ⟨hsid, rfl⟩, suiteId, _, hsuiteId, compression, _, hcompression, _, _, ⟨hzero, rfl⟩, suite, _,
      ⟨hsuite, rfl⟩, extLen, _, hextLen, exts, rest, hexts, found, _, ⟨hfound, rfl⟩, _, _,
      ⟨htls, rfl⟩, hlast⟩ := hread
    rw [not_ne_iff] at hsid hzero
    rw [Bool.not_eq_false] at htls
    have hsuite : CipherSuite.fromId suiteId = some suite := by
      split at hsuite
      · next hid =>
        cases hsuite
        exact hid
      · cases hsuite
    rcases hks : found.keyShare with _ | keyShare <;> simp only [hks] at hlast
    · cases hlast
    · obtain ⟨rfl, rfl⟩ := Session.pure_ok.mp hlast
      obtain ⟨extensions, rfl, hfits, rfl⟩ := extensionLoop_ok hfound
      obtain ⟨htls13, hshare⟩ := Extensions.foldl_read extensions ⟨none, false⟩
      obtain ⟨hvrLen, hraw⟩ := take_ok.mp hvr
      have hraw₁ := takeU8_ok.mp hsidLen
      obtain ⟨hechoLen, hraw₂⟩ := take_ok.mp hecho
      obtain ⟨hraw₃, hsuiteLt⟩ := takeU16_ok hsuiteId
      have hraw₄ := takeU8_ok.mp hcompression
      obtain ⟨hraw₅, hextLt⟩ := takeU16_ok hextLen
      obtain ⟨hextsLen, hraw₆⟩ := take_ok.mp hexts
      refine ⟨⟨⟨vr.take 2, by rw [List.length_take, hvrLen]; rfl⟩,
        ⟨vr.drop 2, by rw [List.length_drop, hvrLen]⟩, echo, suiteId, compression, extensions⟩, behind,
        ?_, ⟨?_, hsuiteLt, hfits, hextsLen ▸ hextLt⟩,
        ⟨hretry, hsid, CipherSuite.fromId_offered hsuite, hsuite, hzero, ?_, ?_⟩⟩
      · simp only [ServerHelloFields.encode, hechoLen, hextsLen, UInt8.ofNat_toNat,
          List.take_append_drop]
        rw [hraw, hraw₁, hraw₂, hraw₃, hraw₄, hraw₅, hraw₆]
        simp only [List.append_assoc]
      · rw [hechoLen]
        exact sidLen.toNat_lt
      · rcases htls13 htls with h | h
        · cases h
        · exact h
      · rcases hshare keyShare hks with h | h
        · cases h
        · exact h

/-! ### The leaf certificate -/

/-- The first entry of a Certificate message. -/
inductive FirstEntry : (body leaf : Bytes) → Prop
| intro :
  context.length < 256 ->
  leaf.length < 2 ^ 24 ->
  list = toBe 3 leaf.length ++ leaf ++ more ->
  list.length < 2 ^ 24 ->
  FirstEntry ([UInt8.ofNat context.length] ++ context ++ toBe 3 list.length ++ list ++ behind) leaf

theorem extractLeaf_sound {body leaf : Bytes} (h : extractLeaf body = .ok leaf) :
    FirstEntry body leaf := by
  rcases hread : readLeaf body with ⟨r, behind⟩
  rw [extractLeaf, hread] at h
  obtain rfl : r = .ok leaf := h
  simp only [readLeaf, Session.bind_ok, Session.failIf_ok, Session.ofExcept_ok] at hread
  obtain ⟨ctxLen, _, hctxLen, context, _, hcontext, listLen, _, hlistLen, list, _, hlist, _, _,
    ⟨-, rfl⟩, hfirst, rfl⟩ := hread
  rcases htake : takeFirst list with ⟨r, more⟩
  rw [htake] at hfirst
  obtain rfl : r = .ok leaf := hfirst
  rw [takeFirst, Session.bind_ok] at htake
  obtain ⟨certLen, _, hcertLen, hleaf⟩ := htake
  have hbody := takeU8_ok.mp hctxLen
  obtain ⟨hcontextLen, hbody₁⟩ := take_ok.mp hcontext
  obtain ⟨hbody₂, hlistLt⟩ := takeU24_ok hlistLen
  obtain ⟨hlistEq, hbody₃⟩ := take_ok.mp hlist
  obtain ⟨hlist₁, hleafLt⟩ := takeU24_ok hcertLen
  obtain ⟨hleafLen, hlist₂⟩ := take_ok.mp hleaf
  have hlist : list = toBe 3 leaf.length ++ leaf ++ more := by
    rw [hleafLen, hlist₁, hlist₂, List.append_assoc]
  have hbody : body = [UInt8.ofNat context.length] ++ context ++ toBe 3 list.length ++ list ++
      behind := by
    rw [hcontextLen, hlistEq, UInt8.ofNat_toNat, hbody, hbody₁, hbody₂, hbody₃]
    simp only [List.append_assoc]
  rw [hbody]
  refine .intro ?_ (hleafLen ▸ hleafLt) hlist (hlistEq ▸ hlistLt)
  rw [hcontextLen]
  exact ctxLen.toNat_lt

end Reality

end RustClash
