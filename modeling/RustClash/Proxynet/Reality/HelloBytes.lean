import RustClash.Lib.TlsHello
import RustClash.Proxynet.Reality.Hello

/-!
# What `build` writes

A writer that appends the content of a vector appends the vector: the length that is
filled in at the end stands before the content.  So `build` writes a ClientHello with
its lengths, and the session id is where `seal_session_id` looks for it.
-/

namespace RustClash

namespace Reality

/-- The function appends the bytes to what was written, whatever that is. -/
def Appends (f : TlsWriter → TlsWriter) (bs : Bytes) : Prop := ∀ w, (f w).buf = w.buf ++ bs

theorem overwrite_append {α : Type} (a c : List α) {old new : List α}
    (h : old.length = new.length) : Checked.overwrite (a ++ (old ++ c)) a.length new = a ++ (new ++ c) := by
  rw [Checked.overwrite, List.take_left, List.append_assoc, ← h, ← List.drop_drop, List.drop_left,
    List.drop_left]

namespace Appends

variable {f g : TlsWriter → TlsWriter} {bs cs : Bytes}

theorem comp (hf : Appends f bs) (hg : Appends g cs) : Appends (fun w => g (f w)) (bs ++ cs) := by
  intro w
  rw [hg, hf, List.append_assoc]

theorem writeBytes (v : Bytes) : Appends (·.writeBytes v) v := fun _ => rfl
theorem writeU8 (v : UInt8) : Appends (·.writeU8 v) [v] := fun _ => rfl
theorem writeU16 (v : Nat) : Appends (·.writeU16 v) (toBe16 v) := fun _ => rfl
theorem writeZeros (n : Nat) : Appends (·.writeZeros n) (List.replicate n 0) := fun _ => rfl

theorem vector (hf : Appends f bs) (width : Nat) :
    Appends (·.vector width f) (Tls.vector width bs) := by
  intro w
  have hcontent : (f (w.writeZeros width)).buf = w.buf ++ (List.replicate width 0 ++ bs) := by
    rw [hf, writeZeros, List.append_assoc]
  have hmarker : (w.writeZeros width).buf.length = w.buf.length + width := by
    rw [writeZeros, List.length_append, List.length_replicate]
  have hlength : (w.buf ++ (List.replicate width 0 ++ bs)).length - (w.buf.length + width) =
      bs.length := by
    simp only [List.length_append, List.length_replicate]
    omega
  show Checked.overwrite (f (w.writeZeros width)).buf ((w.writeZeros width).buf.length - width)
    (toBe width ((f (w.writeZeros width)).buf.length - (w.writeZeros width).buf.length)) = _
  rw [hcontent, hmarker, hlength, Nat.add_sub_cancel,
    overwrite_append _ _ (by rw [List.length_replicate, length_toBe])]
  rfl

theorem extension (hf : Appends f bs) (type : Nat) :
    Appends (fun w => (w.writeU16 type).vector 2 f) (Tls.Extension.bytes ⟨type, bs⟩) :=
  (writeU16 type).comp (hf.vector 2)

end Appends

/-! ## The ClientHello -/

variable (p : TlsPrimitives)

def sniExtension (name : String) : Tls.Extension :=
  ⟨0, Tls.vector 2 (0 :: Tls.vector 2 (utf8 (toAlabel p name)))⟩

def groupsExtension : Tls.Extension := ⟨10, Tls.vector 2 (toBe16 0x001D)⟩

def sigalgsExtension : Tls.Extension :=
  ⟨13, Tls.vector 2
    ([0x0403, 0x0804, 0x0401, 0x0503, 0x0805, 0x0501, 0x0806, 0x0601].flatMap toBe16)⟩

def versionsExtension : Tls.Extension := ⟨43, Tls.vector 1 (toBe16 0x0304)⟩

def pskExtension : Tls.Extension := ⟨45, Tls.vector 1 [1]⟩

def keyShareExtension (publicKey : Octets 32) : Tls.Extension :=
  ⟨51, Tls.vector 2 (toBe16 0x001D ++ Tls.vector 2 publicKey.bytes)⟩

def alpnExtension (alpn : List String) : Tls.Extension :=
  ⟨16, Tls.vector 2 (alpn.flatMap fun name => Tls.vector 1 (utf8 name))⟩

/-- The message before its session id is sealed. -/
def clientHello (serverName : String) (alpn : List String) (privateKey random : Octets 32) :
    Tls.ClientHello where
  version := toBe16 0x0303
  random := random.bytes
  sessionId := List.replicate sessionIdSize 0
  cipherSuites := [0x1301, 0x1302, 0x1303].flatMap toBe16
  compressionMethods := [0]
  extensions :=
    [sniExtension p serverName, groupsExtension, sigalgsExtension, versionsExtension, pskExtension,
      keyShareExtension (p.x25519Public privateKey)] ++
      if alpn.isEmpty then [] else [alpnExtension alpn]

theorem appends_writeSni (name : String) :
    Appends (writeSni p · name) (sniExtension p name).bytes :=
  Appends.extension (((Appends.writeU8 0).comp ((Appends.writeBytes _).vector 2)).vector 2) 0

theorem appends_writeGroups : Appends writeGroups groupsExtension.bytes :=
  Appends.extension ((Appends.writeU16 _).vector 2) 10

/-- Items that are appended one after the other. -/
theorem appends_foldl {α : Type} {f : TlsWriter → α → TlsWriter} {bytes : α → Bytes}
    (h : ∀ a, Appends (f · a) (bytes a)) :
    ∀ as : List α, Appends (as.foldl f ·) (as.flatMap bytes)
  | [] => fun w => (List.append_nil w.buf).symm
  | a :: as => (h a).comp (appends_foldl h as)

theorem appends_writeSigalgs : Appends writeSigalgs sigalgsExtension.bytes :=
  Appends.extension ((appends_foldl (fun v => Appends.writeU16 v) _).vector 2) 13

theorem appends_writeVersions : Appends writeVersions versionsExtension.bytes :=
  Appends.extension ((Appends.writeU16 _).vector 1) 43

theorem appends_writePsk : Appends writePsk pskExtension.bytes :=
  Appends.extension ((Appends.writeU8 1).vector 1) 45

theorem appends_writeKeyShare (publicKey : Octets 32) :
    Appends (writeKeyShare · publicKey) (keyShareExtension publicKey).bytes :=
  Appends.extension (((Appends.writeU16 _).comp ((Appends.writeBytes _).vector 2)).vector 2) 51

theorem appends_writeAlpn (alpn : List String) :
    Appends (writeAlpn · alpn) (alpnExtension alpn).bytes :=
  Appends.extension
    ((appends_foldl (fun name => (Appends.writeBytes (utf8 name)).vector 1) alpn).vector 2) 16

theorem appends_writeExtensions (serverName : String) (alpn : List String)
    (privateKey random : Octets 32) :
    Appends (writeExtensions p · serverName alpn (p.x25519Public privateKey))
      ((clientHello p serverName alpn privateKey random).extensions.flatMap Tls.Extension.bytes) := by
  intro w
  have hfixed := ((((((appends_writeSni p serverName).comp appends_writeGroups).comp
    appends_writeSigalgs).comp appends_writeVersions).comp appends_writePsk).comp
    (appends_writeKeyShare (p.x25519Public privateKey)))
  simp only [writeExtensions, clientHello]
  split
  · rw [hfixed w]
    simp
  · rw [(hfixed.comp (appends_writeAlpn alpn)) w]
    simp

/-- `build` writes the message that says what its arguments do. -/
theorem build_handshake (serverName : String) (alpn : List String) (privateKey random : Octets 32) :
    (build p serverName alpn privateKey random).handshake =
      1 :: Tls.vector 3 (clientHello p serverName alpn privateKey random).body := by
  have hfixed := (((Appends.writeU16 0x0303).comp (Appends.writeBytes random.bytes)).comp
    (Appends.writeU8 (UInt8.ofNat sessionIdSize))).comp (Appends.writeZeros sessionIdSize)
  have hsuites := (((Appends.writeU16 0x1301).comp (Appends.writeU16 0x1302)).comp
    (Appends.writeU16 0x1303)).vector 2
  have hcompression := (Appends.writeU8 0).vector 1
  have hexts := (appends_writeExtensions p serverName alpn privateKey random).vector 2
  have hbody := ((hfixed.comp hsuites).comp hcompression).comp hexts
  have hhello := ((Appends.writeU8 1).comp (hbody.vector 3)) TlsWriter.new
  refine hhello.trans ?_
  simp only [Tls.ClientHello.body, clientHello, TlsWriter.new, List.nil_append,
    List.singleton_append, List.append_assoc]
  rfl

/-! ## Where the session id is -/

section

variable (serverName : String) (alpn : List String) (privateKey random : Octets 32)

/-- The random and the empty session id stand where they are looked for. -/
theorem build_layout : ∃ head rest : Bytes, head.length = 6 ∧
    (build p serverName alpn privateKey random).handshake =
      head ++ (random.bytes ++ UInt8.ofNat sessionIdSize :: (List.replicate sessionIdSize 0 ++ rest)) := by
  refine ⟨1 :: (toBe 3 (clientHello p serverName alpn privateKey random).body.length ++ toBe16 0x0303),
    Tls.vector 2 (([0x1301, 0x1302, 0x1303] : List Nat).flatMap toBe16) ++ (Tls.vector 1 [0] ++
      Tls.vector 2 ((clientHello p serverName alpn privateKey random).extensions.flatMap
        Tls.Extension.bytes)), ?_, ?_⟩
  · rw [List.length_cons, List.length_append, length_toBe, length_toBe16]
  · rw [build_handshake, Tls.vector]
    generalize (clientHello p serverName alpn privateKey random).body.length = n
    simp only [Tls.ClientHello.body, clientHello, List.cons_append, List.append_assoc]
    rfl

theorem random_build :
    ((build p serverName alpn privateKey random).handshake.take 38).drop 6 = random.bytes := by
  obtain ⟨head, rest, hhead, heq⟩ := build_layout p serverName alpn privateKey random
  have hlen : (head ++ random.bytes).length = 38 := by rw [List.length_append, hhead, random.size]
  rw [heq, ← List.append_assoc, List.take_left' hlen, List.drop_left' hhead]

theorem sessionIdSize_build : (build p serverName alpn privateKey random).handshake.getD
    (sessionIdOffset - 1) 0 = UInt8.ofNat sessionIdSize := by
  obtain ⟨head, rest, hhead, heq⟩ := build_layout p serverName alpn privateKey random
  have hlen : (head ++ random.bytes).length = sessionIdOffset - 1 := by
    rw [List.length_append, hhead, random.size]
    rfl
  rw [heq, ← List.append_assoc, List.getD_eq_getElem?_getD,
    List.getElem?_append_right (by rw [hlen]), hlen, Nat.sub_self]
  rfl

theorem sessionId_fits_build : sessionIdOffset + sessionIdSize ≤
    (build p serverName alpn privateKey random).handshake.length := by
  obtain ⟨head, rest, hhead, heq⟩ := build_layout p serverName alpn privateKey random
  rw [heq]
  simp only [List.length_append, List.length_cons, List.length_replicate, hhead, random.size,
    sessionIdOffset, sessionIdSize]
  omega

end

/-- How long the message is for the names of two protocols. -/
theorem length_build_http (serverName : String) (privateKey random : Octets 32) :
    (build p serverName ["h2", "http/1.1"] privateKey random).handshake.length =
      195 + (utf8 (toAlabel p serverName)).length := by
  have hh2 : (utf8 "h2").length = 2 := rfl
  have hhttp : (utf8 "http/1.1").length = 8 := rfl
  have hkey := (p.x25519Public privateKey).size
  rw [build_handshake, List.length_cons, Tls.length_vector, Tls.ClientHello.body]
  simp [clientHello, random.size, sniExtension, groupsExtension, sigalgsExtension,
    versionsExtension, pskExtension, keyShareExtension, alpnExtension, Tls.Extension.bytes,
    sessionIdSize, hh2, hhttp]
  omega

/-- The message can be sealed, which does not change its length. -/
theorem sealSessionId_build (hlaw : ∀ key, (p.aes256Gcm key).Lawful 16) (serverName : String)
    (alpn : List String) (privateKey random : Octets 32) (authKey : Octets authKeySize)
    (shortId : Octets shortIdSize) (unixTime : UInt32) (clientVersion : Octets 3) :
    ∃ sealedHello, sealSessionId p (build p serverName alpn privateKey random).handshake authKey
      shortId unixTime clientVersion = .ok sealedHello ∧
      sealedHello.length = (build p serverName alpn privateKey random).handshake.length := by
  have hfits := sessionId_fits_build p serverName alpn privateKey random
  have hsize := sessionIdSize_build p serverName alpn privateKey random
  have hplain : (sessionIdPlaintext clientVersion unixTime shortId).length = 16 := by
    simp [sessionIdPlaintext, clientVersion.size, shortId.size, shortIdSize]
  have hsealed (nonce aad : Bytes) : ((p.aes256Gcm authKey.bytes).encrypt nonce aad
      (sessionIdPlaintext clientVersion unixTime shortId)).length = sessionIdSize := by
    rw [(hlaw _).length_encrypt, hplain]
    rfl
  have hok : ∃ sealedHello, sealSessionId p (build p serverName alpn privateKey random).handshake
      authKey shortId unixTime clientVersion = .ok sealedHello := by
    simp only [sealSessionId]
    rw [if_neg (Nat.not_lt.mpr hfits), if_neg (not_not.mpr hsize)]
    exact ⟨_, if_neg (not_not.mpr (hsealed _ _))⟩
  obtain ⟨sealedHello, hok⟩ := hok
  exact ⟨sealedHello, hok, (sealSessionId_ok p hok).2.2⟩

end Reality

end RustClash
