import RustClash.Proxynet.Dial
import RustClash.Proxynet.Reality.HelloBytes

/-!
# What a ClientHello says

The message of `build` is one that a server of TLS 1.3 reads: every length is that of what
it stands before, and the extensions say what the arguments do.  Sealing changes nothing
but the session id, and the server opens it with the message under a zeroed one.
-/

namespace RustClash

namespace Reality

open Tls (Content)

variable (p : TlsPrimitives)

/-- What the extensions of the message say. -/
def contents (serverName : String) (alpn : List String) (privateKey : Octets 32) : List Content :=
  [.serverNames [utf8 serverName], .groups [0x001D],
    .signatureAlgorithms [0x0403, 0x0804, 0x0401, 0x0503, 0x0805, 0x0501, 0x0806, 0x0601],
    .versions [0x0304], .pskModes [1], .keyShares [(0x001D, (p.x25519Public privateKey).bytes)]] ++
    if alpn.isEmpty then [] else [.protocols (alpn.map utf8)]

section

variable {p} {serverName : String} {alpn : List String} {privateKey random : Octets 32}

theorem toAlabel_ascii (h : (utf8 serverName).all (· < 128)) : toAlabel p serverName = serverName :=
  if_pos h

theorem utf8_ne_nil {s : String} (h : s ≠ "") : utf8 s ≠ [] := by
  intro hnil
  cases hs : s.toList with
  | nil => exact h (String.toList_inj.mp hs)
  | cons c cs =>
      rw [utf8, hs, List.flatMap_cons, List.append_eq_nil_iff] at hnil
      exact absurd hnil.1 String.utf8EncodeChar_ne_nil

theorem read_sniExtension (hascii : (utf8 serverName).all (· < 128)) (hne : serverName ≠ "")
    (hlen : (sniExtension p serverName).data.length < 256 ^ 2) :
    (sniExtension p serverName).read = some (.serverNames [utf8 serverName]) := by
  rw [sniExtension, toAlabel_ascii hascii, Tls.length_vector, List.length_cons,
    Tls.length_vector] at hlen
  have hread : Tls.readList 2 1 Tls.takeHostName (Tls.vector 2 ([utf8 serverName].flatMap fun n =>
      0 :: Tls.vector 2 n)) = some [utf8 serverName] := by
    refine Tls.readList_vector ?_ (by simp) (Nat.le_refl 1) ?_
    · intro a ha rest
      obtain rfl := List.mem_singleton.mp ha
      exact Tls.takeSome_vector (utf8_ne_nil hne) (by omega) rest
    · rw [List.flatMap_singleton, List.length_cons, Tls.length_vector]
      omega
  rw [List.flatMap_singleton] at hread
  rw [sniExtension, toAlabel_ascii hascii]
  show (Tls.readList 2 1 Tls.takeHostName _).map _ = _
  rw [hread]
  rfl

theorem read_keyShareExtension (publicKey : Octets 32) :
    (keyShareExtension publicKey).read = some (.keyShares [(0x001D, publicKey.bytes)]) := by
  have hsize := publicKey.size
  have hread : Tls.readList 2 0 Tls.takeKeyShare (Tls.vector 2 ([(0x001D, publicKey.bytes)].flatMap
      fun s : Nat × Bytes => toBe 2 s.1 ++ Tls.vector 2 s.2)) = some [(0x001D, publicKey.bytes)] := by
    refine Tls.readList_vector ?_ ?_ (Nat.zero_le 1) ?_
    · intro a ha rest
      obtain rfl := List.mem_singleton.mp ha
      refine Tls.takeKeyShare_bytes (show 0x001D < 256 ^ 2 by decide) ?_ ?_ rest
      · intro hnil
        replace hnil : publicKey.bytes = [] := hnil
        rw [hnil] at hsize
        cases hsize
      · show publicKey.bytes.length < 256 ^ 2
        rw [hsize]
        decide
    · intro a ha hnil
      cases (List.append_eq_nil_iff.mp hnil).1
    · rw [List.flatMap_singleton, List.length_append, length_toBe, Tls.length_vector, hsize]
      decide
  rw [List.flatMap_singleton] at hread
  show (Tls.readList 2 0 Tls.takeKeyShare
    (Tls.vector 2 (toBe 2 0x001D ++ Tls.vector 2 publicKey.bytes))).map _ = _
  rw [hread]
  rfl

theorem read_alpnExtension (hne : alpn ≠ [])
    (hnames : ∀ name ∈ alpn, 1 ≤ (utf8 name).length ∧ (utf8 name).length ≤ 255)
    (hlen : (alpnExtension alpn).data.length < 256 ^ 2) :
    (alpnExtension alpn).read = some (.protocols (alpn.map utf8)) := by
  have hflat : alpn.flatMap (fun name => Tls.vector 1 (utf8 name)) =
      (alpn.map utf8).flatMap (Tls.vector 1) := List.flatMap_map .. |>.symm
  rw [alpnExtension, Tls.length_vector, hflat] at hlen
  have hread : Tls.readList 2 1 (Tls.takeSome 1) (Tls.vector 2 ((alpn.map utf8).flatMap
      (Tls.vector 1))) = some (alpn.map utf8) := by
    refine Tls.readList_vector ?_ ?_ ?_ (by omega)
    · intro a ha rest
      obtain ⟨name, hname, rfl⟩ := List.mem_map.mp ha
      obtain ⟨hpos, hle⟩ := hnames name hname
      exact Tls.takeSome_vector (List.length_pos_iff.mp hpos) (by omega) rest
    · intro a ha hnil
      have hzero := congrArg List.length hnil
      rw [Tls.length_vector, Nat.add_comm] at hzero
      cases hzero
    · rw [List.length_map]
      exact List.length_pos_iff.mpr hne
  show (Tls.readList 2 1 (Tls.takeSome 1) (Tls.vector 2 _)).map _ = _
  rw [hflat, hread]
  rfl

theorem read_fixed : groupsExtension.read = some (.groups [0x001D]) ∧
    sigalgsExtension.read = some (.signatureAlgorithms
      [0x0403, 0x0804, 0x0401, 0x0503, 0x0805, 0x0501, 0x0806, 0x0601]) ∧
    versionsExtension.read = some (.versions [0x0304]) ∧
    pskExtension.read = some (.pskModes [1]) := by
  decide

theorem types_clientHello : (clientHello p serverName alpn privateKey random).extensions.map
    (fun e => e.type) = [0, 10, 13, 43, 45, 51] ++ if alpn.isEmpty then [] else [16] := by
  simp only [clientHello]
  split <;> rfl

theorem legal_clientHello :
    (clientHello p serverName alpn privateKey random).Legal where
  version := rfl
  sessionId := Nat.le_refl 32
  cipherSuites := ⟨show 2 ≤ 6 by decide, show 2 ∣ 6 by decide⟩
  compressionMethods := rfl
  extensions := by
    rw [types_clientHello]
    split <;> decide

theorem length_data_le {e : Tls.Extension} {es : List Tls.Extension} (h : e ∈ es) :
    e.data.length + 4 ≤ (es.flatMap Tls.Extension.bytes).length := by
  obtain ⟨before, behind, rfl⟩ := List.append_of_mem h
  rw [List.flatMap_append, List.flatMap_cons, List.length_append, List.length_append,
    Tls.Extension.bytes, List.length_append, length_toBe, Tls.length_vector]
  omega

theorem length_extensions_le (h : Tls.ClientHello) :
    (h.extensions.flatMap Tls.Extension.bytes).length ≤ h.body.length := by
  simp only [Tls.ClientHello.body, List.length_append, Tls.length_vector]
  omega

theorem length_build : (build p serverName alpn privateKey random).handshake.length =
    (clientHello p serverName alpn privateKey random).body.length + 4 := by
  rw [build_handshake, List.length_cons, Tls.length_vector]
  omega

/-- A message that fits a record has room for all its lengths. -/
theorem fits_clientHello
    (hlen : (build p serverName alpn privateKey random).handshake.length < 256 ^ 2) :
    (clientHello p serverName alpn privateKey random).Fits where
  version := rfl
  random := random.size
  sessionId := show 32 < 256 ^ 1 by decide
  cipherSuites := show 6 < 256 ^ 2 by decide
  compressionMethods := show 1 < 256 ^ 1 by decide
  extensions := by
    intro e he
    have hdata := length_data_le he
    have hle := length_extensions_le (clientHello p serverName alpn privateKey random)
    rw [length_build] at hlen
    refine ⟨?_, by omega⟩
    have htype : e.type ∈ [0, 10, 13, 43, 45, 51] ++ if alpn.isEmpty then [] else [16] :=
      types_clientHello ▸ List.mem_map_of_mem he
    split at htype
    · exact (show ∀ t ∈ [0, 10, 13, 43, 45, 51] ++ [], t < 256 ^ 2 by decide) _ htype
    · exact (show ∀ t ∈ [0, 10, 13, 43, 45, 51] ++ [16], t < 256 ^ 2 by decide) _ htype
  record := length_build ▸ hlen

theorem read_clientHello (hascii : (utf8 serverName).all (· < 128)) (hne : serverName ≠ "")
    (hnames : ∀ name ∈ alpn, 1 ≤ (utf8 name).length ∧ (utf8 name).length ≤ 255)
    (hfits : (clientHello p serverName alpn privateKey random).Fits) :
    (clientHello p serverName alpn privateKey random).extensions.mapM Tls.Extension.read =
      some (contents p serverName alpn privateKey) := by
  obtain ⟨hgroups, hsigalgs, hversions, hpsk⟩ := read_fixed
  have hsni := read_sniExtension hascii hne (hfits.extensions _ List.mem_cons_self).data
  have hshare := read_keyShareExtension (p.x25519Public privateKey)
  cases alpn with
  | nil => simp [clientHello, contents, hsni, hgroups, hsigalgs, hversions, hpsk, hshare]
  | cons name names =>
      have halpn := read_alpnExtension (List.cons_ne_nil name names) hnames
        (hfits.extensions (alpnExtension (name :: names)) (List.mem_append_right _ (by simp))).data
      simp [clientHello, contents, hsni, hgroups, hsigalgs, hversions, hpsk, hshare, halpn]

end

/-! ## Sealing -/

section

variable {p} {hello sealedHello : Bytes} {authKey : Octets authKeySize}
  {shortId : Octets shortIdSize} {unixTime : UInt32} {clientVersion : Octets 3}

theorem sealSessionId_overwrite
    (h : sealSessionId p hello authKey shortId unixTime clientVersion = .ok sealedHello) :
    sessionIdOffset + sessionIdSize ≤ hello.length ∧
      (sealedSessionId p hello authKey shortId unixTime clientVersion).length = sessionIdSize ∧
      sealedHello = Checked.overwrite hello sessionIdOffset
        (sealedSessionId p hello authKey shortId unixTime clientVersion) := by
  simp only [sealSessionId] at h
  split at h
  · cases h
  next hlen =>
  split at h
  · cases h
  split at h
  · cases h
  next hsize =>
  cases h
  change ¬ (sealedSessionId p hello authKey shortId unixTime clientVersion).length ≠ _ at hsize
  rw [not_not] at hsize
  rw [Nat.not_lt] at hlen
  refine ⟨hlen, hsize, ?_⟩
  change Checked.overwrite (Checked.overwrite hello sessionIdOffset (List.replicate sessionIdSize 0))
    sessionIdOffset (sealedSessionId p hello authKey shortId unixTime clientVersion) = _
  refine Checked.overwrite_cover (by rw [hsize]; exact hlen) ?_
  rw [hsize, List.length_replicate]

/-- The bytes from 39 to 71 are the session id, and the others stay. -/
theorem sealSessionId_frame
    (h : sealSessionId p hello authKey shortId unixTime clientVersion = .ok sealedHello) (i : Nat)
    (hi : i < 39 ∨ 71 ≤ i) : sealedHello[i]? = hello[i]? := by
  obtain ⟨hlen, hsize, rfl⟩ := sealSessionId_overwrite h
  rw [Checked.getElem?_overwrite (by rw [hsize]; exact hlen), hsize]
  rcases hi with hi | hi
  · exact if_pos hi
  · exact (if_neg (show ¬ i < 39 by omega)).trans (if_neg (show ¬ i < 39 + 32 by omega))

/-- The server opens the session id under the message with zeros in its place. -/
theorem open_sealSessionId (hgcm : ∀ key, (p.aes256Gcm key).Lawful 16)
    (h : sealSessionId p hello authKey shortId unixTime clientVersion = .ok sealedHello) :
    (p.aes256Gcm authKey.bytes).decrypt (((hello.take 38).drop 6).drop 20)
        (Checked.overwrite sealedHello 39 (List.replicate 32 0)) ((sealedHello.take 71).drop 39) =
      some (sessionIdPlaintext clientVersion unixTime shortId) := by
  have hid := (sealSessionId_ok p h).1
  obtain ⟨hlen, hsize, heq⟩ := sealSessionId_overwrite h
  have hzeroed : Checked.overwrite sealedHello 39 (List.replicate 32 0) =
      Checked.overwrite hello sessionIdOffset (List.replicate sessionIdSize 0) := by
    rw [heq]
    refine Checked.overwrite_cover ?_ ?_
    · rw [List.length_replicate]
      exact hlen
    · rw [hsize, List.length_replicate]
      exact Nat.le_refl 32
  have hslice : (sealedHello.take 71).drop 39 = sessionIdOf sealedHello := List.drop_take
  rw [hslice, hid, hzeroed]
  exact (hgcm authKey.bytes).decrypt_encrypt _ _ _

end

/-- For every server name that is not empty and of ASCII characters, and every list of protocols,
the message that fits a record is a ClientHello of TLS 1.3 whose extensions say just what they
should; sealing changes its session id alone, which the server opens. -/
theorem hello_format (hgcm : ∀ key, (p.aes256Gcm key).Lawful 16) (serverName : String)
    (alpn : List String) (privateKey random : Octets 32) (authKey : Octets authKeySize)
    (shortId : Octets shortIdSize) (unixTime : UInt32) (clientVersion : Octets 3)
    (hascii : (utf8 serverName).all (· < 128)) (hne : serverName ≠ "")
    (hnames : ∀ name ∈ alpn, 1 ≤ (utf8 name).length ∧ (utf8 name).length ≤ 255)
    (hlen : (build p serverName alpn privateKey random).handshake.length < 2 ^ 16) :
    (∃ h, Tls.ClientHello.parse13 (build p serverName alpn privateKey random).handshake =
        some (h, contents p serverName alpn
          (build p serverName alpn privateKey random).privateKey) ∧
      h.random = random.bytes) ∧
    ∃ sealedHello, sealSessionId p (build p serverName alpn privateKey random).handshake authKey
        shortId unixTime clientVersion = .ok sealedHello ∧
      sealedHello.length = (build p serverName alpn privateKey random).handshake.length ∧
      (∀ i, i < 39 ∨ 71 ≤ i →
        sealedHello[i]? = (build p serverName alpn privateKey random).handshake[i]?) ∧
      (p.aes256Gcm authKey.bytes).decrypt (random.bytes.drop 20)
          (Checked.overwrite sealedHello 39 (List.replicate 32 0)) ((sealedHello.take 71).drop 39) =
        some (clientVersion.bytes ++ [0] ++ toBe 4 unixTime.toNat ++ shortId.bytes) := by
  have hfits : (clientHello p serverName alpn privateKey random).Fits := fits_clientHello hlen
  obtain ⟨sealedHello, hok, hsame⟩ := sealSessionId_build p hgcm serverName alpn privateKey random
    authKey shortId unixTime clientVersion
  refine ⟨⟨clientHello p serverName alpn privateKey random, ?_, rfl⟩, sealedHello, hok, hsame,
    sealSessionId_frame hok, ?_⟩
  · rw [build_handshake]
    exact Tls.ClientHello.parse13_message hfits legal_clientHello
      (read_clientHello hascii hne hnames hfits)
  · have hopen := open_sealSessionId hgcm hok
    rwa [random_build] at hopen

/-- Two protocols, and a session id that is opened. -/
theorem hello_format_http : (∃ h, Tls.ClientHello.parse13
      (build .sums "a.b" ["h2", "http/1.1"] ⟨List.replicate 32 7, rfl⟩
        ⟨List.replicate 32 9, rfl⟩).handshake = some h) ∧
    ∃ sealedHello, sealSessionId .sums (build .sums "a.b" ["h2", "http/1.1"]
      ⟨List.replicate 32 7, rfl⟩ ⟨List.replicate 32 9, rfl⟩).handshake ⟨List.replicate 32 1, rfl⟩
      ⟨List.replicate 8 2, rfl⟩ 3 ⟨[26, 3, 27], rfl⟩ = .ok sealedHello := by
  have hlen : (build .sums "a.b" ["h2", "http/1.1"] ⟨List.replicate 32 7, rfl⟩
      ⟨List.replicate 32 9, rfl⟩).handshake.length < 2 ^ 16 := by
    rw [length_build_http]
    decide
  obtain ⟨⟨h, hparse, -⟩, sealedHello, hseal, -⟩ := hello_format .sums keyTagged_lawful "a.b"
    ["h2", "http/1.1"] ⟨List.replicate 32 7, rfl⟩ ⟨List.replicate 32 9, rfl⟩
    ⟨List.replicate 32 1, rfl⟩ ⟨List.replicate 8 2, rfl⟩ 3 ⟨[26, 3, 27], rfl⟩ (by decide) (by decide)
    (by decide) hlen
  exact ⟨⟨_, hparse⟩, sealedHello, hseal⟩

/-- The empty name is written as a host name without a byte, which no ClientHello has. -/
theorem not_hello_format : ¬ ∀ (p : TlsPrimitives) (serverName : String) (alpn : List String)
    (privateKey random : Octets 32), (utf8 serverName).all (· < 128) →
    (∀ name ∈ alpn, 1 ≤ (utf8 name).length ∧ (utf8 name).length ≤ 255) →
    (build p serverName alpn privateKey random).handshake.length < 2 ^ 14 →
    ∃ h, Tls.ClientHello.parse13 (build p serverName alpn privateKey random).handshake = some h := by
  intro h
  obtain ⟨r, hr⟩ := h .sums "" [] ⟨List.replicate 32 7, rfl⟩ ⟨List.replicate 32 9, rfl⟩ (by decide)
    (by decide) (by decide +kernel)
  have hnone : Tls.ClientHello.parse13 (build .sums "" [] ⟨List.replicate 32 7, rfl⟩
      ⟨List.replicate 32 9, rfl⟩).handshake = none := by
    decide +kernel
  rw [hnone] at hr
  cases hr

end Reality

end RustClash
