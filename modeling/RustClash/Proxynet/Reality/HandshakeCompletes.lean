import RustClash.Net.Exchange
import RustClash.Proxynet.Reality.Handshake

/-!
# Handshakes that complete

A server that holds the private key completes the handshake, however it cuts its messages into
records, wherever it puts ChangeCipherSpec records, however its bytes arrive and in whatever pieces
the transport takes what is sent.  `completes` also says what was sent, and that both sides go on
with the same keys.
-/

namespace RustClash

open Reality

namespace TlsRecordStream

/-- Nothing has changed of what is written. -/
structure Mute (st st' : TlsRecordStream Transport) : Prop where
  write : st'.write = st.write
  written : st'.transport.written = st.transport.written
  writes : st'.transport.writes = st.transport.writes

theorem Mute.refl (st : TlsRecordStream Transport) : Mute st st := ⟨rfl, rfl, rfl⟩

theorem Mute.trans {st st₁ st₂ : TlsRecordStream Transport} (h : Mute st st₁) (h' : Mute st₁ st₂) :
    Mute st st₂ :=
  ⟨h'.write.trans h.write, h'.written.trans h.written, h'.writes.trans h.writes⟩

theorem received_mute {st st' : TlsRecordStream Transport} {cap : Nat}
    (h : Mute st { st' with transport := (st'.transport.read cap).2 }) :
    (st'.received (st'.transport.read cap)).elim (Mute st) fun out => Mute st out.2 := by
  rcases hread : st'.transport.read cap with ⟨e | d, t⟩ <;> rw [hread] at h
  · exact h
  · simp only [received]
    split
    · exact h
    · exact ⟨h.write, h.written, h.writes⟩

/-- What is read is nothing that is written. -/
theorem readPass_mute (st : TlsRecordStream Transport) :
    st.readPass.elim (Mute st) fun out => Mute st out.2 := by
  have htried := st.tryReadBuffered_tried
  rcases htry : st.tryReadBuffered with ⟨e | _ | r, st₁⟩ <;> rw [htry] at htried <;>
    simp only [readPass, htry]
  · cases htried with
    | error => exact ⟨rfl, rfl, rfl⟩
  · cases htried with
    | waits =>
      have hw := Transport.read_written (inboundSize - st.inbound.length) st.transport
      exact received_mute ⟨rfl, hw.1, hw.2⟩
  · cases htried with
    | record => exact ⟨rfl, rfl, rfl⟩

theorem readRecord_mute (st : TlsRecordStream Transport) : Mute st (readRecord st).2 := by
  refine Loop.rule (l := readLoop) (P := fun st out => Mute st out.2) ?_ ?_ st
  · intro st st' out h ih
    have hpass := st.readPass_mute
    rw [show st.readPass = .inl st' from h] at hpass
    exact hpass.trans ih
  · intro st out h
    have hpass := st.readPass_mute
    rw [show st.readPass = .inr out from h] at hpass
    exact hpass

/-- A record is written out, in whatever pieces the transport takes it. -/
theorem writeRecord_takes (ty : ContentType) (payload : Bytes) (st : TlsRecordStream Transport)
    (h : st.transport.Takes) (hsize : payload.length ≤ maxPlaintext) :
    ∃ st', writeRecord ty payload st = (.ok PUnit.unit.{1}, st') ∧ st'.transport.Takes ∧
      st'.transport.written = st.transport.written ++ (st.stage ty payload).1 ∧
      st'.total = st.total ∧ st'.read = st.read ∧
      st'.write = (st.stage ty payload).2.write := by
  have hsent := writeRecord_spec.{1} ty payload st
  have heq := st.stage_eq ty payload
  rw [writeRecord, if_neg (Nat.not_lt.mpr hsize)] at hsent ⊢
  obtain ⟨htransport, hread⟩ : (st.stage ty payload).2.transport = st.transport ∧
      (st.stage ty payload).2.read = st.read := by
    rw [heq]
    exact ⟨rfl, rfl⟩
  obtain ⟨hall, htakes⟩ := Transport.takes_writeAll h (st.stage ty payload).1
  rcases hwrite : st.transport.writeAll (st.stage ty payload).1 with ⟨e | u, t⟩
  · rw [hwrite] at hall
    cases hall
  · rw [hwrite] at htakes
    obtain ⟨hok, htakes'⟩ := Transport.takes_flush htakes
    rcases hflush : t.flush with ⟨e | u, t'⟩
    · rw [hflush] at hok
      cases hok
    · rw [hflush] at htakes'
      simp only [sendStaged, htransport, hwrite, hflush] at hsent ⊢
      obtain ⟨sent, -, hwritten, hdone⟩ := hsent.written
      rw [hdone rfl] at hwritten
      exact ⟨_, rfl, htakes', hwritten, hsent.total, hread, rfl⟩

end TlsRecordStream

/-! ## Messages that are on their way -/

namespace HandshakeReader

open TlsRecordStream (Mute)

/-- The records ahead hold the rest of the bytes `bytes`, and nothing that is not of the
handshake. -/
structure Ahead (read : Option RecordProtection) (more : Bytes) (records : List Record)
    (bytes : Bytes) (s : HandshakeState) : Prop where
  inHandshake : ∀ r ∈ records, r.InHandshake
  frames : recordFramer.Frames s.2.read s.2.total records read more
  bytes : s.1.buf ++ handshakeBytes records = bytes

/-- What a reader did not take is left to come. -/
structure Took (read : Option RecordProtection) (more : Bytes) (records : List Record)
    (rest : Bytes) (s s' : HandshakeState) : Prop where
  ahead : ∃ taken left, records = taken ++ left ∧ Ahead read more left rest s'
  leftover : s'.1.leftover = s.1.leftover
  mute : Mute s.2 s'.2

variable {read : Option RecordProtection} {more rest : Bytes} {records : List Record}

theorem Took.trans {rest' : Bytes} {s s₁ s₂ : HandshakeState} {left : List Record}
    {taken : List Record} (hleft : records = taken ++ left) (h : Mute s.2 s₁.2)
    (hleftover : s₁.1.leftover = s.1.leftover) (h' : Took read more left rest' s₁ s₂) :
    Took read more records rest' s s₂ := by
  obtain ⟨⟨taken', left', rfl, hahead⟩, hleftover', hmute⟩ := h'
  refine ⟨⟨taken ++ taken', left', ?_, hahead⟩, hleftover'.trans hleftover, h.trans hmute⟩
  rw [hleft, List.append_assoc]

theorem nextMessage_mute (s : HandshakeState) : Mute s.2 (nextMessage s).2.2 := by
  refine Loop.rule (l := messageLoop) (P := fun s out => Mute s.2 out.2.2) ?_ ?_ s
  · rintro ⟨hs, st⟩ s' out h ih
    have hmute := TlsRecordStream.readRecord_mute st
    simp only [messageLoop, messagePass] at h
    split at h
    · cases h
    · rcases hread : TlsRecordStream.readRecord st with ⟨e | r, st'⟩ <;> rw [hread] at hmute <;>
        simp only [hread] at h
      · cases h
      · split at h <;> cases h
        exact hmute.trans ih
  · rintro ⟨hs, st⟩ out h
    have hmute := TlsRecordStream.readRecord_mute st
    simp only [messageLoop, messagePass] at h
    split at h
    · cases h
      exact .refl _
    · rcases hread : TlsRecordStream.readRecord st with ⟨e | r, st'⟩ <;> rw [hread] at hmute <;>
        simp only [hread] at h
      · cases h
        exact hmute
      · split at h <;> cases h
        exact hmute

/-- A message that is ahead is the next one. -/
theorem nextMessage_ahead {m : HandshakeMessage} {s : HandshakeState}
    (h : Ahead read more records (m.raw ++ rest) s) :
    ∃ s', nextMessage s = (.ok m.msg, s') ∧ Took read more records rest s s' := by
  obtain ⟨hin, hframes, hbytes⟩ := h
  obtain ⟨s', n, hnext, hstands⟩ := nextMessage_stands hin hframes hbytes
  have hmute := nextMessage_mute s
  rw [hnext] at hmute
  have hahead : Ahead read more (records.drop n) rest s' :=
    ⟨fun r hr => hin r (List.mem_of_mem_drop hr), hstands.frames, hstands.bytes hbytes⟩
  exact ⟨s', hnext, ⟨_, _, (List.take_append_drop n records).symm, hahead⟩, hstands.leftover,
    hmute⟩

/-- The last of the records is one of the handshake. -/
def EndsInHandshake (records : List Record) : Prop :=
  ∀ r, records.getLast? = some r → r.ty = .handshake

instance (records : List Record) : Decidable (EndsInHandshake records) :=
  match h : records.getLast? with
  | none => isTrue (by rw [EndsInHandshake, h]; intro r hr; cases hr)
  | some r =>
      if hty : r.ty = .handshake then
        isTrue (by rw [EndsInHandshake, h]; intro r' hr; cases hr; exact hty)
      else isFalse (by rw [EndsInHandshake, h]; exact fun hall => hty (hall r rfl))

/-- A reader that has taken all bytes has taken all records. -/
theorem Took.all {s s' : HandshakeState} (hlast : EndsInHandshake records)
    (h : Took read more records [] s s') :
    s'.1.buf = [] ∧ s'.2.read = read ∧ s'.2.total = more := by
  obtain ⟨⟨taken, left, rfl, hin, hframes, hbytes⟩, -, -⟩ := h
  obtain ⟨hbuf, hnone⟩ := List.append_eq_nil_iff.mp hbytes
  rcases List.eq_nil_or_concat left with rfl | ⟨init, last, rfl⟩
  · cases hframes
    exact ⟨hbuf, rfl, rfl⟩
  · have hty : last.ty = .handshake := hlast last (by simp)
    rcases hin last (by simp) with ⟨-, hne⟩ | hccs
    · rw [List.concat_eq_append, handshakeBytes_append] at hnone
      have hlastNone := (List.append_eq_nil_iff.mp hnone).2
      rw [handshakeBytes, List.flatMap_cons, List.flatMap_nil, List.append_nil, if_pos hty]
        at hlastNone
      exact absurd hlastNone hne
    · rw [hty] at hccs
      cases hccs

end HandshakeReader

/-! ## A flight that is read -/

namespace Reality

open HandshakeReader (Ahead Took)

variable (p : TlsPrimitives)

/-- What is ahead of a client that has come to `f`: messages it knows, and the Finished. -/
structure FlightAhead (agreed : Agreed) (f : Flight) (messages : List HandshakeMessage)
    (last : HandshakeMessage) : Prop where
  types : ∀ m ∈ messages, m.ty = 8 ∨ m.ty = 11 ∨ m.ty = 15
  leaves : ∀ m ∈ messages, m.ty = 11 → ∃ leaf, extractLeaf m.body = .ok leaf
  bound : f.flight + (messages.length + 1) ≤ maxFlight
  finished : last.ty = 20
  verified : last.body = (finishedVerify p agreed.suite.hash agreed.secrets.server.bytes
    ((f.transcript.update (messages.flatMap (·.raw))).current p)).bytes

theorem receive_finished {agreed : Agreed} {f : Flight} {last : HandshakeMessage}
    (h : FlightAhead p agreed f [] last) :
    f.receive p agreed last.msg =
      .ok ({ f with flight := f.flight + 1, finished := true }.update last.msg) := by
  have hty : last.msg.ty = 20 := h.finished
  have hbody : last.msg.body = (finishedVerify p agreed.suite.hash agreed.secrets.server.bytes
      (f.transcript.current p)).bytes := by
    have hverified := h.verified
    rwa [List.flatMap_nil, Transcript.update_nil] at hverified
  have hbound : ¬ maxFlight < f.flight + 1 := Nat.not_lt.mpr h.bound
  have hother : ¬ ((20 : UInt8) = 8 ∨ (20 : UInt8) = 15) := by decide
  have hcert : ¬ (20 : UInt8) = 11 := by decide
  simp only [Flight.receive, verifyFinished, hty, hbody, if_neg hbound, if_neg hother, if_neg hcert,
    ne_eq, not_true_eq_false, if_false, if_true]
  rfl

/-- A message before the Finished is taken, and leaves the rest ahead. -/
theorem receive_ahead {agreed : Agreed} {f : Flight} {m last : HandshakeMessage}
    {messages : List HandshakeMessage} (h : FlightAhead p agreed f (m :: messages) last) :
    ∃ f₁, f.receive p agreed m.msg = .ok f₁ ∧ FlightAhead p agreed f₁ messages last ∧
      f₁.finished = f.finished ∧ f₁.transcript = f.transcript.update m.raw ∧
      (m.ty ≠ 11 → f₁.leaf = f.leaf) ∧
      ∀ leaf, m.ty = 11 → extractLeaf m.body = .ok leaf → f₁.leaf = some leaf := by
  obtain ⟨htypes, hleaves, hbound, hfinished, hverified⟩ := h
  obtain ⟨hty, hmore⟩ := List.forall_mem_cons.mp htypes
  rw [List.length_cons] at hbound
  have hroom : ¬ maxFlight < f.flight + 1 := by omega
  have hahead : ∀ f₁ : Flight, f₁.flight = f.flight + 1 →
      f₁.transcript = f.transcript.update m.raw → FlightAhead p agreed f₁ messages last := by
    intro f₁ hflight htranscript
    refine ⟨hmore, fun m' hm' => hleaves m' (List.mem_cons_of_mem _ hm'), ?_, hfinished, ?_⟩
    · rw [hflight]
      omega
    · rw [hverified, htranscript, Transcript.update_update, List.flatMap_cons]
  by_cases hother : m.ty = 8 ∨ m.ty = 15
  · have hmsg : m.msg.ty = 8 ∨ m.msg.ty = 15 := hother
    have hne : m.ty ≠ 11 := by
      rcases hother with hty | hty <;> rw [hty] <;> decide
    refine ⟨{ f with flight := f.flight + 1 }.update m.msg, ?_, hahead _ rfl rfl, rfl, rfl,
      fun _ => rfl, fun leaf hcert => absurd hcert hne⟩
    simp only [Flight.receive, if_neg hroom, if_pos hmsg]
  · have hcert : m.ty = 11 := by
      rcases hty with hty | hty | hty
      · exact absurd (Or.inl hty) hother
      · exact hty
      · exact absurd (Or.inr hty) hother
    obtain ⟨leaf, hleaf⟩ := hleaves m List.mem_cons_self hcert
    have hmsg : ¬ (m.msg.ty = 8 ∨ m.msg.ty = 15) := hother
    have hmsgCert : m.msg.ty = 11 := hcert
    have hbody : extractLeaf m.msg.body = .ok leaf := hleaf
    refine ⟨{ f with flight := f.flight + 1, leaf := some leaf }.update m.msg, ?_,
      hahead _ rfl rfl, rfl, rfl, fun hne => absurd hcert hne, ?_⟩
    · simp only [Flight.receive, if_neg hroom, if_neg hmsg, if_pos hmsgCert, hbody]
      rfl
    · intro leaf' _ hleaf'
      cases hleaf.symm.trans hleaf'
      rfl

/-- A flight that is ahead is read up to its Finished. -/
theorem readFlight_ahead {agreed : Agreed} {messages : List HandshakeMessage}
    {last : HandshakeMessage} {read : Option RecordProtection} {more rest : Bytes}
    {records : List Record} {f : Flight} {s : HandshakeState} (hopen : f.finished = false)
    (h : FlightAhead p agreed f messages last)
    (hahead : Ahead read more records (messages.flatMap (·.raw) ++ last.raw ++ rest) s) :
    ∃ f' s', readFlight p agreed f s = (.ok f', s') ∧ Took read more records rest s s' ∧
      f'.transcript = f.transcript.update (messages.flatMap (·.raw) ++ last.raw) ∧
      (lastCertificate messages = none → f'.leaf = f.leaf) ∧
      ∀ m leaf, lastCertificate messages = some m → extractLeaf m.body = .ok leaf →
        f'.leaf = some leaf := by
  induction messages generalizing f s records with
  | nil =>
    obtain ⟨s', hnext, htook⟩ := HandshakeReader.nextMessage_ahead hahead
    refine ⟨{ f with flight := f.flight + 1, finished := true }.update last.msg, s', ?_, htook, rfl,
      fun _ => rfl, ?_⟩
    · have hfirst : flightPass p agreed (f, s) =
          .inl ({ f with flight := f.flight + 1, finished := true }.update last.msg, s') := by
        simp only [flightPass, hopen, hnext, receive_finished p h]
        rfl
      have hsecond : flightPass p agreed
          ({ f with flight := f.flight + 1, finished := true }.update last.msg, s') =
            .inr (.ok ({ f with flight := f.flight + 1, finished := true }.update last.msg), s') :=
        rfl
      exact (Loop.run_inl (l := flightLoop p agreed) hfirst).trans
        (Loop.run_inr (l := flightLoop p agreed) hsecond)
    · intro m leaf hcert
      cases hcert
  | cons m messages ih =>
    rw [List.flatMap_cons, List.append_assoc, List.append_assoc, ← List.append_assoc _ last.raw]
      at hahead
    obtain ⟨s₁, hnext, htook⟩ := HandshakeReader.nextMessage_ahead hahead
    obtain ⟨f₁, hreceive, hahead₁, hopen₁, htranscript₁, hsame, hleaf₁⟩ := receive_ahead p h
    obtain ⟨⟨taken, left, hleft, hahead'⟩, hleftover, hmute⟩ := htook
    obtain ⟨f', s', hread, htook', htranscript, hnone, hsome⟩ :=
      ih (hopen₁.trans hopen) hahead₁ hahead'
    refine ⟨f', s', ?_, htook'.trans hleft hmute hleftover, ?_, ?_, ?_⟩
    · rw [← hread]
      refine Loop.run_inl (l := flightLoop p agreed) ?_
      show flightPass p agreed (f, s) = _
      simp only [flightPass, hopen, hnext, hreceive]
      rfl
    · rw [htranscript, htranscript₁, Transcript.update_update, List.flatMap_cons, List.append_assoc]
    · rw [lastCertificate_cons]
      split
      · intro hcert
        cases hcert
      · next hother => exact fun hcert => (hnone hcert).trans (hsame hother)
    · intro m' leaf hcert hextract
      rw [lastCertificate_cons] at hcert
      split at hcert
      · next hty =>
        cases hmore : lastCertificate messages with
        | none =>
          rw [hmore] at hcert
          cases hcert
          rw [hnone hmore]
          exact hleaf₁ leaf hty hextract
        | some m'' =>
          rw [hmore] at hcert
          cases hcert
          exact hsome _ leaf hmore hextract
      · exact hsome m' leaf hcert hextract

end Reality

/-! ## A server that holds the private key -/

namespace Reality

variable (p : TlsPrimitives)

/-- What is relied on of the ciphers, and of the exchange on Curve25519. -/
structure Sound : Prop where
  aes128Gcm : ∀ key, (p.aes128Gcm key).Lawful tagLen
  aes256Gcm : ∀ key, (p.aes256Gcm key).Lawful tagLen
  chaCha20Poly1305 : ∀ key, (p.chaCha20Poly1305 key).Lawful tagLen
  x25519 : ∀ a b, p.x25519 a (p.x25519Public b) = p.x25519 b (p.x25519Public a)

theorem Sound.protection {p : TlsPrimitives} (h : Sound p) (suite : CipherSuite)
    (traffic : Bytes) : (RecordProtection.new p suite traffic).aead.Lawful tagLen := by
  simp only [RecordProtection.new]
  split
  · exact h.chaCha20Poly1305 _
  · split
    · exact h.aes128Gcm _
    · exact h.aes256Gcm _

/-- The secrets of a server: the private key whose public one the client was given, and that of
its key share. -/
structure ServerSecrets where
  privateKey : Octets 32
  keyShare : Octets 32

namespace ServerSecrets

variable (server : ServerSecrets) (clientPublic : Octets 32) (hello : Bytes)

/-- The key that the server binds its certificate to. -/
def authKey : Except ProxyError (Octets authKeySize) :=
  deriveAuthKey p server.privateKey clientPublic ((hello.take 38).drop 6)

/-- What the server goes on with after its ServerHello. -/
def agreed (m : ServerMessages) : Agreed :=
  let hash := m.parsed.suite.hash
  let transcript := ((Transcript.new hash).update hello).update m.serverHello.raw
  let shared := p.x25519 server.keyShare clientPublic
  ⟨m.parsed.suite, deriveHandshakeSecrets p hash shared.bytes (transcript.current p), transcript⟩

/-- The messages of a server that answers the ClientHello `hello` with its secrets. -/
structure Answers (m : ServerMessages) : Prop where
  serverHello : m.serverHello.ty = 2 ∧ parseServerHello m.serverHello.raw hello = .ok m.parsed
  keyShare : m.parsed.keyShare = p.x25519Public server.keyShare
  types : ∀ message ∈ m.flight, message.ty = 8 ∨ message.ty = 11 ∨ message.ty = 15
  leaves : ∀ message ∈ m.flight, message.ty = 11 → ∃ leaf, extractLeaf message.body = .ok leaf
  bound : m.flight.length + 1 ≤ maxFlight
  finished : m.finished.ty = 20
  verified :
    let agreed := server.agreed p clientPublic hello m
    m.finished.body = (finishedVerify p agreed.suite.hash agreed.secrets.server.bytes
      ((agreed.transcript.update (m.flight.flatMap (·.raw))).current p)).bytes
  certificate : ∃ message leaf authKey pk, lastCertificate m.flight = some message ∧
    extractLeaf message.body = .ok leaf ∧ server.authKey p clientPublic hello = .ok authKey ∧
    readEd25519Cert leaf = some (pk, (p.hmacSha512 authKey.bytes pk).bytes)

end ServerSecrets

/-- The messages are cut into records, with ChangeCipherSpec records between them; `more` is
behind the one that ends the Finished. -/
structure Sends (agreed : Agreed) (m : ServerMessages) (bytes more : Bytes) : Prop where
  wire : ∃ clear sealed first second read, bytes = first ++ (second ++ more) ∧
    OnWire none clear first none ∧
    OnWire (some (RecordProtection.new p agreed.suite agreed.secrets.server.bytes)) sealed second
      read ∧
    (∀ r ∈ clear, r.InHandshake) ∧ (∀ r ∈ sealed, r.InHandshake) ∧
    HandshakeReader.EndsInHandshake clear ∧ HandshakeReader.EndsInHandshake sealed ∧
    handshakeBytes clear = m.serverHello.raw ∧
    handshakeBytes sealed = m.flight.flatMap (·.raw) ++ m.finished.raw

/-- Sealing changes nothing in front of the session id. -/
theorem sealSessionId_take {clientHello sealedHello : Bytes} {authKey : Octets authKeySize}
    {shortId : Octets shortIdSize} {unixTime : UInt32} {clientVersion : Octets 3}
    (h : sealSessionId p clientHello authKey shortId unixTime clientVersion = .ok sealedHello) :
    sealedHello.take 38 = clientHello.take 38 := by
  have hkept : ∀ (xs new : Bytes), sessionIdOffset ≤ xs.length →
      (Checked.overwrite xs sessionIdOffset new).take 38 = xs.take 38 := by
    intro xs new hlen
    have hfirst : (xs.take sessionIdOffset).length = sessionIdOffset := by
      rw [List.length_take]
      omega
    have hle : 38 ≤ (xs.take sessionIdOffset).length := by
      rw [hfirst]
      decide
    rw [Checked.overwrite, List.append_assoc, List.take_append_of_le_length hle, List.take_take]
    rfl
  simp only [sealSessionId] at h
  split at h
  · cases h
  · next hlen =>
    have hle : sessionIdOffset + sessionIdSize ≤ clientHello.length := Nat.not_lt.mp hlen
    split at h
    · cases h
    · split at h
      · cases h
      · cases h
        rw [hkept, hkept]
        · omega
        · rw [Checked.length_overwrite (by rw [List.length_replicate]; exact hle)]
          omega

variable {p} {draws : HandshakeDraws} {serverName pbk : String} {shortId : Option String}
  {alpn : List String} {o : Offer} {server : ServerSecrets} {m : ServerMessages}

/-- Client and server bind the certificate to the same key. -/
theorem authKey_agrees (hsound : Sound p)
    (hpbk : decodePbk p pbk = .ok (p.x25519Public server.privateKey))
    (h : offer p draws serverName pbk shortId alpn = .ok o) :
    server.authKey p (p.x25519Public draws.privateKey) o.hello.handshake = .ok o.authKey := by
  simp only [offer] at h
  obtain ⟨pub, hpub, h⟩ := Checked.bind_eq_ok.mp h
  obtain ⟨authKey, hauth, h⟩ := Checked.bind_eq_ok.mp h
  obtain ⟨sid, -, h⟩ := Checked.bind_eq_ok.mp h
  obtain ⟨handshake, hseal, h⟩ := Checked.bind_eq_ok.mp h
  cases h
  cases hpub.symm.trans hpbk
  change deriveAuthKey p draws.privateKey _ _ = _ at hauth
  rw [← hauth, ServerSecrets.authKey, sealSessionId_take p hseal]
  simp only [deriveAuthKey, hsound.x25519 server.privateKey]

theorem offer_privateKey (h : offer p draws serverName pbk shortId alpn = .ok o) :
    o.hello.privateKey = draws.privateKey := by
  simp only [offer] at h
  obtain ⟨_, -, h⟩ := Checked.bind_eq_ok.mp h
  obtain ⟨_, -, h⟩ := Checked.bind_eq_ok.mp h
  obtain ⟨_, -, h⟩ := Checked.bind_eq_ok.mp h
  obtain ⟨_, -, h⟩ := Checked.bind_eq_ok.mp h
  cases h
  rfl

/-- Client and server agree. -/
theorem agreed_agrees (hsound : Sound p) (h : offer p draws serverName pbk shortId alpn = .ok o)
    (hshare : m.parsed.keyShare = p.x25519Public server.keyShare) :
    m.agreed p o.hello =
      server.agreed p (p.x25519Public draws.privateKey) o.hello.handshake m := by
  simp only [ServerMessages.agreed, Agreed.of, ServerSecrets.agreed, hshare, offer_privateKey h,
    hsound.x25519 draws.privateKey]

end Reality

/-! ## The steps of a handshake that completes -/

namespace Handshake

open HandshakeReader (Ahead Took EndsInHandshake)

/-- The ClientHello of a dial is the one that is offered. -/
theorem realityHello_eq (crates : DialCrates) (draws : DialDraws) (serverName pbk : Str)
    (shortId : Option Str) (alpn : List Str) :
    Dial.realityHello crates draws serverName pbk shortId alpn = do
      let o ← offer crates.tls ⟨draws.privateKey, draws.random, draws.now⟩
        (String.ofList serverName) (String.ofList pbk) (shortId.map String.ofList)
        (alpn.map String.ofList)
      if maxPlaintext < o.hello.handshake.length then throw TlsRecordStream.recordTooLarge
      return o.hello.handshake := by
  simp only [Dial.realityHello, offer, bind_assoc, pure_bind]

variable {p : TlsPrimitives} {m : ServerMessages} {s : HandshakeState}

theorem agree_ahead (p : TlsPrimitives) (hello : ClientHello) {clear : List Record} {l : Bytes}
    (hahead : Ahead none l clear m.serverHello.raw s) (hlast : EndsInHandshake clear)
    (hty : m.serverHello.ty = 2)
    (hparse : parseServerHello m.serverHello.raw hello.handshake = .ok m.parsed) :
    ∃ s₁, Took none l clear [] s s₁ ∧ agree p hello s = (.ok (m.agreed p hello), s₁.1, { s₁.2 with
      read := some (RecordProtection.new p (m.agreed p hello).suite
        (m.agreed p hello).secrets.server.bytes) }) := by
  rw [← List.append_nil m.serverHello.raw] at hahead
  obtain ⟨s₁, hnext, htook⟩ := HandshakeReader.nextMessage_ahead hahead
  obtain ⟨hbuf, -, -⟩ := htook.all hlast
  have hbuffered : failIfBuffered s₁ = (.ok ⟨⟩, s₁) := by
    have hempty : s₁.1.hasBuffered = false := by
      rw [HandshakeReader.hasBuffered, hbuf]
      rfl
    simp only [failIfBuffered, hempty, Bool.false_eq_true, if_false]
  have hfail : Session.failIf (m.serverHello.msg.ty ≠ 2) (notServerHello m.serverHello.msg.ty) s₁ =
      (.ok PUnit.unit.{1}, s₁) := Session.failIf_ok.mpr ⟨not_not.mpr hty, rfl⟩
  have hparsed : Session.ofExcept (parseServerHello m.serverHello.msg.raw hello.handshake) s₁ =
      (.ok m.parsed, s₁) := Session.ofExcept_ok.mpr ⟨hparse, rfl⟩
  refine ⟨s₁, htook, Session.bind_eq hnext (Session.bind_eq hfail (Session.bind_eq hparsed
    (Session.bind_eq hbuffered ?_)))⟩
  rfl

theorem verify_ahead (serverName : String) {agreed : Agreed} {authKey : Octets authKeySize}
    {sealed : List Record} {read : Option RecordProtection} {more : Bytes}
    (hflight : FlightAhead p agreed (.new agreed.transcript) m.flight m.finished)
    (hahead : Ahead read more sealed (m.flight.flatMap (·.raw) ++ m.finished.raw) s)
    {message : HandshakeMessage} {leaf pk : Bytes} (hcert : lastCertificate m.flight = some message)
    (hextract : extractLeaf message.body = .ok leaf)
    (hleaf : readEd25519Cert leaf = some (pk, (p.hmacSha512 authKey.bytes pk).bytes)) :
    ∃ s₁, Took read more sealed [] s s₁ ∧ verify p agreed authKey serverName s =
      (.ok (agreed.transcript.update (m.flight.flatMap (·.raw) ++ m.finished.raw)), s₁) := by
  rw [← List.append_nil (_ ++ m.finished.raw)] at hahead
  obtain ⟨f', s₁, hread, htook, htranscript, -, hsome⟩ := readFlight_ahead p rfl hflight hahead
  have hassert : assertReality p leaf authKey.bytes serverName = .ok ⟨⟩ := by
    have hlen : (p.hmacSha512 authKey.bytes pk).bytes.length = 64 :=
      (p.hmacSha512 authKey.bytes pk).size
    simp only [assertReality, hleaf, verifyCertificate, hlen, decide_true, BEq.rfl, Bool.and_self,
      if_true]
  have hsome' : f'.leaf.elim (.error (hsErr "The server sent no certificate.")) .ok =
      (.ok leaf : Except ProxyError Bytes) := by
    rw [hsome message leaf hcert hextract]
    rfl
  have hpresented : Session.ofExcept
      (f'.leaf.elim (.error (hsErr "The server sent no certificate.")) .ok) s₁ =
        (.ok leaf, s₁) := Session.ofExcept_ok.mpr ⟨hsome', rfl⟩
  have hasserted : Session.ofExcept (assertReality p leaf authKey.bytes serverName) s₁ =
      (.ok PUnit.unit.{1}, s₁) := Session.ofExcept_ok.mpr ⟨hassert, rfl⟩
  refine ⟨s₁, htook, Session.bind_eq hread (Session.bind_eq hpresented
    (Session.bind_eq hasserted ?_))⟩
  rw [htranscript]
  rfl

/-- The secret of the client for its application data. -/
def clientTraffic (p : TlsPrimitives) (agreed : Agreed) (after : Bytes) : RecordProtection :=
  RecordProtection.new p agreed.suite
    (deriveSecret p agreed.suite.hash agreed.secrets.master.bytes "c ap traffic" after).bytes

/-- The ChangeCipherSpec of the client, and its Finished under the handshake keys. -/
def clientFinished (p : TlsPrimitives) (agreed : Agreed) (after : Bytes) : Bytes :=
  ccsRecord 3 3 [1] ++
    ((RecordProtection.new p agreed.suite agreed.secrets.client.bytes).seal .handshake
      (buildFinished p agreed.suite.hash agreed.secrets.client.bytes after) 0).1

theorem length_buildFinished (hash : HashKind) (traffic transcript : Bytes) :
    (buildFinished p hash traffic transcript).length = 4 + hash.len := by
  rw [buildFinished, List.length_append, (finishedVerify p hash traffic transcript).size]
  rfl

theorem finish_takes (p : TlsPrimitives) (agreed : Agreed) (after : Bytes)
    (htakes : s.2.transport.Takes) (hwrite : s.2.write = none) :
    ∃ s', finish p agreed after s = (.ok (.new s'.2 s.1.leftover), s') ∧
      s'.2.total = s.2.total ∧ s'.2.read = some (serverTraffic p agreed after) ∧
      s'.2.write = some (clientTraffic p agreed after) ∧
      s'.2.transport.written = s.2.transport.written ++ clientFinished p agreed after := by
  obtain ⟨hs, st⟩ := s
  obtain ⟨st₁, hccs, htakes₁, hwritten₁, htotal₁, -, -⟩ :=
    TlsRecordStream.writeRecord_takes .changeCipherSpec [1] st htakes (by decide)
  have hsize : (buildFinished p agreed.suite.hash agreed.secrets.client.bytes after).length ≤
      maxPlaintext := by
    rw [length_buildFinished]
    cases agreed.suite.hash <;> decide
  obtain ⟨st₂, hfin, -, hwritten₂, htotal₂, -, -⟩ :=
    TlsRecordStream.writeRecord_takes .handshake _ { st₁ with
        write := some (RecordProtection.new p agreed.suite agreed.secrets.client.bytes) }
      htakes₁ hsize
  refine ⟨(hs, { st₂ with
    write := some (clientTraffic p agreed after), read := some (serverTraffic p agreed after) }),
    ?_, ?_, rfl, rfl, ?_⟩
  · have hfirst : onRecords (TlsRecordStream.writeRecord .changeCipherSpec [1]) (hs, st) =
        (.ok ⟨⟩, hs, st₁) := by
      simp only [onRecords, hccs]
    have hsecond : onRecords (TlsRecordStream.writeRecord .handshake
        (buildFinished p agreed.suite.hash agreed.secrets.client.bytes after)) (hs, { st₁ with
          write := some (RecordProtection.new p agreed.suite agreed.secrets.client.bytes) }) =
        (.ok ⟨⟩, hs, st₂) := by
      simp only [onRecords, hfin]
    exact Session.bind_eq hfirst (Session.bind_eq rfl (Session.bind_eq hsecond rfl))
  · exact htotal₂.trans htotal₁
  · show st₂.transport.written = _
    rw [hwritten₂, hwritten₁, List.append_assoc]
    have hstage : (st.stage .changeCipherSpec [1]).1 = ccsRecord 3 3 [1] := by
      simp only [TlsRecordStream.stage, show st.write = none from hwrite]
      rfl
    rw [hstage, TlsRecordStream.stage_seal rfl]
    rfl

/-! ## Handshakes with a server that holds the private key -/

open RealityTlsStream (Fills Quiet applicationData meaning)

/-- Data that no record ends, and then the alert that does. -/
def sessionRecords (pieces : List Bytes) : List Record :=
  pieces.map (fun piece => ⟨.applicationData, piece⟩) ++ [⟨.alert, [1, 0]⟩]

theorem quiet_pieces {pieces : List Bytes} (h : ∀ piece ∈ pieces, piece ≠ []) (n : Nat) :
    Quiet n (pieces.map fun piece => ⟨.applicationData, piece⟩) := by
  induction pieces generalizing n with
  | nil => trivial
  | cons piece pieces ih =>
    obtain ⟨hne, hmore⟩ := List.forall_mem_cons.mp h
    have hmeaning : meaning ⟨.applicationData, piece⟩ = .data := by
      rw [meaning, if_neg (by rwa [List.isEmpty_iff])]
    rw [List.map_cons, Quiet, hmeaning]
    exact ih hmore 0

theorem applicationData_pieces (pieces : List Bytes) :
    applicationData (pieces.map fun piece => ⟨.applicationData, piece⟩) = pieces.flatten := by
  induction pieces with
  | nil => rfl
  | cons piece pieces ih =>
    rw [List.flatten_cons, ← ih]
    rfl

/-- A stream whose bytes are sealed pieces and a close_notify alert delivers the pieces. -/
theorem session_delivers {st : TlsRecordStream Transport} {k : RecordProtection}
    {pieces : List Bytes} {wire behind : Bytes} {read : Option RecordProtection}
    (hlawful : k.aead.Lawful tagLen) (hread : st.read = some k) (htotal : st.total = wire ++ behind)
    (hpieces : ∀ piece ∈ pieces, piece ≠ [])
    (hwire : OnWire (some k) (sessionRecords pieces) wire read) :
    Delivers pollRead (RealityTlsStream.new st []) pieces.flatten .eof := by
  have hframes := hwire.frames (fun k' hk' => by cases hk'; exact hlawful) behind
  rw [← htotal, ← hread] at hframes
  have hfills : Fills behind (RealityTlsStream.new st [])
      (pieces.map fun piece => ⟨.applicationData, piece⟩) .eof :=
    Fills.of_last rfl (quiet_pieces hpieces _) rfl hframes
  have hdelivers := hfills.delivers
  rw [applicationData_pieces] at hdelivers
  exact hdelivers

variable {draws : HandshakeDraws} {serverName pbk : String} {shortId : Option String}
  {alpn : List String} {o : Offer} {server : ServerSecrets}

/-- What the client has to hold at the end, when the server goes on with `agreed`. -/
structure Completed (p : TlsPrimitives) (agreed : Agreed) (after hello more : Bytes) (t : Transport)
    (stream : RealityTlsStream Transport) (s : HandshakeState) : Prop where
  stream : stream = .new s.2 []
  total : s.2.total = more
  read : s.2.read = some (serverTraffic p agreed after)
  write : s.2.write = some (clientTraffic p agreed after)
  written : s.2.transport.written = t.written ++ hello ++ clientFinished p agreed after

/-- The handshake with a server that holds the private key completes, however the messages are cut
into records, however they arrive and in whatever pieces the transport takes what is sent.  Both
sides hold the same keys, and the stream delivers what the server sends under its own. -/
theorem completes (hsound : Sound p)
    (hpbk : decodePbk p pbk = .ok (p.x25519Public server.privateKey))
    (hoffer : offer p draws serverName pbk shortId alpn = .ok o)
    (hsize : o.hello.handshake.length ≤ maxPlaintext)
    (hanswers : server.Answers p (p.x25519Public draws.privateKey) o.hello.handshake m)
    {t : Transport} {more : Bytes} (htakes : t.Takes)
    (hsends : Sends p (server.agreed p (p.x25519Public draws.privateKey) o.hello.handshake m) m
      (unread t.reads) more) :
    let agreed := server.agreed p (p.x25519Public draws.privateKey) o.hello.handshake m
    let after := (agreed.transcript.update
      (m.flight.flatMap (·.raw) ++ m.finished.raw)).current p
    ∃ stream s, handshake p draws serverName pbk shortId alpn (.start t) = (.ok stream, s) ∧
      Completed p agreed after (helloRecord o.hello) more t stream s ∧
      ∀ pieces wire behind read, more = wire ++ behind → (∀ piece ∈ pieces, piece ≠ []) →
        OnWire (some (serverTraffic p agreed after)) (sessionRecords pieces) wire read →
        Delivers pollRead stream pieces.flatten .eof := by
  intro agreed after
  have hagreed : m.agreed p o.hello = agreed := agreed_agrees hsound hoffer hanswers.keyShare
  obtain ⟨clear, sealed, first, second, read, hbytes, hclear, hsealed, hclearIn, hsealedIn,
    hclearLast, hsealedLast, hhello, hflight⟩ := hsends.wire
  -- the ClientHello
  obtain ⟨st, hwrite, htakes₀, hwritten₀, htotal₀, hread₀, hwrite₀⟩ :=
    TlsRecordStream.writeRecord_takes .handshake _ (.new t) htakes hsize
  have hfirst : onRecords (TlsRecordStream.writeRecord .handshake o.hello.handshake) (.start t) =
      (.ok PUnit.unit.{1}, .new, st) := by
    simp only [onRecords, HandshakeState.start, hwrite]
  have htotal : st.total = first ++ (second ++ more) := htotal₀.trans hbytes
  -- the ServerHello
  have hclearFrames : recordFramer.Frames st.read st.total clear none (second ++ more) := by
    rw [show st.read = none from hread₀, htotal]
    exact hclear.frames (fun k hk => by cases hk) _
  have hserverHello : Ahead none (second ++ more) clear m.serverHello.raw (.new, st) :=
    ⟨hclearIn, hclearFrames, hhello⟩
  obtain ⟨s₁, htook₁, hagree⟩ := agree_ahead p o.hello hserverHello hclearLast
    hanswers.serverHello.1 hanswers.serverHello.2
  rw [hagreed] at hagree
  obtain ⟨hbuf₁, -, htotal₁⟩ := htook₁.all hclearLast
  -- the flight
  have hsealedFrames : recordFramer.Frames
      (some (RecordProtection.new p agreed.suite agreed.secrets.server.bytes)) s₁.2.total sealed
      read more := by
    rw [htotal₁]
    exact hsealed.frames (fun k hk => by cases hk; exact hsound.protection _ _) more
  obtain ⟨message, leaf, authKey, pk, hcert, hextract, hauth, hleaf⟩ := hanswers.certificate
  cases hauth.symm.trans (authKey_agrees hsound hpbk hoffer)
  have hahead : FlightAhead p agreed (.new agreed.transcript) m.flight m.finished :=
    ⟨hanswers.types, hanswers.leaves, (Nat.zero_add _).symm ▸ hanswers.bound, hanswers.finished,
      hanswers.verified⟩
  have hmessages : Ahead read more sealed (m.flight.flatMap (·.raw) ++ m.finished.raw)
      (s₁.1, { s₁.2 with
        read := some (RecordProtection.new p agreed.suite agreed.secrets.server.bytes) }) :=
    ⟨hsealedIn, hsealedFrames, (congrArg (· ++ _) hbuf₁).trans hflight⟩
  obtain ⟨s₂, htook₂, hverify⟩ := verify_ahead serverName hahead hmessages hcert hextract hleaf
  obtain ⟨hbuf₂, -, htotal₂⟩ := htook₂.all hsealedLast
  -- the Finished
  have hmute := htook₁.mute
  have hmute₂ := htook₂.mute
  obtain ⟨s, hfinish, htotal₃, hreadKey, hwriteKey, hwritten⟩ := finish_takes p agreed after
    (htakes₀.congr (hmute₂.writes.trans hmute.writes))
    ((hmute₂.write.trans hmute.write).trans hwrite₀)
  have hnone : s₂.1.leftover = [] := htook₂.leftover.trans htook₁.leftover
  rw [hnone] at hfinish
  refine ⟨.new s.2 [], s, ?_, ⟨rfl, htotal₃.trans htotal₂, hreadKey, hwriteKey, ?_⟩, ?_⟩
  · have hoffered : Session.ofExcept (offer p draws serverName pbk shortId alpn) (.start t) =
        (.ok o, HandshakeState.start t) := by
      rw [hoffer]
      rfl
    exact Session.bind_eq hoffered (Session.bind_eq hfirst (Session.bind_eq hagree
      (Session.bind_eq hverify hfinish)))
  · rw [hwritten, (hmute₂.written.trans hmute.written).trans hwritten₀]
    rfl
  · intro pieces wire behind read' hmore hpieces hwire
    exact session_delivers (hsound.protection _ _) hreadKey
      ((htotal₃.trans htotal₂).trans hmore) hpieces hwire

end Handshake

/-! ### A server that is understood -/

namespace Sample

def server : ServerSecrets := ⟨zeros, zeros⟩

def messages : ServerMessages := ⟨serverHello, parsed, [certificate], finished⟩

/-- The flight in two records, behind a ChangeCipherSpec. -/
def flight : Bytes :=
  ccsRecord 3 3 [1] ++ sealAll keys
    [⟨.handshake, certificate.raw.take 9⟩, ⟨.handshake, certificate.raw.drop 9 ++ finished.raw⟩]

def after : Bytes :=
  (agreed.transcript.update (certificate.raw ++ finished.raw)).current .exchange

def session : Bytes :=
  sealAll (Handshake.serverTraffic .exchange agreed after)
    (Handshake.sessionRecords [[1, 2], [3]])

/-- The bytes come in two pieces, and what is sent is taken in pieces. -/
def transport : Transport :=
  let rest := clear.drop 7 ++ (flight ++ session)
  { Transport.serving (arrive (clear.take 7) (.pending :: arrive rest [])) .eof with
    writes := [.accept 3, .pending, .accept 1] }

theorem exchange_sound : Sound .exchange where
  aes128Gcm := keyTagged_lawful
  aes256Gcm := keyTagged_lawful
  chaCha20Poly1305 := keyTagged_lawful
  x25519 a b := by
    have hcomm : List.zipWith UInt8.add a.bytes b.bytes = List.zipWith UInt8.add b.bytes a.bytes :=
      List.zipWith_comm_of_comm UInt8.add_comm
    simp only [TlsPrimitives.exchange, TlsPrimitives.sums, Octets.mk.injEq]
    exact hcomm

theorem ok_getD {ε α : Type} {x : Except ε α} (h : x.toOption.isSome = true) (a : α) :
    x = .ok (x.toOption.getD a) := by
  cases x with
  | error e => cases h
  | ok a' => rfl

/-- All that has to be evaluated, at once. -/
theorem checked :
    (offer .exchange draws "" pbk none []).toOption.isSome = true ∧
    decodePbk .exchange pbk = .ok (TlsPrimitives.exchange.x25519Public server.privateKey) ∧
    offered.hello.handshake.length ≤ maxPlaintext ∧ serverHello.raw.length ≤ maxPlaintext ∧
    parseServerHello serverHello.raw offered.hello.handshake = .ok parsed ∧
    extractLeaf certificate.body = .ok leaf ∧
    server.authKey .exchange (TlsPrimitives.exchange.x25519Public draws.privateKey)
      offered.hello.handshake = .ok offered.authKey ∧
    readEd25519Cert leaf = some (List.replicate 32 0,
      (TlsPrimitives.exchange.hmacSha512 offered.authKey.bytes (List.replicate 32 0)).bytes) := by
  decide +kernel

theorem offer_offered : offer .exchange draws "" pbk none [] = .ok offered :=
  ok_getD checked.1 _

theorem agreed_eq : server.agreed .exchange (TlsPrimitives.exchange.x25519Public draws.privateKey)
    offered.hello.handshake messages = agreed :=
  (agreed_agrees (m := messages) exchange_sound offer_offered rfl).symm

theorem answers : server.Answers .exchange (TlsPrimitives.exchange.x25519Public draws.privateKey)
    offered.hello.handshake messages := by
  obtain ⟨-, -, -, -, hparse, hleaf, hauth, hcert⟩ := checked
  refine ⟨⟨rfl, hparse⟩, rfl, by decide, ?_, by decide, rfl, ?_, ?_⟩
  · intro message hmessage _
    rw [List.mem_singleton.mp hmessage]
    exact ⟨leaf, hleaf⟩
  · have hverified : ∀ a : Agreed, a = agreed → messages.finished.body =
        (finishedVerify .exchange a.suite.hash a.secrets.server.bytes
          ((a.transcript.update (messages.flight.flatMap (·.raw))).current .exchange)).bytes := by
      rintro a rfl
      rw [show messages.flight.flatMap (·.raw) = certificate.raw from List.append_nil _]
      rfl
    exact hverified _ agreed_eq
  · exact ⟨certificate, leaf, offered.authKey, List.replicate 32 0, rfl, hleaf, hauth, hcert⟩

theorem sealAll_onWire (k : RecordProtection) (records : List Record)
    (h : ∀ r ∈ records, r.payload.length ≤ maxPlaintext) :
    ∃ read, OnWire (some k) records (sealAll k records) read := by
  induction records generalizing k with
  | nil => exact ⟨some k, .nil⟩
  | cons r records ih =>
    obtain ⟨hr, hmore⟩ := List.forall_mem_cons.mp h
    obtain ⟨read, hwire⟩ := ih (k.seal r.ty r.payload 0).2 hmore
    exact ⟨read, .sealed 0 hr hwire⟩

theorem sends : Sends .exchange (server.agreed .exchange
    (TlsPrimitives.exchange.x25519Public draws.privateKey) offered.hello.handshake messages)
    messages (unread transport.reads) session where
  wire := by
    obtain ⟨-, -, -, hsize, -⟩ := checked
    have hclear : OnWire none [⟨.handshake, serverHello.raw⟩] (clear ++ []) none :=
      .clear 3 3 hsize .nil
    obtain ⟨read, hsealed⟩ := sealAll_onWire keys [⟨.handshake, certificate.raw.take 9⟩,
      ⟨.handshake, certificate.raw.drop 9 ++ finished.raw⟩] (by decide +kernel)
    rw [List.append_nil] at hclear
    rw [agreed_eq]
    refine ⟨_, _, clear, flight, read, ?_, hclear, .changeCipherSpec 3 3 (by decide) hsealed, ?_,
      ?_, ?_, ?_, ?_, ?_⟩
    · simp only [transport, Transport.serving, unread_arrive, unread, List.append_nil,
        ← List.append_assoc, List.take_append_drop]
    · intro r hr
      rw [List.mem_singleton.mp hr]
      exact Or.inl ⟨rfl, List.cons_ne_nil _ _⟩
    · decide +kernel
    · intro r hr
      cases hr
      rfl
    · intro r hr
      cases hr
      rfl
    · exact List.append_nil _
    · show certificate.raw.take 9 ++ (certificate.raw.drop 9 ++ finished.raw ++ []) =
        certificate.raw ++ [] ++ finished.raw
      rw [List.append_nil, List.append_nil, ← List.append_assoc, List.take_append_drop]

end Sample

theorem Handshake.completes_sample : ∃ stream s,
    handshake .exchange Sample.draws "" Sample.pbk none [] (.start Sample.transport) =
      (.ok stream, s) ∧ Delivers pollRead stream [1, 2, 3] .eof := by
  obtain ⟨-, hpbk, hsize, -⟩ := Sample.checked
  obtain ⟨stream, s, hrun, -, hdelivers⟩ := completes Sample.exchange_sound hpbk
    Sample.offer_offered hsize Sample.answers (by decide) Sample.sends
  rw [Sample.agreed_eq] at hdelivers
  obtain ⟨read, hsession⟩ := Sample.sealAll_onWire
    (serverTraffic .exchange Sample.agreed Sample.after) (sessionRecords [[1, 2], [3]]) (by decide)
  exact ⟨stream, s, hrun, hdelivers [[1, 2], [3]] Sample.session [] read
    (List.append_nil _).symm (by decide) hsession⟩

end RustClash
