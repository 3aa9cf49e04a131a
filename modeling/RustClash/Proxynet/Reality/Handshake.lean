import RustClash.Proxynet.Dial
import RustClash.Proxynet.Reality.Certificate
import RustClash.Proxynet.Reality.HandshakeReader
import RustClash.Proxynet.Reality.ServerMessages
import RustClash.Proxynet.RealityEnds

/-!
# The handshake

`handshake` sends a ClientHello, reads the ServerHello and the flight that is sealed under the
keys both sides agree on, and answers with its own Finished once the server has proved that it
holds the private key.  `Authenticated` says what the messages of the server have to be for
that.  The keys for reading change twice; `handshake_epochs` says what the second change leaves
behind.
-/

namespace RustClash

open Reality

def HandshakeState.start (transport : Transport) : HandshakeState :=
  (.new, .new transport)

/-! ## Messages over a record stream -/

namespace HandshakeReader

open RealityTlsStream (applicationData)

/-- What the records `records` bring the reader that takes the messages `returned` meanwhile. -/
structure Reads (s : HandshakeState) (records : List Record) (returned : Bytes)
    (s' : HandshakeState) : Prop where
  frames : recordFramer.Frames s.2.read s.2.total records s'.2.read s'.2.total
  buf : s.1.buf ++ handshakeBytes records = returned ++ s'.1.buf
  leftover : s'.1.leftover = s.1.leftover ++ applicationData records
  early : s.2.read = none → applicationData records = []
  written : s'.2.transport.written = s.2.transport.written

/-- Without keys no record brings them. -/
theorem frames_none {l l' : Bytes} {records : List Record} {read' : Option RecordProtection}
    (h : recordFramer.Frames none l records read' l') : read' = none := by
  induction records generalizing l with
  | nil =>
    cases h
    rfl
  | cons r records ih =>
    obtain ⟨read₁, l₁, hcut, hframes⟩ := h.cons_inv
    obtain ⟨_, _, _, _, hopened⟩ := cutRecord_taken hcut
    cases hopened
    exact ih hframes

theorem Reads.refl (s : HandshakeState) : Reads s [] [] s :=
  ⟨.nil, List.append_nil _, (List.append_nil _).symm, fun _ => rfl, rfl⟩

theorem Reads.trans {s s₁ s₂ : HandshakeState} {records records' : List Record}
    {returned returned' : Bytes} (h : Reads s records returned s₁)
    (h' : Reads s₁ records' returned' s₂) :
    Reads s (records ++ records') (returned ++ returned') s₂ where
  frames := h.frames.append h'.frames
  buf := by
    rw [handshakeBytes_append, ← List.append_assoc, h.buf, List.append_assoc, h'.buf,
      List.append_assoc]
  leftover := by
    rw [h'.leftover, h.leftover, RealityTlsStream.applicationData_append, List.append_assoc]
  early := by
    intro hnone
    have hframes := h.frames
    rw [hnone] at hframes
    rw [RealityTlsStream.applicationData_append, h.early hnone, h'.early (frames_none hframes)]
    rfl
  written := h'.written.trans h.written

/-- Enough bytes begin with a message. -/
theorem exists_message {buf : Bytes} (hfour : 4 ≤ buf.length)
    (hbody : 4 + ofBe [buf.getD 1 0, buf.getD 2 0, buf.getD 3 0] ≤ buf.length) :
    ∃ (m : HandshakeMessage) (rest : Bytes), buf = m.raw ++ rest := by
  obtain ⟨ty, b₁, b₂, b₃, rest, rfl⟩ : ∃ ty b₁ b₂ b₃ rest, buf = ty :: b₁ :: b₂ :: b₃ :: rest := by
    rcases buf with _ | ⟨ty, _ | ⟨b₁, _ | ⟨b₂, _ | ⟨b₃, rest⟩⟩⟩⟩
    · simp at hfour
    · simp at hfour
    · simp at hfour
    · simp at hfour
    · exact ⟨ty, b₁, b₂, b₃, rest, rfl⟩
  change 4 + ofBe [b₁, b₂, b₃] ≤ rest.length + 1 + 1 + 1 + 1 at hbody
  have hlt := ofBe_lt [b₁, b₂, b₃]
  have hbe : toBe 3 (ofBe [b₁, b₂, b₃]) = [b₁, b₂, b₃] := toBe_ofBe [b₁, b₂, b₃]
  generalize ofBe [b₁, b₂, b₃] = n at hbody hlt hbe
  have hsize : (rest.take n).length = n := by
    rw [List.length_take]
    omega
  have hbound : (rest.take n).length < 256 ^ 3 := by
    rw [hsize]
    exact hlt
  refine ⟨⟨ty, rest.take n, hbound⟩, rest.drop n, ?_⟩
  rw [HandshakeMessage.raw, hsize, hbe]
  simp only [List.cons_append, List.nil_append, List.take_append_drop]

/-- A message that is taken has a header that states its length. -/
theorem tryTake_message {hs hs' : HandshakeReader} {msg : HsMsg}
    (h : hs.tryTake = some (msg, hs')) :
    ∃ m : HandshakeMessage, msg = m.msg ∧ hs.buf = m.raw ++ hs'.buf ∧
      hs'.leftover = hs.leftover := by
  obtain ⟨m, rest, hbuf⟩ : ∃ (m : HandshakeMessage) (rest : Bytes), hs.buf = m.raw ++ rest := by
    simp only [tryTake] at h
    split at h
    · cases h
    · next hfour =>
      split at h
      · cases h
      · next hbody => exact exists_message (Nat.not_lt.mp hfour) (Nat.not_lt.mp hbody)
  rw [tryTake_raw hbuf] at h
  cases h
  exact ⟨m, rfl, hbuf, rfl⟩

/-- What a record that is taken does. -/
theorem absorb_ok {hs hs' : HandshakeReader} {keys : Bool} {r : Record}
    (h : hs.absorb keys r = .ok hs') :
    hs'.buf = hs.buf ++ handshakeBytes [r] ∧ hs'.leftover = hs.leftover ++ applicationData [r] ∧
      (keys = false → applicationData [r] = []) := by
  obtain ⟨ty, payload⟩ := r
  cases ty with
  | changeCipherSpec =>
    cases h
    exact ⟨(List.append_nil _).symm, (List.append_nil _).symm, fun _ => rfl⟩
  | alert => cases h
  | applicationData =>
    have hdata : applicationData [⟨.applicationData, payload⟩] = payload := List.append_nil _
    simp only [absorb] at h
    split at h
    · next hkeys =>
      cases h
      refine ⟨(List.append_nil _).symm, by rw [hdata], ?_⟩
      rw [hkeys]
      intro hfalse
      cases hfalse
    · cases h
  | handshake =>
    have hbytes : handshakeBytes [⟨.handshake, payload⟩] = payload := List.append_nil _
    simp only [absorb] at h
    split at h
    · cases h
    · cases h
      exact ⟨by rw [hbytes], (List.append_nil _).symm, fun _ => rfl⟩

/-- A pass that goes round again took one record. -/
theorem messagePass_inl {s s' : HandshakeState} (h : messagePass s = .inl s') :
    ∃ r, Reads s [r] [] s' := by
  obtain ⟨hs, st⟩ := s
  simp only [messagePass] at h
  split at h
  · cases h
  · have hspec := st.readRecord_spec
    rcases hread : TlsRecordStream.readRecord st with ⟨e | r, st'⟩ <;> rw [hread] at hspec <;>
      simp only [hread] at h
    · cases h
    · split at h
      · cases h
      · next hs' habsorb =>
        cases h
        cases hspec with
        | record hcut _ hwritten =>
          obtain ⟨hbuf, hleftover, hearly⟩ := absorb_ok habsorb
          have hframes := Framer.Frames.single hcut
          refine ⟨r, hframes, hbuf.symm, hleftover, ?_, hwritten⟩
          intro hnone
          change recordFramer.Frames st.read _ _ _ _ at hframes
          rw [show st.read = none from hnone] at hframes
          exact hearly (by rw [frames_none hframes]; rfl)

/-- The answers of `nextMessage`. -/
inductive NextMessage (s : HandshakeState) : Except ProxyError HsMsg × HandshakeState → Prop
| message {m : HandshakeMessage} {records : List Record} {s' : HandshakeState} :
  Reads s records m.raw s' ->
  NextMessage s (.ok m.msg, s')
| error {e : ProxyError} {s' : HandshakeState} :
  s'.2.transport.written = s.2.transport.written ->
  NextMessage s (.error e, s')

theorem messagePass_inr {s : HandshakeState} {out : Except ProxyError HsMsg × HandshakeState}
    (h : messagePass s = .inr out) : NextMessage s out := by
  obtain ⟨hs, st⟩ := s
  simp only [messagePass] at h
  split at h
  · next htake =>
    cases h
    obtain ⟨m, rfl, hbuf, hleftover⟩ := tryTake_message htake
    refine .message ⟨.nil, ?_, ?_, fun _ => rfl, rfl⟩
    · exact (List.append_nil _).trans hbuf
    · exact hleftover.trans (List.append_nil _).symm
  · have hspec := st.readRecord_spec
    rcases hread : TlsRecordStream.readRecord st with ⟨e | r, st'⟩ <;> rw [hread] at hspec <;>
      simp only [hread] at h
    · cases h
      cases hspec with
      | error _ hwritten => exact .error hwritten
    · split at h
      · cases h
        cases hspec with
        | record _ _ hwritten => exact .error hwritten
      · cases h

theorem nextMessage_spec (s : HandshakeState) : NextMessage s (nextMessage s) := by
  refine Loop.rule (l := messageLoop) (P := NextMessage) ?_ (fun _ _ h => messagePass_inr h) s
  intro s s' out h ih
  obtain ⟨r, hreads⟩ := messagePass_inl h
  cases ih with
  | message hmessage => exact .message (hreads.trans hmessage)
  | error hwritten => exact .error (hwritten.trans hreads.written)

end HandshakeReader

/-! ## The handshake -/

/-- What the client draws. -/
structure HandshakeDraws where
  privateKey : Octets 32
  random : Octets 32
  now : UInt32

namespace Reality

def maxFlight : Nat := 8

variable (p : TlsPrimitives)

structure Transcript where
  hash : HashKind
  data : Bytes

namespace Transcript

def new (hash : HashKind) : Transcript := ⟨hash, []⟩

def update (t : Transcript) (m : Bytes) : Transcript := { t with data := t.data ++ m }

def current (t : Transcript) : Bytes := (p.digest t.hash t.data).bytes

end Transcript

/-- The ClientHello that is sent, and the key that the server's certificate has to be bound to. -/
structure Offer where
  hello : ClientHello
  authKey : Octets authKeySize

def offer (draws : HandshakeDraws) (serverName pbk : String) (shortId : Option String)
    (alpn : List String) : Except ProxyError Offer := do
  let pub ← decodePbk p pbk
  let hello := build p serverName alpn draws.privateKey draws.random
  let authKey ← deriveAuthKey p hello.privateKey pub ((hello.handshake.take 38).drop 6)
  let sid ← parseShortId shortId
  let handshake ← sealSessionId p hello.handshake authKey sid draws.now Dial.clientVersion
  return ⟨{ hello with handshake }, authKey⟩

def verifyFinished (hash : HashKind) (traffic transcript body : Bytes) :
    Except ProxyError PUnit :=
  if body ≠ (finishedVerify p hash traffic transcript).bytes then
    .error (authErr "The server's Finished did not verify. The peer does not hold the private key for the key_share it sent.")
  else .ok ⟨⟩

def buildFinished (hash : HashKind) (traffic transcript : Bytes) : Bytes :=
  [20, 0, UInt8.ofNat (hash.len / 256), UInt8.ofNat hash.len] ++
    (finishedVerify p hash traffic transcript).bytes

def assertReality (cert authKey : Bytes) (sni : String) : Except ProxyError PUnit :=
  match readEd25519Cert cert with
  | none =>
      .error (authErr s!"The peer presented an ordinary certificate for '{sni}' rather than a REALITY one. The handshake was relayed to the real site — check the public key, the short id and the clock.")
  | some (pk, sig) =>
      if verifyCertificate p authKey pk sig then .ok ⟨⟩
      else
        .error (authErr "The peer's certificate is not bound to our REALITY shared secret. Refusing to tunnel.")

/-- What the ServerHello settles. -/
structure Agreed where
  suite : CipherSuite
  secrets : HandshakeSecrets suite.hash
  transcript : Transcript

def Agreed.of (hello : ClientHello) (raw : Bytes) (parsed : ServerHello) : Agreed :=
  let transcript := ((Transcript.new parsed.suite.hash).update hello.handshake).update raw
  let shared := p.x25519 hello.privateKey parsed.keyShare
  ⟨parsed.suite, deriveHandshakeSecrets p parsed.suite.hash shared.bytes (transcript.current p),
    transcript⟩

/-! ### The flight of the server -/

/-- What the flight came to so far. -/
structure Flight where
  leaf : Option Bytes
  finished : Bool
  flight : Nat
  transcript : Transcript

namespace Flight

def new (transcript : Transcript) : Flight := ⟨none, false, 0, transcript⟩

def tooLong : ProxyError :=
  hsErr s!"The server sent more than {maxFlight} handshake messages without a Finished."

def unexpected (other : UInt8) : ProxyError :=
  let other := other.toNat
  hsErr s!"Unexpected {other} in the server's handshake flight."

def update (f : Flight) (msg : HsMsg) : Flight :=
  { f with transcript := f.transcript.update msg.raw }

/-- The next message of the flight. -/
def receive (agreed : Agreed) (f : Flight) (msg : HsMsg) : Except ProxyError Flight :=
  let f := { f with flight := f.flight + 1 }
  if maxFlight < f.flight then .error tooLong
  else if msg.ty = 8 ∨ msg.ty = 15 then .ok (f.update msg)
  else if msg.ty = 11 then do
    let leaf ← extractLeaf msg.body
    return { f with leaf := some leaf }.update msg
  else if msg.ty = 20 then do
    verifyFinished p agreed.suite.hash agreed.secrets.server.bytes (f.transcript.current p) msg.body
    return { f with finished := true }.update msg
  else if msg.ty = 13 then
    .error (hsErr "The server asked for a client certificate, which this client does not implement.")
  else .error (unexpected msg.ty)

end Flight

/-- One pass of the loop over the flight. -/
def flightPass (agreed : Agreed) (s : Flight × HandshakeState) :
    (Flight × HandshakeState) ⊕ (Except ProxyError Flight × HandshakeState) :=
  if s.1.finished then .inr (.ok s.1, s.2)
  else
    match HandshakeReader.nextMessage s.2 with
    | (.error e, st) => .inr (.error e, st)
    | (.ok msg, st) =>
        match s.1.receive p agreed msg with
        | .error e => .inr (.error e, st)
        | .ok f => .inl (f, st)

/-- What a message of the flight does that is accepted. -/
inductive Received (agreed : Agreed) (f : Flight) (msg : HsMsg) : Flight → Prop
| other :
  msg.ty = 8 ∨ msg.ty = 15 ->
  Received agreed f msg ({ f with flight := f.flight + 1 }.update msg)
| certificate {leaf : Bytes} :
  msg.ty = 11 ->
  extractLeaf msg.body = .ok leaf ->
  Received agreed f msg ({ f with flight := f.flight + 1, leaf := some leaf }.update msg)
| finished :
  msg.ty = 20 ->
  msg.body = (finishedVerify p agreed.suite.hash agreed.secrets.server.bytes
    (f.transcript.current p)).bytes ->
  Received agreed f msg ({ f with flight := f.flight + 1, finished := true }.update msg)

theorem receive_ok {agreed : Agreed} {f f' : Flight} {msg : HsMsg}
    (h : f.receive p agreed msg = .ok f') :
    f.flight + 1 ≤ maxFlight ∧ Received p agreed f msg f' := by
  simp only [Flight.receive] at h
  split at h
  · cases h
  · next hbound =>
    refine ⟨Nat.not_lt.mp hbound, ?_⟩
    split at h
    · next hty =>
      cases h
      exact .other hty
    · split at h
      · next hty =>
        cases hleaf : extractLeaf msg.body with
        | error e =>
          rw [hleaf] at h
          cases h
        | ok leaf =>
          rw [hleaf] at h
          cases h
          exact .certificate hty hleaf
      · split at h
        · next hty =>
          simp only [verifyFinished] at h
          split at h
          · cases h
          · next hbody =>
            cases h
            exact .finished hty (not_not.mp hbody)
        · split at h <;> cases h

theorem Received.flight {agreed : Agreed} {f f' : Flight} {msg : HsMsg}
    (h : Received p agreed f msg f') : f'.flight = f.flight + 1 := by
  cases h with
  | other => rfl
  | certificate => rfl
  | finished => rfl

def flightLoop (agreed : Agreed) :
    Loop (Flight × HandshakeState) (Except ProxyError Flight × HandshakeState) where
  body := flightPass p agreed
  measure s := maxFlight - s.1.flight
  decreases := by
    rintro ⟨f, st⟩ s' h
    simp only [flightPass] at h
    split at h
    · cases h
    · split at h
      · cases h
      · split at h
        · cases h
        · next hreceive =>
          cases h
          obtain ⟨hbound, hreceived⟩ := receive_ok p hreceive
          have hflight := hreceived.flight
          simp only
          omega

/-- The messages of the flight, up to the Finished. -/
def readFlight (agreed : Agreed) (f : Flight) : Session HandshakeState ProxyError Flight :=
  fun s => (flightLoop p agreed).run (f, s)

end Reality

/-! ### The steps of the handshake -/

namespace Handshake

variable (p : TlsPrimitives)

/-- A step that only needs the record stream. -/
def onRecords {α : Type} (x : Session (TlsRecordStream Transport) ProxyError α) :
    Session HandshakeState ProxyError α := fun s =>
  let (r, records) := x s.2
  (r, s.1, records)

def setRead (protection : RecordProtection) : Session HandshakeState ProxyError PUnit :=
  Session.update fun s => (s.1, { s.2 with read := some protection })

def setWrite (protection : RecordProtection) : Session HandshakeState ProxyError PUnit :=
  Session.update fun s => (s.1, { s.2 with write := some protection })

/-- No handshake bytes are left before the first change of keys. -/
def failIfBuffered : Session HandshakeState ProxyError PUnit := fun s =>
  (if s.1.hasBuffered then
      .error (hsErr "The peer sent unencrypted handshake bytes after its ServerHello.")
    else .ok ⟨⟩, s)

def notServerHello (ty : UInt8) : ProxyError :=
  let ty := ty.toNat
  hsErr s!"Expected a ServerHello, got {ty}"

/-- Read the ServerHello, and from then on records under the keys it leads to. -/
def agree (hello : ClientHello) : Session HandshakeState ProxyError Agreed := do
  let serverHello ← HandshakeReader.nextMessage
  Session.failIf (serverHello.ty ≠ 2) (notServerHello serverHello.ty)
  let parsed ← Session.ofExcept (parseServerHello serverHello.raw hello.handshake)
  failIfBuffered
  let agreed := Agreed.of p hello serverHello.raw parsed
  setRead (RecordProtection.new p agreed.suite agreed.secrets.server.bytes)
  pure agreed

/-- Read the flight, and verify that the server is a REALITY one. -/
def verify (agreed : Agreed) (authKey : Octets authKeySize) (serverName : String) :
    Session HandshakeState ProxyError Transcript := do
  let f ← readFlight p agreed (.new agreed.transcript)
  let cert ← Session.ofExcept (f.leaf.elim (.error (hsErr "The server sent no certificate.")) .ok)
  Session.ofExcept (assertReality p cert authKey.bytes serverName)
  pure f.transcript

def finish (agreed : Agreed) (after : Bytes) :
    Session HandshakeState ProxyError (RealityTlsStream Transport) := do
  onRecords (TlsRecordStream.writeRecord .changeCipherSpec [1])
  setWrite (RecordProtection.new p agreed.suite agreed.secrets.client.bytes)
  onRecords (TlsRecordStream.writeRecord .handshake
    (buildFinished p agreed.suite.hash agreed.secrets.client.bytes after))
  let master := agreed.secrets.master.bytes
  let cAp := deriveSecret p agreed.suite.hash master "c ap traffic" after
  let sAp := deriveSecret p agreed.suite.hash master "s ap traffic" after
  setWrite (RecordProtection.new p agreed.suite cAp.bytes)
  setRead (RecordProtection.new p agreed.suite sAp.bytes)
  fun s => (.ok (.new s.2 s.1.leftover), s)

end Handshake

open Handshake in
def handshake (p : TlsPrimitives) (draws : HandshakeDraws) (serverName pbk : String)
    (shortId : Option String) (alpn : List String) :
    Session HandshakeState ProxyError (RealityTlsStream Transport) := do
  let offer ← Session.ofExcept (offer p draws serverName pbk shortId alpn)
  onRecords (TlsRecordStream.writeRecord .handshake offer.hello.handshake)
  let agreed ← agree p offer.hello
  let transcript ← verify p agreed offer.authKey serverName
  finish p agreed (transcript.current p)

/-! ## The flight -/

namespace Reality

variable (p : TlsPrimitives)

/-- Messages that are accepted, each before the Finished. -/
inductive Receives (agreed : Agreed) : Flight → List HandshakeMessage → Flight → Prop
| nil {f : Flight} : Receives agreed f [] f
| cons {f f₁ f' : Flight} {m : HandshakeMessage} {messages : List HandshakeMessage} :
  f.finished = false ->
  f.flight + 1 ≤ maxFlight ->
  Received p agreed f m.msg f₁ ->
  Receives agreed f₁ messages f' ->
  Receives agreed f (m :: messages) f'

/-- The last Certificate message of a flight. -/
def lastCertificate (messages : List HandshakeMessage) : Option HandshakeMessage :=
  (messages.filter (·.ty = 11)).getLast?

theorem lastCertificate_cons (m : HandshakeMessage) (messages : List HandshakeMessage) :
    lastCertificate (m :: messages) =
      if m.ty = 11 then some ((lastCertificate messages).getD m) else lastCertificate messages := by
  simp only [lastCertificate, List.filter_cons, decide_eq_true_eq]
  split
  · rw [List.getLast?_cons]
  · rfl

/-- A flight from `f` on: the messages `messages`, and the Finished `last`. -/
structure CompleteFlight (agreed : Agreed) (f : Flight) (messages : List HandshakeMessage)
    (last : HandshakeMessage) (f' : Flight) : Prop where
  types : ∀ m ∈ messages, m.ty = 8 ∨ m.ty = 11 ∨ m.ty = 15
  bound : f.flight + (messages.length + 1) ≤ maxFlight
  finished : last.ty = 20
  verified : last.body = (finishedVerify p agreed.suite.hash agreed.secrets.server.bytes
    ((f.transcript.update (messages.flatMap (·.raw))).current p)).bytes
  leaf : ∀ cert, f'.leaf = some cert → lastCertificate messages = none ∧ f.leaf = some cert ∨
    ∃ m, lastCertificate messages = some m ∧ extractLeaf m.body = .ok cert
  transcript : f'.transcript = f.transcript.update (messages.flatMap (·.raw) ++ last.raw)

theorem Transcript.update_update (t : Transcript) (m m' : Bytes) :
    (t.update m).update m' = t.update (m ++ m') := by
  simp only [update, List.append_assoc]

theorem Transcript.update_nil (t : Transcript) : t.update [] = t := by
  simp only [update, List.append_nil]

/-- A message before the rest of a flight. -/
theorem CompleteFlight.cons {agreed : Agreed} {f f₁ f' : Flight} {m last : HandshakeMessage}
    {messages : List HandshakeMessage} (hty : m.ty = 8 ∨ m.ty = 11 ∨ m.ty = 15)
    (hflight : f₁.flight = f.flight + 1) (htranscript : f₁.transcript = f.transcript.update m.raw)
    (hleaf : ∀ cert, f₁.leaf = some cert →
      m.ty ≠ 11 ∧ f.leaf = some cert ∨ m.ty = 11 ∧ extractLeaf m.body = .ok cert)
    (h : CompleteFlight p agreed f₁ messages last f') :
    CompleteFlight p agreed f (m :: messages) last f' where
  types := List.forall_mem_cons.mpr ⟨hty, h.types⟩
  bound := by
    have hbound := h.bound
    rw [List.length_cons]
    omega
  finished := h.finished
  verified := by
    rw [h.verified, htranscript, Transcript.update_update, List.flatMap_cons]
  leaf := by
    intro cert hcert
    rw [lastCertificate_cons]
    rcases h.leaf cert hcert with ⟨hnone, hleaf₁⟩ | ⟨m', hlast, hextract⟩
    · rcases hleaf cert hleaf₁ with ⟨hother, hf⟩ | ⟨hcertificate, hextract⟩
      · rw [if_neg hother]
        exact Or.inl ⟨hnone, hf⟩
      · rw [if_pos hcertificate, hnone]
        exact Or.inr ⟨m, rfl, hextract⟩
    · refine Or.inr ⟨m', ?_, hextract⟩
      rw [hlast]
      split <;> rfl
  transcript := by
    rw [h.transcript, htranscript, Transcript.update_update, List.flatMap_cons, List.append_assoc]

/-- Messages that lead to the Finished are such a flight. -/
theorem Receives.complete {agreed : Agreed} {f f' : Flight} {messages : List HandshakeMessage}
    (h : Receives p agreed f messages f') (hopen : f.finished = false)
    (hdone : f'.finished = true) :
    ∃ before last, messages = before ++ [last] ∧ CompleteFlight p agreed f before last f' := by
  induction h with
  | nil =>
    rw [hopen] at hdone
    cases hdone
  | @cons f f₁ f' m messages _ hbound hreceived hrest ih =>
    cases hreceived with
    | other hty =>
      change m.ty = 8 ∨ m.ty = 15 at hty
      obtain ⟨before, last, rfl, hcomplete⟩ := ih hopen hdone
      refine ⟨m :: before, last, rfl, hcomplete.cons p ?_ rfl rfl ?_⟩
      · rcases hty with hty | hty
        · exact Or.inl hty
        · exact Or.inr (Or.inr hty)
      · intro cert hcert
        refine Or.inl ⟨?_, hcert⟩
        rcases hty with hty | hty <;> rw [hty] <;> decide
    | certificate hty hleaf =>
      obtain ⟨before, last, rfl, hcomplete⟩ := ih hopen hdone
      refine ⟨m :: before, last, rfl, hcomplete.cons p (Or.inr (Or.inl hty)) rfl rfl ?_⟩
      intro cert hcert
      cases hcert
      exact Or.inr ⟨hty, hleaf⟩
    | finished hty hbody =>
      cases hrest with
      | nil =>
        refine ⟨[], m, rfl, ?_, hbound, hty, ?_, ?_, rfl⟩
        · intro m' hm'
          cases hm'
        · rw [List.flatMap_nil, Transcript.update_nil]
          exact hbody
        · exact fun cert hcert => Or.inl ⟨rfl, hcert⟩
      | cons hfalse => cases hfalse

/-- The outcomes of the loop over the flight. -/
inductive FlightRead (agreed : Agreed) (s : Flight × HandshakeState) :
    Except ProxyError Flight × HandshakeState → Prop
| complete {f' : Flight} {messages : List HandshakeMessage} {records : List Record}
    {s' : HandshakeState} :
  Receives p agreed s.1 messages f' ->
  f'.finished = true ->
  HandshakeReader.Reads s.2 records (messages.flatMap (·.raw)) s' ->
  FlightRead agreed s (.ok f', s')
| error {e : ProxyError} {s' : HandshakeState} :
  s'.2.transport.written = s.2.2.transport.written ->
  FlightRead agreed s (.error e, s')

theorem readFlight_spec (agreed : Agreed) (f : Flight) (s : HandshakeState) :
    FlightRead p agreed (f, s) (readFlight p agreed f s) := by
  refine Loop.rule (l := flightLoop p agreed) (P := FlightRead p agreed) ?_ ?_ (f, s)
  · rintro ⟨f, s⟩ s' out h ih
    simp only [flightLoop, flightPass] at h
    split at h
    · cases h
    · next hopen =>
      have hspec := HandshakeReader.nextMessage_spec s
      rcases hnext : HandshakeReader.nextMessage s with ⟨e | msg, s₁⟩ <;> rw [hnext] at hspec <;>
        simp only [hnext] at h
      · cases h
      · split at h
        · cases h
        · next f₁ hreceive =>
          cases h
          cases hspec with
          | message hreads =>
            obtain ⟨hbound, hreceived⟩ := receive_ok p hreceive
            cases ih with
            | complete hreceives hdone hreads' =>
              exact .complete (.cons (Bool.not_eq_true _ ▸ hopen) hbound hreceived hreceives) hdone
                (hreads.trans hreads')
            | error hwritten => exact .error (hwritten.trans hreads.written)
  · rintro ⟨f, s⟩ out h
    simp only [flightLoop, flightPass] at h
    split at h
    · next hdone =>
      cases h
      exact .complete .nil hdone (.refl s)
    · have hspec := HandshakeReader.nextMessage_spec s
      rcases hnext : HandshakeReader.nextMessage s with ⟨e | msg, s₁⟩ <;> rw [hnext] at hspec <;>
        simp only [hnext] at h
      · cases h
        cases hspec with
        | error hwritten => exact .error hwritten
      · split at h
        · cases h
          cases hspec with
          | message hreads => exact .error hreads.written
        · cases h

end Reality

/-! ## What the server has to send -/

namespace Reality

/-- The messages of a server, and what its ServerHello was read as. -/
structure ServerMessages where
  serverHello : HandshakeMessage
  parsed : ServerHello
  flight : List HandshakeMessage
  finished : HandshakeMessage

variable (p : TlsPrimitives)

namespace ServerMessages

/-- What both sides agree on. -/
def agreed (m : ServerMessages) (hello : ClientHello) : Agreed :=
  .of p hello m.serverHello.raw m.parsed

/-- The hash of all messages up to the server's Finished. -/
def after (m : ServerMessages) (hello : ClientHello) : Bytes :=
  (((m.agreed p hello).transcript.update
    (m.flight.flatMap (·.raw) ++ m.finished.raw)).current p)

end ServerMessages

/-- The messages are in the bytes that arrive: the ServerHello in the clear, then the flight under
the handshake keys, in the records `sealed`.  The last of these may hold bytes `beyond` the
Finished. -/
structure Arrived (hello : ClientHello) (m : ServerMessages) (bytes : Bytes) (sealed : List Record)
    (beyond rest : Bytes) : Prop where
  clear : ∃ clear l, recordFramer.Frames none bytes clear none l ∧
    handshakeBytes clear = m.serverHello.raw ∧ RealityTlsStream.applicationData clear = [] ∧
    ∃ read, recordFramer.Frames
      (some (RecordProtection.new p (m.agreed p hello).suite
        (m.agreed p hello).secrets.server.bytes)) l sealed read rest
  flight : handshakeBytes sealed = m.flight.flatMap (·.raw) ++ m.finished.raw ++ beyond

/-- What convinces the client. -/
structure Authenticated (offer : Offer) (m : ServerMessages) : Prop where
  serverHello : m.serverHello.ty = 2 ∧ ∃ (fields : ServerHelloFields) (behind : Bytes),
    m.serverHello.body = fields.encode ++ behind ∧ fields.Fits ∧
      fields.Selects (sessionIdOf offer.hello.handshake) m.parsed
  types : ∀ message ∈ m.flight, message.ty = 8 ∨ message.ty = 11 ∨ message.ty = 15
  bound : m.flight.length + 1 ≤ maxFlight
  finished : m.finished.ty = 20
  verified :
    let agreed := m.agreed p offer.hello
    m.finished.body = (finishedVerify p agreed.suite.hash agreed.secrets.server.bytes
      (p.digest agreed.suite.hash (offer.hello.handshake ++ m.serverHello.raw ++
        m.flight.flatMap (·.raw))).bytes).bytes
  certificate : ∃ message leaf pk sig, lastCertificate m.flight = some message ∧
    FirstEntry message.body leaf ∧ Ed25519Certificate .lax leaf pk sig ∧ pk.length = 32 ∧
    sig.length = 64 ∧ sig = (p.hmacSha512 offer.authKey.bytes pk).bytes

theorem assertReality_ok {cert authKey : Bytes} {sni : String} {u : PUnit}
    (h : assertReality p cert authKey sni = .ok u) :
    ∃ pk sig, Ed25519Certificate .lax cert pk sig ∧ pk.length = 32 ∧ sig.length = 64 ∧
      sig = (p.hmacSha512 authKey pk).bytes := by
  simp only [assertReality] at h
  split at h
  · cases h
  · next pk sig hread =>
    split at h
    · next hverify =>
      obtain ⟨hcertificate, hlen⟩ := readEd25519Cert_sound hread
      simp only [verifyCertificate, Bool.and_eq_true, decide_eq_true_eq, beq_iff_eq] at hverify
      exact ⟨pk, sig, hcertificate, hlen, hverify.1, hverify.2.symm⟩
    · cases h

end Reality

namespace Handshake

variable (p : TlsPrimitives)

open HandshakeReader (Reads)

/-- Nothing is written. -/
def Silent {α : Type} (x : Session HandshakeState ProxyError α) : Prop :=
  ∀ w, Session.Keeps (fun s => s.2.transport.written = w) x

theorem silent_nextMessage : Silent HandshakeReader.nextMessage := by
  intro w s hs
  have hspec := HandshakeReader.nextMessage_spec s
  rcases hnext : HandshakeReader.nextMessage s with ⟨e | m, s'⟩ <;> rw [hnext] at hspec
  · cases hspec with
    | error hwritten => exact hwritten.trans hs
  · cases hspec with
    | message hreads => exact hreads.written.trans hs

theorem silent_readFlight (agreed : Agreed) (f : Flight) : Silent (readFlight p agreed f) := by
  intro w s hs
  have hspec := readFlight_spec p agreed f s
  rcases hread : readFlight p agreed f s with ⟨e | f', s'⟩ <;> rw [hread] at hspec
  · cases hspec with
    | error hwritten => exact hwritten.trans hs
  · cases hspec with
    | complete _ _ hreads => exact hreads.written.trans hs

theorem silent_agree (hello : ClientHello) : Silent (agree p hello) := by
  intro w
  refine (silent_nextMessage w).bind fun serverHello => ?_
  refine (Session.Keeps.failIf _ _).bind fun _ => ?_
  refine (Session.Keeps.ofExcept _).bind fun parsed => ?_
  refine Session.Keeps.bind (x := failIfBuffered) (fun _ hs => hs) fun _ => ?_
  exact Session.Keeps.bind (x := setRead _) (fun _ hs => hs) fun _ => .pure _

theorem silent_verify (agreed : Agreed) (authKey : Octets authKeySize) (serverName : String) :
    Silent (verify p agreed authKey serverName) := by
  intro w
  refine (silent_readFlight p agreed _ w).bind fun f => ?_
  refine (Session.Keeps.ofExcept _).bind fun cert => ?_
  exact (Session.Keeps.ofExcept _).bind fun _ => .pure _

theorem failIfBuffered_ok {s s' : HandshakeState} {u : PUnit}
    (h : failIfBuffered s = (.ok u, s')) : s.1.buf = [] ∧ s' = s := by
  simp only [failIfBuffered] at h
  split at h
  · cases h
  · next hbuf =>
    cases h
    rw [HandshakeReader.hasBuffered, Bool.not_eq_true, Bool.not_eq_false', List.isEmpty_iff] at hbuf
    exact ⟨hbuf, rfl⟩

/-- The ServerHello is all that was read of handshake messages. -/
theorem agree_ok {hello : ClientHello} {s s' : HandshakeState} {agreed : Agreed}
    (h : agree p hello s = (.ok agreed, s')) :
    ∃ (m : HandshakeMessage) (parsed : ServerHello) (records : List Record) (s₁ : HandshakeState),
      m.ty = 2 ∧ parseServerHello m.raw hello.handshake = .ok parsed ∧
      agreed = Agreed.of p hello m.raw parsed ∧ Reads s records m.raw s₁ ∧ s₁.1.buf = [] ∧
      s' = (s₁.1, { s₁.2 with
        read := some (RecordProtection.new p agreed.suite agreed.secrets.server.bytes) }) := by
  simp only [agree, setRead, Session.bind_ok, Session.failIf_ok, Session.ofExcept_ok,
    Session.update_ok, Session.pure_ok] at h
  obtain ⟨msg, s₁, hnext, _, _, ⟨hty, rfl⟩, parsed, _, ⟨hparsed, rfl⟩, _, _, hbuffered, _, _, rfl,
    rfl, rfl⟩ := h
  obtain ⟨hbuf, rfl⟩ := failIfBuffered_ok hbuffered
  have hspec := HandshakeReader.nextMessage_spec s
  rw [hnext] at hspec
  cases hspec with
  | message hreads => exact ⟨_, parsed, _, _, not_not.mp hty, hparsed, rfl, hreads, hbuf, rfl⟩

/-- The flight was read up to its Finished, and its certificate is one of REALITY. -/
theorem verify_ok {agreed : Agreed} {authKey : Octets authKeySize} {serverName : String}
    {s s' : HandshakeState} {transcript : Transcript}
    (h : verify p agreed authKey serverName s = (.ok transcript, s')) :
    ∃ f messages last records cert pk sig,
      CompleteFlight p agreed (.new agreed.transcript) messages last f ∧
      Reads s records ((messages ++ [last]).flatMap (·.raw)) s' ∧
      f.leaf = some cert ∧ Ed25519Certificate .lax cert pk sig ∧ pk.length = 32 ∧
      sig.length = 64 ∧ sig = (p.hmacSha512 authKey.bytes pk).bytes ∧
      transcript = f.transcript := by
  simp only [verify, Session.bind_ok, Session.ofExcept_ok, Session.pure_ok] at h
  obtain ⟨f, s₁, hread, cert, _, ⟨hleaf, rfl⟩, _, _, ⟨hassert, rfl⟩, rfl, rfl⟩ := h
  have hspec := readFlight_spec p agreed (.new agreed.transcript) s
  rw [hread] at hspec
  cases hspec with
  | complete hreceives hdone hreads =>
    obtain ⟨before, last, rfl, hcomplete⟩ := hreceives.complete p rfl hdone
    obtain ⟨pk, sig, hcert, hpk, hsig, hmac⟩ := assertReality_ok p hassert
    refine ⟨f, before, last, _, cert, pk, sig, hcomplete, hreads, ?_, hcert, hpk, hsig, hmac, rfl⟩
    cases hf : f.leaf with
    | none =>
      rw [hf] at hleaf
      cases hleaf
    | some leaf =>
      rw [hf] at hleaf
      cases hleaf
      rfl

/-- What is written does not touch what is read. -/
theorem writeRecord_ok {ty : ContentType} {payload : Bytes} {s s' : HandshakeState} {u : PUnit}
    (h : onRecords (TlsRecordStream.writeRecord ty payload) s = (.ok u, s')) :
    s'.1 = s.1 ∧ s'.2.total = s.2.total ∧ s'.2.read = s.2.read := by
  have hsent := TlsRecordStream.writeRecord_spec ty payload s.2
  simp only [onRecords] at h
  rcases hwrite : TlsRecordStream.writeRecord ty payload s.2 with ⟨r, records⟩
  rw [hwrite] at h hsent
  cases h
  exact ⟨rfl, hsent.total, hsent.read⟩

/-- The secret of the server for its application data. -/
def serverTraffic (agreed : Agreed) (after : Bytes) : RecordProtection :=
  RecordProtection.new p agreed.suite
    (deriveSecret p agreed.suite.hash agreed.secrets.master.bytes "s ap traffic" after).bytes

theorem finish_ok {agreed : Agreed} {after : Bytes} {s s' : HandshakeState}
    {stream : RealityTlsStream Transport} (h : finish p agreed after s = (.ok stream, s')) :
    stream = .new s'.2 s'.1.leftover ∧ s'.1 = s.1 ∧ s'.2.total = s.2.total ∧
      s'.2.read = some (serverTraffic p agreed after) := by
  simp only [finish, setRead, setWrite, Session.bind_ok, Session.update_ok] at h
  obtain ⟨_, s₁, hccs, _, _, rfl, _, s₂, hfin, _, _, rfl, _, _, rfl, rfl⟩ := h
  obtain ⟨hreader₁, htotal₁, -⟩ := writeRecord_ok hccs
  obtain ⟨hreader₂, htotal₂, -⟩ := writeRecord_ok hfin
  exact ⟨rfl, hreader₂.trans hreader₁, htotal₂.trans htotal₁, rfl⟩

end Handshake

namespace Handshake

/-! ## Whom the client trusts -/

section

variable {p : TlsPrimitives}

/-- A handshake that came this far has read the messages of an authenticated server. -/
theorem authenticated {o : Offer} {s s₁ s₂ : HandshakeState} {agreed : Agreed}
    {serverName : String} {transcript : Transcript} (hfresh : s.1 = .new) (hread : s.2.read = none)
    (hagree : agree p o.hello s = (.ok agreed, s₁))
    (hverify : verify p agreed o.authKey serverName s₁ = (.ok transcript, s₂)) :
    ∃ m sealed, agreed = m.agreed p o.hello ∧ transcript.current p = m.after p o.hello ∧
      Arrived p o.hello m s.2.total sealed s₂.1.buf s₂.2.total ∧ Authenticated p o m ∧
      s₂.1.leftover = RealityTlsStream.applicationData sealed := by
  obtain ⟨serverHello, parsed, clear, st, hty, hparsed, rfl, hreads, hbuf, rfl⟩ := agree_ok p hagree
  obtain ⟨f, messages, last, sealed, cert, pk, sig, hcomplete, hreads', hleaf, hcert, hpk, hsig,
    hmac, rfl⟩ := verify_ok p hverify
  obtain ⟨fields, behind, hencode, hfits, hselects⟩ := parseServerHello_sound hparsed
  have hframes := hreads.frames
  rw [hread] at hframes
  have hnone : st.2.read = none := HandshakeReader.frames_none hframes
  rw [hnone] at hframes
  have hclear : handshakeBytes clear = serverHello.raw := by
    have h := hreads.buf
    rw [hfresh, hbuf, List.append_nil] at h
    exact h
  have hflight : handshakeBytes sealed = messages.flatMap (·.raw) ++ last.raw ++ s₂.1.buf := by
    have h := hreads'.buf
    rw [hbuf, List.flatMap_append, List.flatMap_cons, List.flatMap_nil, List.append_nil] at h
    exact h
  refine ⟨⟨serverHello, parsed, messages, last⟩, sealed, rfl,
    congrArg (Transcript.current p) hcomplete.transcript,
    ⟨⟨clear, st.2.total, hframes, hclear, hreads.early hread, _, hreads'.frames⟩, hflight⟩, ?_, ?_⟩
  · refine ⟨⟨hty, fields, behind, hencode, hfits, hselects⟩, hcomplete.types, ?_,
      hcomplete.finished, hcomplete.verified, ?_⟩
    · exact Nat.le_trans (Nat.le_add_left _ _) hcomplete.bound
    · rcases hcomplete.leaf cert hleaf with ⟨-, hnone⟩ | ⟨message, hlast, hextract⟩
      · cases hnone
      · exact ⟨message, cert, pk, sig, hlast, extractLeaf_sound hextract, hcert, hpk, hsig, hmac⟩
  · have h : s₂.1.leftover = st.1.leftover ++ _ := hreads'.leftover
    rw [h, hreads.leftover, hreads.early hread, hfresh]
    rfl

end

variable (p : TlsPrimitives) (draws : HandshakeDraws) (serverName pbk : String)
  (shortId : Option String) (alpn : List String)

/-- The record of the ClientHello. -/
def helloRecord (hello : ClientHello) : Bytes :=
  ((TlsRecordStream.new ()).stage .handshake hello.handshake).1

/-- A ClientHello that is offered carries the session id that was sealed for it. -/
theorem offer_ok {o : Offer} (h : offer p draws serverName pbk shortId alpn = .ok o) :
    ∃ sid, parseShortId shortId = .ok sid ∧
      sessionIdOf o.hello.handshake =
        sealedSessionId p (build p serverName alpn draws.privateKey draws.random).handshake
          o.authKey sid draws.now Dial.clientVersion ∧
      (sessionIdOf o.hello.handshake).length = sessionIdSize := by
  simp only [offer] at h
  obtain ⟨pub, -, h⟩ := Checked.bind_eq_ok.mp h
  obtain ⟨authKey, -, h⟩ := Checked.bind_eq_ok.mp h
  obtain ⟨sid, hsid, h⟩ := Checked.bind_eq_ok.mp h
  obtain ⟨handshake, hseal, h⟩ := Checked.bind_eq_ok.mp h
  cases h
  obtain ⟨hsealed, hlen, -⟩ := sealSessionId_ok p hseal
  exact ⟨sid, hsid, hsealed, hlen⟩

/-- The handshake failed, and nothing was sent behind the ClientHello. -/
structure Refused (offered : Except ProxyError Offer) (t : Transport)
    (out : Except ProxyError (RealityTlsStream Transport) × HandshakeState) : Prop where
  error : ∃ e, out.1 = .error e
  sent : ∃ sent, out.2.2.transport.written = t.written ++ sent ∧
    (sent = [] ∨ ∃ o, offered = .ok o ∧ sent <+: helloRecord o.hello)

/-- Either the server is authenticated by what it sent, or the handshake fails and nothing is sent
behind the ClientHello. -/
theorem handshake_authenticates (t : Transport) :
    (∃ o m sealed beyond rest, offer p draws serverName pbk shortId alpn = .ok o ∧
      (sessionIdOf o.hello.handshake).length = sessionIdSize ∧
      Arrived p o.hello m (unread t.reads) sealed beyond rest ∧ Authenticated p o m) ∨
    Refused (offer p draws serverName pbk shortId alpn) t
      (handshake p draws serverName pbk shortId alpn (.start t)) := by
  generalize hrun : handshake p draws serverName pbk shortId alpn (.start t) = out
  cases hoffer : offer p draws serverName pbk shortId alpn with
  | error e =>
    have hfailed : Session.ofExcept (offer p draws serverName pbk shortId alpn) (.start t) =
        (.error e, HandshakeState.start t) := by
      rw [hoffer]
      rfl
    rw [← hrun, handshake, Session.bind_error hfailed]
    exact Or.inr ⟨⟨e, rfl⟩, [], (List.append_nil _).symm, Or.inl rfl⟩
  | ok o =>
    have hsent := TlsRecordStream.writeRecord_spec .handshake o.hello.handshake (.new t)
    obtain ⟨sent, hprefix, hwritten, -⟩ := hsent.written
    change _ = t.written ++ sent at hwritten
    have hoffered : Session.ofExcept (offer p draws serverName pbk shortId alpn) (.start t) =
        (.ok o, HandshakeState.start t) := by
      rw [hoffer]
      rfl
    -- a handshake that fails on its way has sent no more than this
    have hfails : ∀ {e : ProxyError} {s : HandshakeState},
        handshake p draws serverName pbk shortId alpn (.start t) = (.error e, s) →
        s.2.transport.written = t.written ++ sent → Refused (.ok o) t out := by
      intro e s hout hw
      rw [← hrun, hout]
      exact ⟨⟨e, rfl⟩, sent, hw, Or.inr ⟨o, rfl, hprefix⟩⟩
    rcases hwrite : onRecords (TlsRecordStream.writeRecord .handshake o.hello.handshake) (.start t)
      with ⟨e | u, s⟩
    · refine Or.inr (hfails (Session.bind_eq hoffered (Session.bind_error hwrite)) ?_)
      rw [← hwritten]
      exact congrArg (·.2.2.transport.written) hwrite.symm
    · have hw : s.2.transport.written = t.written ++ sent := by
        rw [← hwritten]
        exact congrArg (·.2.2.transport.written) hwrite.symm
      obtain ⟨hreader, htotal, hread⟩ := writeRecord_ok hwrite
      rcases hagree : agree p o.hello s with ⟨e | agreed, s₁⟩
      · have hsilent := silent_agree p o.hello _ s hw
        rw [hagree] at hsilent
        exact Or.inr (hfails (Session.bind_eq hoffered (Session.bind_eq hwrite
          (Session.bind_error hagree))) hsilent)
      · have hsilent := silent_agree p o.hello _ s hw
        rw [hagree] at hsilent
        rcases hverify : verify p agreed o.authKey serverName s₁ with ⟨e | transcript, s₂⟩
        · have hsilent' := silent_verify p agreed o.authKey serverName _ s₁ hsilent
          rw [hverify] at hsilent'
          exact Or.inr (hfails (Session.bind_eq hoffered (Session.bind_eq hwrite
            (Session.bind_eq hagree (Session.bind_error hverify)))) hsilent')
        · obtain ⟨m, sealed, -, -, harrived, hauthenticated, -⟩ :=
            authenticated hreader hread hagree hverify
          rw [htotal] at harrived
          obtain ⟨_, -, -, hsize⟩ := offer_ok p draws serverName pbk shortId alpn hoffer
          exact Or.inl ⟨o, m, sealed, _, _, rfl, hsize, harrived, hauthenticated⟩

/-! ## What the change of keys leaves behind -/

open RealityTlsStream (Fills applicationData)

/-- The keys for application data protect all that the stream delivers, and no handshake bytes
behind the Finished were dropped. -/
structure KeysKept (s : HandshakeState) (stream : RealityTlsStream Transport) : Prop where
  dropped : s.1.buf = []
  delivered : ∀ data e, Delivers pollRead stream data e →
    Delivers pollRead (RealityTlsStream.new s.2 []) data e

/-- A new stream delivers what was left over, and then what its records carry. -/
theorem new_delivers {records : TlsRecordStream Transport} {received : List Record}
    {rest : Bytes} {e : End IoError} (leftover : Bytes)
    (h : Fills rest (RealityTlsStream.new records []) received e) :
    Delivers pollRead (RealityTlsStream.new records leftover)
      (leftover ++ applicationData received) e :=
  have hfills : Fills rest (RealityTlsStream.new records leftover) received e :=
    ⟨h.opened, h.quiet, h.frames⟩
  hfills.delivers

/-- What came with the flight is delivered before all else, whatever keys it came under.  Only a
server that sends nothing but the flight keeps the keys apart. -/
theorem handshake_epochs {t : Transport} {stream : RealityTlsStream Transport} {s : HandshakeState}
    (h : handshake p draws serverName pbk shortId alpn (.start t) = (.ok stream, s)) :
    ∃ o m sealed beyond rest received end' e,
      offer p draws serverName pbk shortId alpn = .ok o ∧
      Arrived p o.hello m (unread t.reads) sealed beyond rest ∧ Authenticated p o m ∧
      s.2.read = some (serverTraffic p (m.agreed p o.hello) (m.after p o.hello)) ∧
      s.2.total = rest ∧ Fills end' (RealityTlsStream.new s.2 []) received e ∧
      Delivers pollRead stream (applicationData sealed ++ applicationData received) e ∧
      (KeysKept s stream ↔ applicationData sealed = [] ∧ beyond = []) := by
  simp only [handshake, Session.bind_ok, Session.ofExcept_ok] at h
  obtain ⟨o, _, ⟨hoffer, rfl⟩, _, s₀, hwrite, agreed, s₁, hagree, transcript, s₂, hverify,
    hfinish⟩ := h
  obtain ⟨hreader, htotal, hread⟩ := writeRecord_ok hwrite
  obtain ⟨m, sealed, rfl, hafter, harrived, hauthenticated, hleftover⟩ :=
    authenticated hreader hread hagree hverify
  obtain ⟨rfl, hreader', htotal', hread'⟩ := finish_ok p hfinish
  rw [htotal] at harrived
  have hopen : (RealityTlsStream.new s.2 []).receivedClose = false := rfl
  obtain ⟨received, e, end', hfills⟩ := RealityTlsStream.exists_fills hopen
  have hdelivers := new_delivers s.1.leftover hfills
  have hfresh : Delivers pollRead (RealityTlsStream.new s.2 []) (applicationData received) e :=
    hfills.delivers
  rw [hafter] at hread'
  rw [hreader', hleftover] at hdelivers
  refine ⟨o, m, sealed, _, _, received, end', e, hoffer, harrived, hauthenticated, hread', htotal',
    hfills, ?_, fun hkept => ⟨?_, ?_⟩, fun hnil => ⟨?_, ?_⟩⟩
  · rw [hreader', hleftover]
    exact hdelivers
  · have hsame := (hkept.delivered _ e (by rw [hreader', hleftover]; exact hdelivers)).unique hfresh
    exact List.append_left_eq_self.mp hsame.1
  · rw [← hreader']
    exact hkept.dropped
  · rw [hreader']
    exact hnil.2
  · intro data e' hdata
    rw [hreader', hleftover, hnil.1] at hdata
    exact hdata

end Handshake

/-! ### A server that mixes keys -/

/-- Primitives to evaluate with, whose exchange commutes. -/
def TlsPrimitives.exchange : TlsPrimitives :=
  { TlsPrimitives.sums with
    x25519 := fun secret point =>
      ⟨List.zipWith UInt8.add secret.bytes point.bytes, by simp [secret.size, point.size]⟩ }

namespace Sample

def zeros : Octets 32 := DialDraws.zeros.random

def draws : HandshakeDraws := ⟨⟨List.replicate 32 5, rfl⟩, zeros, 0⟩

/-- The public key of a server whose private one is zero. -/
def pbk : String := String.ofList (List.replicate 43 'A')

def offered : Offer :=
  ((offer .exchange draws "" pbk none []).toOption).getD ⟨⟨[], zeros⟩, zeros⟩

def serverHello : HandshakeMessage :=
  ⟨2, [3, 3] ++ List.replicate 32 0 ++ [32] ++ sessionIdOf offered.hello.handshake ++
    [0x13, 0x01, 0, 0, 46, 0, 43, 0, 2, 3, 4, 0, 51, 0, 36, 0, 29, 0, 32] ++ List.replicate 32 0, by
      simp only [List.length_append, List.length_cons, List.length_nil, List.length_replicate,
        sessionIdOf, List.length_take, sessionIdSize]
      omega⟩

def parsed : ServerHello := ⟨⟨.sha256, 16, false⟩, zeros⟩

def leaf : Bytes :=
  [0x30, 0x81, 0x7D, 0x30, 54, 5, 0, 5, 0, 5, 0, 5, 0, 5, 0, 0x30, 42, 0x30, 5, 6, 3, 0x2B, 0x65,
    0x70, 3, 33, 0] ++ List.replicate 32 0 ++ [5, 0, 3, 65, 0] ++
    (TlsPrimitives.exchange.hmacSha512 offered.authKey.bytes (List.replicate 32 0)).bytes

def certificate : HandshakeMessage :=
  ⟨11, [0] ++ toBe 3 131 ++ toBe 3 128 ++ leaf, by
    simp only [leaf, List.length_append, List.length_cons, List.length_nil, List.length_replicate,
      length_toBe, Octets.size]
    omega⟩

def agreed : Agreed := .of .exchange offered.hello serverHello.raw parsed

def finished : HandshakeMessage :=
  ⟨20, (finishedVerify .exchange agreed.suite.hash agreed.secrets.server.bytes
    ((agreed.transcript.update certificate.raw).current .exchange)).bytes, by
      rw [Octets.size]
      cases agreed.suite.hash <;> decide⟩

def clear : Bytes := [22, 3, 3] ++ toBe16 serverHello.raw.length ++ serverHello.raw

def keys : RecordProtection :=
  RecordProtection.new .exchange agreed.suite agreed.secrets.server.bytes

/-- The records under one key after the other. -/
def sealAll : RecordProtection → List Record → Bytes
  | _, [] => []
  | k, r :: records => (k.seal r.ty r.payload 0).1 ++ sealAll (k.seal r.ty r.payload 0).2 records

/-- Application data comes under the handshake keys, and bytes behind the Finished. -/
def mixed : Bytes :=
  clear ++ sealAll keys [⟨.handshake, certificate.raw⟩, ⟨.applicationData, [1, 2]⟩,
    ⟨.handshake, finished.raw ++ [3]⟩]

def mixedRun : Except ProxyError (RealityTlsStream Transport) × HandshakeState :=
  handshake .exchange draws "" pbk none [] (.start (.serving (arrive mixed []) .eof))

theorem mixedRun_ok : mixedRun.1.toOption.isSome = true ∧ mixedRun.2.1.buf = [3] := by
  decide +kernel

end Sample

/-- The client delivers the one, and drops the other. -/
theorem Handshake.handshake_epochs_mixed :
    ∃ (stream : RealityTlsStream Transport) (s : HandshakeState) (o : Offer) (m : ServerMessages)
      (sealed : List Record) (beyond rest : Bytes), Sample.mixedRun = (.ok stream, s) ∧
      ¬ KeysKept s stream ∧ Arrived .exchange o.hello m Sample.mixed sealed beyond rest ∧
      ¬ (RealityTlsStream.applicationData sealed = [] ∧ beyond = []) := by
  obtain ⟨hok, hbuf⟩ := Sample.mixedRun_ok
  rcases hrun : Sample.mixedRun with ⟨e | stream, s⟩
  · rw [hrun] at hok
    cases hok
  · rw [hrun] at hbuf
    have hmixed : ¬ KeysKept s stream := by
      intro hkept
      cases hbuf.symm.trans hkept.dropped
    obtain ⟨o, m, sealed, beyond, rest, received, end', e, -, harrived, -, -, -, -, -, hiff⟩ :=
      handshake_epochs .exchange Sample.draws "" Sample.pbk none [] hrun
    have hbytes : unread (Transport.serving (arrive Sample.mixed []) .eof).reads =
        Sample.mixed := by
      show unread (arrive Sample.mixed []) = _
      rw [unread_arrive]
      exact List.append_nil _
    rw [hbytes] at harrived
    exact ⟨stream, s, o, m, sealed, beyond, rest, rfl, hmixed, harrived,
      fun h => hmixed (hiff.mpr h)⟩

end RustClash
