import RustClash.Proxynet.RecordRoundTrip

/-!
# Handshake messages

A `HandshakeReader` collects the payloads of handshake records and takes messages off
them.  A message may come in several records and a record may hold several messages, and
ChangeCipherSpec records come between them.  However the records are cut and however they
arrive, the messages are those that were sent.
-/

namespace RustClash

open Reality

structure HsMsg where
  ty : UInt8
  raw : Bytes
  body : Bytes

structure HandshakeReader where
  buf : Bytes
  leftover : Bytes

/-- The reader with the record stream under it, which the handshake also writes to. -/
abbrev HandshakeState : Type := HandshakeReader × TlsRecordStream Transport

namespace HandshakeReader

def new : HandshakeReader := ⟨[], []⟩

def hasBuffered (hs : HandshakeReader) : Bool := !hs.buf.isEmpty

def tryTake (hs : HandshakeReader) : Option (HsMsg × HandshakeReader) :=
  if hs.buf.length < 4 then none
  else
    let bodyLen := ofBe [hs.buf.getD 1 0, hs.buf.getD 2 0, hs.buf.getD 3 0]
    if hs.buf.length < 4 + bodyLen then none
    else
      let raw := hs.buf.take (4 + bodyLen)
      some (⟨raw.getD 0 0, raw, raw.drop 4⟩, { hs with buf := hs.buf.drop (4 + bodyLen) })

def closedMidHandshake : ProxyError :=
  ⟨.connectionFailed, "The server closed the connection in the middle of the TLS handshake. For a REALITY server that usually means it did not accept the client: check pbk, sid and sni, and that this machine's clock is roughly right."⟩

/-- The error of a read of the record layer, as the handshake reports it. -/
def ofRecordError (e : ProxyError) : ProxyError :=
  if e.code = .connectionFailed then closedMidHandshake else e

def alertMessage (payload : Bytes) : String :=
  if 2 ≤ payload.length then
    let level := if payload.getD 0 0 = 2 then "fatal" else "warning"
    let description := payload.getD 1 0
    s!"The server sent a {level} TLS alert, description {description}."
  else "The server sent a malformed alert."

/-- What a record does to the reader; `keys` says whether the read keys are there. -/
def absorb (hs : HandshakeReader) (keys : Bool) (r : Record) : Except ProxyError HandshakeReader :=
  match r.ty with
  | .changeCipherSpec => .ok hs
  | .alert => .error (hsErr (alertMessage r.payload))
  | .applicationData =>
      if keys then .ok { hs with leftover := hs.leftover ++ r.payload }
      else .error (hsErr "The peer sent application data before its keys were established.")
  | .handshake =>
      if r.payload.isEmpty then
        .error (hsErr "The peer sent a zero-length handshake record, which TLS 1.3 forbids.")
      else .ok { hs with buf := hs.buf ++ r.payload }

/-- The reader with the record layer under it. -/
abbrev Source : Type := HandshakeReader × BufferedRecords × Transport

/-- One pass of `next`. -/
def nextPass (s : Source) : Source ⊕ (Except ProxyError HsMsg × Source) :=
  let (hs, records) := s
  match hs.tryTake with
  | some (m, hs) => .inr (.ok m, hs, records)
  | none =>
      match BufferedRecords.readRecord records with
      | (.error e, records) => .inr (.error (ofRecordError e), hs, records)
      | (.ok r, records) =>
          match hs.absorb records.1.read.isSome r with
          | .error e => .inr (.error e, hs, records)
          | .ok hs => .inl (hs, records)

def nextLoop : Loop Source (Except ProxyError HsMsg × Source) where
  body := nextPass
  measure s := (BufferedRecords.total s.2).length
  decreases := by
    rintro ⟨hs, records⟩ s' h
    simp only [nextPass] at h
    split at h
    · cases h
    · split at h
      · cases h
      · next r records' hread =>
        split at h
        · cases h
        · cases h
          exact BufferedRecords.readRecord_taken hread

def next : Session Source ProxyError HsMsg := nextLoop.run

/-- One pass of `next`, over the bytes at hand. -/
def messagePass (s : HandshakeState) :
    HandshakeState ⊕ (Except ProxyError HsMsg × HandshakeState) :=
  let (hs, records) := s
  match hs.tryTake with
  | some (m, hs) => .inr (.ok m, hs, records)
  | none =>
      match TlsRecordStream.readRecord records with
      | (.error e, records) => .inr (.error (ofRecordError e), hs, records)
      | (.ok r, records) =>
          match hs.absorb records.read.isSome r with
          | .error e => .inr (.error e, hs, records)
          | .ok hs => .inl (hs, records)

def messageLoop : Loop HandshakeState (Except ProxyError HsMsg × HandshakeState) where
  body := messagePass
  measure s := s.2.total.length
  decreases := by
    rintro ⟨hs, st⟩ s' h
    have hspec := st.readRecord_spec
    simp only [messagePass] at h
    split at h
    · cases h
    · rcases hread : TlsRecordStream.readRecord st with ⟨e | r, st'⟩ <;> rw [hread] at hspec <;>
        simp only [hread] at h
      · cases h
      · cases hspec with
        | record hcut =>
          split at h <;> cases h
          exact cutRecord_shorter hcut

def nextMessage : Session HandshakeState ProxyError HsMsg := messageLoop.run

/-- A state over the allocation of the record stream, and the one over the bytes at hand. -/
structure Stream (s : Source) (s' : HandshakeState) : Prop where
  reader : s'.1 = s.1
  records : BufferedRecords.Refines s.2 s'.2

/-- The messages are those of `next`. -/
theorem next_nextMessage {s : Source} {s' : HandshakeState} (h : Stream s s') :
    (nextMessage s').1 = (next s).1 ∧ Stream (next s).2 (nextMessage s').2 := by
  refine Loop.run_sim (l := nextLoop) (m := messageLoop) (R := Stream)
    (Q := fun out out' => out'.1 = out.1 ∧ Stream out.2 out'.2) ?_ h
  rintro ⟨_, st⟩ ⟨hs, records⟩ ⟨rfl, hrecords⟩
  change BufferedRecords.Refines st records at hrecords
  obtain ⟨hanswer, hrefines⟩ := BufferedRecords.readRecord_refines hrecords
  simp only [nextLoop, messageLoop, nextPass, messagePass]
  rcases hs.tryTake with _ | ⟨m, hs'⟩
  · rcases hread : BufferedRecords.readRecord st with ⟨r, st', t'⟩
    rcases hread' : TlsRecordStream.readRecord records with ⟨r', records'⟩
    rw [hread, hread'] at hanswer hrefines
    obtain rfl : r' = r := hanswer
    have hkeys : records'.read = st'.read := congrArg TlsRecordStream.read hrefines.abs
    rcases r' with e | r
    · exact .inr ⟨rfl, rfl, hrefines⟩
    · simp only [hkeys]
      rcases hs.absorb st'.read.isSome r with e | hs'
      · exact .inr ⟨rfl, rfl, hrefines⟩
      · exact .inl ⟨rfl, hrefines⟩
  · exact .inr ⟨rfl, rfl, hrecords⟩

/-- `k` messages. -/
def nextMessages : Nat → Session Source ProxyError (List HsMsg)
  | 0 => pure []
  | k + 1 => do
      let m ← next
      let ms ← nextMessages k
      pure (m :: ms)

end HandshakeReader

/-! ## What is sent -/

/-- A message with a length that its header can state. -/
structure HandshakeMessage where
  ty : UInt8
  body : Bytes
  bound : body.length < 2 ^ 24

namespace HandshakeMessage

def raw (m : HandshakeMessage) : Bytes := m.ty :: toBe 3 m.body.length ++ m.body

/-- The message as it is to be returned. -/
def msg (m : HandshakeMessage) : HsMsg := ⟨m.ty, m.raw, m.body⟩

end HandshakeMessage

/-- The records on the wire, in the clear or under traffic keys. -/
inductive OnWire : Option RecordProtection → List Record → Bytes → Option RecordProtection → Prop
| nil {read : Option RecordProtection} : OnWire read [] [] read
| clear {read' : Option RecordProtection} {ty : ContentType} {payload bytes : Bytes}
    {records : List Record} (major minor : UInt8) :
  payload.length ≤ maxPlaintext ->
  OnWire none records bytes read' ->
  OnWire none (⟨ty, payload⟩ :: records)
    ([ty.toU8, major, minor] ++ toBe16 payload.length ++ payload ++ bytes) read'
| sealed {read' : Option RecordProtection} {p : RecordProtection} {ty : ContentType}
    {payload bytes : Bytes} {records : List Record} (pad : Nat) :
  payload.length + pad ≤ maxPlaintext ->
  OnWire (some (p.seal ty payload pad).2) records bytes read' ->
  OnWire (some p) (⟨ty, payload⟩ :: records) ((p.seal ty payload pad).1 ++ bytes) read'
| changeCipherSpec {read' : Option RecordProtection} {p : RecordProtection}
    {payload bytes : Bytes} {records : List Record} (major minor : UInt8) :
  payload.length ≤ maxPlaintext ->
  OnWire (some p) records bytes read' ->
  OnWire (some p) (⟨.changeCipherSpec, payload⟩ :: records)
    (ccsRecord major minor payload ++ bytes) read'

/-- The AEAD under the keys, if there are any, opens what it sealed. -/
def KeysLawful (read : Option RecordProtection) : Prop := ∀ p ∈ read, p.aead.Lawful tagLen

namespace OnWire

variable {read read' : Option RecordProtection} {records : List Record} {bytes : Bytes}

theorem frames (h : OnWire read records bytes read') (hread : KeysLawful read) (more : Bytes) :
    recordFramer.Frames read (bytes ++ more) records read' more := by
  induction h with
  | nil => exact .nil
  | clear major minor hlen _ ih =>
    rw [List.append_assoc]
    refine .cons ?_ (ih hread)
    exact cutRecord_wire _ (ContentType.fromU8_toU8 _) (Nat.le_trans hlen (by decide))
  | @sealed _ p _ _ _ _ pad hlen _ ih =>
    rw [List.append_assoc]
    refine .cons (cut_seal (hread p rfl) _ hlen _) (ih fun p' hp' => ?_)
    cases hp'
    exact hread p rfl
  | changeCipherSpec major minor hlen _ ih =>
    rw [List.append_assoc]
    exact .cons (cut_ccs _ major minor (Nat.le_trans hlen (by decide)) _) (ih hread)

/-- The first records and those behind them. -/
theorem split (h : OnWire read records bytes read') : ∀ n : Nat, ∃ first rest read₁,
    bytes = first ++ rest ∧ OnWire read (records.take n) first read₁ ∧
      OnWire read₁ (records.drop n) rest read' := by
  induction h with
  | nil =>
    intro n
    rw [List.take_nil, List.drop_nil]
    exact ⟨[], [], _, rfl, .nil, .nil⟩
  | @clear _ ty payload bytes records major minor hlen htail ih =>
    rintro (_ | n)
    · exact ⟨[], _, _, rfl, .nil, .clear major minor hlen htail⟩
    · obtain ⟨first, rest, read₁, rfl, hfirst, hrest⟩ := ih n
      exact ⟨_, rest, read₁, (List.append_assoc _ _ _).symm, .clear major minor hlen hfirst, hrest⟩
  | @sealed _ p ty payload bytes records pad hlen htail ih =>
    rintro (_ | n)
    · exact ⟨[], _, _, rfl, .nil, .sealed pad hlen htail⟩
    · obtain ⟨first, rest, read₁, rfl, hfirst, hrest⟩ := ih n
      exact ⟨_, rest, read₁, (List.append_assoc _ _ _).symm, .sealed pad hlen hfirst, hrest⟩
  | @changeCipherSpec _ p payload bytes records major minor hlen htail ih =>
    rintro (_ | n)
    · exact ⟨[], _, _, rfl, .nil, .changeCipherSpec major minor hlen htail⟩
    · obtain ⟨first, rest, read₁, rfl, hfirst, hrest⟩ := ih n
      exact ⟨_, rest, read₁, (List.append_assoc _ _ _).symm,
        .changeCipherSpec major minor hlen hfirst, hrest⟩

end OnWire

/-! ## Taking messages -/

/-- The payloads of the handshake records, one after the other. -/
def handshakeBytes (records : List Record) : Bytes :=
  records.flatMap fun r => if r.ty = .handshake then r.payload else []

/-- A record of the handshake that is not empty, or one that is ignored. -/
def Reality.Record.InHandshake (r : Record) : Prop :=
  r.ty = .handshake ∧ r.payload ≠ [] ∨ r.ty = .changeCipherSpec

instance (r : Record) : Decidable r.InHandshake :=
  inferInstanceAs (Decidable (r.ty = .handshake ∧ r.payload ≠ [] ∨ r.ty = .changeCipherSpec))

namespace HandshakeReader

variable {hs : HandshakeReader} {m : HandshakeMessage}

theorem length_raw (m : HandshakeMessage) : m.raw.length = 4 + m.body.length := by
  rw [HandshakeMessage.raw, List.length_append, List.length_cons, length_toBe]

/-- The length of a message is in its first bytes, whatever else is at hand. -/
theorem bodyLen_raw {buf : Bytes} (h : m.raw.take 4 <+: buf) :
    ofBe [buf.getD 1 0, buf.getD 2 0, buf.getD 3 0] = m.body.length := by
  obtain ⟨rest, rfl⟩ := h
  have hlen : (toBe 3 m.body.length).length = 3 := length_toBe _ _
  have hvalue : ofBe (toBe 3 m.body.length) = m.body.length := ofBe_toBe m.bound
  obtain ⟨a, b, c, hbe⟩ := List.length_eq_three.mp hlen
  rw [hbe] at hvalue
  rw [HandshakeMessage.raw, hbe]
  exact hvalue

/-- A message that is there is taken. -/
theorem tryTake_raw {rest : Bytes} (h : hs.buf = m.raw ++ rest) :
    hs.tryTake = some (m.msg, { hs with buf := rest }) := by
  have hlen := length_raw m
  have hhead : m.raw.take 4 <+: hs.buf :=
    h ▸ (List.take_prefix 4 m.raw).trans (List.prefix_append _ _)
  have hbody := bodyLen_raw hhead
  rw [tryTake, hbody, if_neg (by rw [h, List.length_append]; omega),
    if_neg (by rw [h, List.length_append]; omega), h, List.take_left' hlen, List.drop_left' hlen]
  rfl

/-- A message that is not all there is left. -/
theorem tryTake_none {more : Bytes} (h : hs.buf ++ more = m.raw) (hmore : more ≠ []) :
    hs.tryTake = none := by
  have hlen := length_raw m
  have hpos := List.length_pos_iff.mpr hmore
  have htotal : hs.buf.length + more.length = 4 + m.body.length := by
    rw [← hlen, ← h, List.length_append]
  rw [tryTake]
  split
  · rfl
  · next hfour =>
    have hhead : m.raw.take 4 <+: hs.buf := by
      rw [← h, List.take_append_of_le_length (Nat.not_lt.mp hfour)]
      exact List.take_prefix _ _
    rw [bodyLen_raw hhead]
    exact if_pos (by omega)

/-- A record of the handshake is appended, and an ignored one is not. -/
theorem absorb_inHandshake {r : Record} (h : r.InHandshake) (keys : Bool) :
    hs.absorb keys r = .ok { hs with buf := hs.buf ++ handshakeBytes [r] } := by
  rcases h with ⟨hty, hne⟩ | hty
  · have hempty : r.payload.isEmpty = false := by
      rw [Bool.eq_false_iff]
      exact fun he => hne (List.isEmpty_iff.mp he)
    simp only [absorb, hty, hempty, handshakeBytes, List.flatMap_cons, List.flatMap_nil,
      List.append_nil]
    rfl
  · have hnone : handshakeBytes [r] = [] := by
      rw [handshakeBytes, List.flatMap_cons, List.flatMap_nil, List.append_nil, hty]
      rfl
    rw [absorb, hty, hnone, List.append_nil]

theorem handshakeBytes_cons (r : Record) (records : List Record) :
    handshakeBytes (r :: records) = handshakeBytes [r] ++ handshakeBytes records := by
  rw [handshakeBytes, List.flatMap_cons, handshakeBytes, List.flatMap_cons, List.flatMap_nil,
    List.append_nil]
  rfl

theorem handshakeBytes_append (records records' : List Record) :
    handshakeBytes (records ++ records') = handshakeBytes records ++ handshakeBytes records' :=
  List.flatMap_append

/-- Where the reader stands after the first `n` records were read: their payloads are the messages
that were returned and what is in the buffer. -/
structure Stands (s : HandshakeState) (records : List Record) (read : Option RecordProtection)
    (more : Bytes) (returned : Bytes) (n : Nat) (s' : HandshakeState) : Prop where
  bound : n ≤ records.length
  buf : s.1.buf ++ handshakeBytes (records.take n) = returned ++ s'.1.buf
  leftover : s'.1.leftover = s.1.leftover
  taken : recordFramer.Frames s.2.read s.2.total (records.take n) s'.2.read s'.2.total
  frames : recordFramer.Frames s'.2.read s'.2.total (records.drop n) read more

variable {read : Option RecordProtection} {more returned rest : Bytes} {records : List Record}

/-- What is ahead of the reader, where it stands. -/
theorem Stands.bytes {s s' : HandshakeState} {n : Nat}
    (h : Stands s records read more returned n s')
    (hbytes : s.1.buf ++ handshakeBytes records = returned ++ rest) :
    s'.1.buf ++ handshakeBytes (records.drop n) = rest := by
  rw [← List.take_append_drop n records, handshakeBytes_append, ← List.append_assoc, h.buf,
    List.append_assoc] at hbytes
  exact List.append_cancel_left hbytes

theorem Stands.trans {returned' : Bytes} {s s₁ s₂ : HandshakeState} {n n' : Nat}
    (h : Stands s records read more returned n s₁)
    (h' : Stands s₁ (records.drop n) read more returned' n' s₂) :
    Stands s records read more (returned ++ returned') (n + n') s₂ where
  bound := by
    have hbound := h.bound
    have hbound' := h'.bound
    rw [List.length_drop] at hbound'
    omega
  buf := by
    rw [List.take_add, handshakeBytes_append, ← List.append_assoc, h.buf, List.append_assoc,
      h'.buf, List.append_assoc]
  leftover := h'.leftover.trans h.leftover
  taken := by
    rw [List.take_add]
    exact h.taken.append h'.taken
  frames := by
    rw [← List.drop_drop]
    exact h'.frames

/-- A message that is at hand is returned, and no record is read. -/
theorem nextMessage_buffered {s : HandshakeState}
    (hframes : recordFramer.Frames s.2.read s.2.total records read more)
    (h : s.1.buf = m.raw ++ rest) :
    ∃ s', nextMessage s = (.ok m.msg, s') ∧ Stands s records read more m.raw 0 s' := by
  refine ⟨({ s.1 with buf := rest }, s.2), Loop.run_inr ?_, Nat.zero_le _, ?_, rfl, .nil, hframes⟩
  · show messagePass s = _
    simp only [messagePass, tryTake_raw h]
  · rw [List.take_zero, handshakeBytes, List.flatMap_nil, List.append_nil, h]

/-- A call takes the records that complete a message, and returns it. -/
theorem nextMessage_stands (hrecords : ∀ r ∈ records, r.InHandshake) {s : HandshakeState}
    (hframes : recordFramer.Frames s.2.read s.2.total records read more)
    (hbytes : s.1.buf ++ handshakeBytes records = m.raw ++ rest) :
    ∃ s' n, nextMessage s = (.ok m.msg, s') ∧ Stands s records read more m.raw n s' := by
  induction records generalizing s with
  | nil =>
    rw [handshakeBytes, List.flatMap_nil, List.append_nil] at hbytes
    obtain ⟨s', hnext, hstands⟩ := nextMessage_buffered hframes hbytes
    exact ⟨s', 0, hnext, hstands⟩
  | cons r records ih =>
    have hraw : m.raw <+: s.1.buf ++ handshakeBytes (r :: records) :=
      hbytes ▸ List.prefix_append _ _
    by_cases hle : m.raw.length ≤ s.1.buf.length
    · -- the message is at hand
      obtain ⟨rest', hrest'⟩ : m.raw <+: s.1.buf :=
        List.prefix_of_prefix_length_le hraw (List.prefix_append _ _) hle
      obtain ⟨s', hnext, hstands⟩ := nextMessage_buffered hframes hrest'.symm
      exact ⟨s', 0, hnext, hstands⟩
    · obtain ⟨d, hd⟩ : s.1.buf <+: m.raw :=
        List.prefix_of_prefix_length_le (List.prefix_append _ _) hraw
          (Nat.le_of_lt (Nat.not_le.mp hle))
      have hne : d ≠ [] := by
        rintro rfl
        rw [List.append_nil] at hd
        exact hle (Nat.le_of_eq (congrArg List.length hd.symm))
      obtain ⟨hr, hrs⟩ := List.forall_mem_cons.mp hrecords
      obtain ⟨read₁, l₁, hcut, htail⟩ := hframes.cons_inv
      obtain ⟨st₁, hread, rfl, rfl⟩ := TlsRecordStream.readRecord_eq hcut
      rw [handshakeBytes_cons, ← List.append_assoc] at hbytes
      obtain ⟨s', n, hnext, hstands⟩ :=
        @ih hrs ({ s.1 with buf := s.1.buf ++ handshakeBytes [r] }, st₁) htail hbytes
      refine ⟨s', n + 1, ?_, Nat.succ_le_succ hstands.bound, ?_, hstands.leftover,
        .cons hcut hstands.taken, hstands.frames⟩
      · rw [← hnext]
        refine Loop.run_inl (l := messageLoop) ?_
        show messagePass s = _
        simp only [messagePass, tryTake_none hd hne, hread, absorb_inHandshake hr]
      · rw [List.take_succ_cons, handshakeBytes_cons, ← List.append_assoc]
        exact hstands.buf

/-- Where one call after the other leaves the reader over the allocation. -/
theorem nextMessages_stands {messages : List HandshakeMessage}
    (hrecords : ∀ r ∈ records, r.InHandshake) {s : Source} {a : HandshakeState} (h : Stream s a)
    (hframes : recordFramer.Frames a.2.read a.2.total records read more)
    (hbytes : a.1.buf ++ handshakeBytes records = messages.flatMap (·.raw) ++ rest) :
    ∃ s' a' n, nextMessages messages.length s = (.ok (messages.map (·.msg)), s') ∧
      Stream s' a' ∧ Stands a records read more (messages.flatMap (·.raw)) n a' := by
  induction messages generalizing s a records with
  | nil =>
    refine ⟨s, a, 0, rfl, h, Nat.zero_le _, ?_, rfl, .nil, hframes⟩
    rw [handshakeBytes, List.take_zero, List.flatMap_nil, List.append_nil]
    rfl
  | cons m messages ih =>
    rw [List.flatMap_cons, List.append_assoc] at hbytes
    obtain ⟨a₁, n₁, hmessage, h₁⟩ := nextMessage_stands hrecords hframes hbytes
    obtain ⟨hanswer, hstream⟩ := next_nextMessage h
    rw [hmessage] at hanswer hstream
    obtain ⟨s', a', n₂, hrun, hstream', h₂⟩ := ih
      (fun r hr => hrecords r (List.mem_of_mem_drop hr)) hstream h₁.frames (h₁.bytes hbytes)
    have hnext : next s = (.ok m.msg, (next s).2) := Prod.ext hanswer.symm rfl
    exact ⟨s', a', n₁ + n₂, Session.bind_eq hnext (Session.bind_eq hrun rfl), hstream',
      h₁.trans h₂⟩

/-- The calls return the messages that were sent, each with its header, however they were cut into
records, wherever ChangeCipherSpec records were put and however the bytes arrive.  After any
number of calls the reader has something buffered exactly if the records that were read hold
more than the messages that were returned. -/
theorem messages_returned {hs : HandshakeReader} {st : BufferedRecords} {t : Transport}
    (hsize : st.buffer.data.length = TlsRecordStream.inboundSize) (hread : KeysLawful st.read)
    {records : List Record} {bytes more : Bytes} {read : Option RecordProtection}
    (hwire : OnWire st.read records bytes read) (hrecords : ∀ r ∈ records, r.InHandshake)
    (harrived : BufferedRecords.total (st, t) = bytes ++ more)
    {messages : List HandshakeMessage} {tail : Bytes}
    (hbytes : hs.buf ++ handshakeBytes records = messages.flatMap (·.raw) ++ tail)
    {k : Nat} (hk : k ≤ messages.length) :
    ∃ hs' st' t' n consumed beyond,
      nextMessages k (hs, st, t) = (.ok ((messages.take k).map (·.msg)), hs', st', t') ∧
      n ≤ records.length ∧ OnWire st.read (records.take n) consumed st'.read ∧
      BufferedRecords.total (st, t) = consumed ++ BufferedRecords.total (st', t') ∧
      hs.buf ++ handshakeBytes (records.take n) = (messages.take k).flatMap (·.raw) ++ beyond ∧
      (hs'.hasBuffered = true ↔ beyond ≠ []) := by
  have hframes := hwire.frames hread more
  rw [← harrived] at hframes
  have hfirst : hs.buf ++ handshakeBytes records =
      (messages.take k).flatMap (·.raw) ++ ((messages.drop k).flatMap (·.raw) ++ tail) := by
    rw [hbytes, ← List.append_assoc, ← List.flatMap_append, List.take_append_drop]
  obtain ⟨⟨hs', st', t'⟩, a, n, hrun, ⟨hreader, habs, -⟩, h⟩ :=
    @nextMessages_stands _ _ _ _ _ hrecords (hs, st, t) (hs, st.abs t) ⟨rfl, rfl, hsize⟩ hframes
      hfirst
  obtain ⟨hs₁, st₁⟩ := a
  obtain rfl : hs' = hs₁ := hreader.symm
  obtain rfl : st'.abs t' = st₁ := habs.symm
  rw [List.length_take, Nat.min_eq_left hk] at hrun
  obtain ⟨first, rest, read₁, rfl, hconsumed, hrest⟩ := hwire.split n
  -- the records that were read are the first ones on the wire
  have hfirst := hconsumed.frames hread (rest ++ more)
  rw [← List.append_assoc, ← harrived] at hfirst
  have htaken : recordFramer.Frames st.read (BufferedRecords.total (st, t)) (records.take n) st'.read
    (BufferedRecords.total (st', t')) := h.taken
  obtain ⟨-, rfl, htotal⟩ := hfirst.unique htaken rfl
  refine ⟨hs', st', t', n, first, hs'.buf, hrun, h.bound, hconsumed, ?_, h.buf, ?_⟩
  · rw [harrived, List.append_assoc, htotal]
  · rw [hasBuffered, Bool.not_eq_true', Bool.eq_false_iff, Ne, List.isEmpty_iff]

/-- Two messages in two records, with the cut in the length of the second one. -/
theorem messages_returned_two :
    let first : HandshakeMessage := ⟨1, [], by decide⟩
    let bytes : Bytes :=
      [22, 3, 1, 0, 6, 1, 0, 0, 0, 2, 0, 20, 3, 3, 0, 1, 1, 22, 3, 3, 0, 3, 0, 1, 7]
    ∃ hs st t, nextMessages 1 (.new, .new none, .serving (arrive bytes [.pending]) .eof) =
      (.ok [first.msg], hs, st, t) ∧ hs.hasBuffered = true := by
  intro first bytes
  let second : HandshakeMessage := ⟨2, [7], by decide⟩
  have hwire : OnWire none [⟨.handshake, [1, 0, 0, 0, 2, 0]⟩, ⟨.changeCipherSpec, [1]⟩,
      ⟨.handshake, [0, 1, 7]⟩] bytes none :=
    .clear 3 1 (by decide) (.clear 3 3 (by decide) (.clear 3 3 (by decide) .nil))
  have harrived : BufferedRecords.total (.new none, .serving (arrive bytes [.pending]) .eof) =
      bytes ++ [] := by decide
  have hbytes : HandshakeReader.new.buf ++ handshakeBytes [⟨.handshake, [1, 0, 0, 0, 2, 0]⟩,
      ⟨.changeCipherSpec, [1]⟩, ⟨.handshake, [0, 1, 7]⟩] =
        [first, second].flatMap (·.raw) ++ [] := by
    decide +kernel
  obtain ⟨hs, st, t, n, -, beyond, hrun, -, -, -, hread, hbuffered⟩ :=
    @messages_returned _ _ _ List.length_replicate (fun p hp => by cases hp) _ _ _ _ hwire
      (by decide) harrived _ _ hbytes 1 (by decide)
  refine ⟨hs, st, t, hrun, hbuffered.mpr ?_⟩
  rintro rfl
  cases n with
  | zero => exact absurd hread (by decide)
  | succ n =>
    rw [List.take_succ_cons, handshakeBytes_cons] at hread
    exact absurd (congrArg List.length hread) (by simp [handshakeBytes, HandshakeReader.new, first,
      HandshakeMessage.raw])

end HandshakeReader

end RustClash
