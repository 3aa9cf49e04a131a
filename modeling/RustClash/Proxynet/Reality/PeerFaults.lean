import RustClash.Proxynet.Reality.HandshakeReader
import RustClash.Proxynet.Reality.MessageFaults
import RustClash.Proxynet.RecordFaults

/-!
# What a peer can do to the input path

The handshake reader over the buffer in memory, with every index and slice checked, and all
calls that look at bytes of the peer, in any order.  `input_sound` says that none of them
faults, that each read of the transport has room to read into, and that less than one record
waits before it.
-/

namespace RustClash

open Reality Checked

/-! ## The handshake reader -/

namespace HandshakeReader

def tryTakeChecked (hs : HandshakeReader) : Checked (Option (HsMsg × HandshakeReader)) :=
  if hs.buf.length < 4 then pure none
  else do
    let b1 ← get hs.buf 1
    let b2 ← get hs.buf 2
    let b3 ← get hs.buf 3
    let bodyLen := ofBe [b1, b2, b3]
    if hs.buf.length < 4 + bodyLen then pure none
    else
      let raw ← slice hs.buf 0 (4 + bodyLen)
      let buf ← drain hs.buf (4 + bodyLen)
      let ty ← get raw 0
      let body ← slice raw 4 raw.length
      pure (some (⟨ty, raw, body⟩, { hs with buf }))

def alertMessageChecked (payload : Bytes) : Checked String :=
  if 2 ≤ payload.length then do
    let b0 ← get payload 0
    let description ← get payload 1
    let level := if b0 = 2 then "fatal" else "warning"
    pure s!"The server sent a {level} TLS alert, description {description}."
  else pure "The server sent a malformed alert."

def absorbChecked (hs : HandshakeReader) (keys : Bool) (r : Record) :
    Checked (Except ProxyError HandshakeReader) :=
  match r.ty with
  | .alert => do
      let message ← alertMessageChecked r.payload
      pure (.error (hsErr message))
  | _ => pure (hs.absorb keys r)

/-- The reader over the buffer in memory. -/
abbrev RawSource : Type := HandshakeReader × RecordSource

def nextPassChecked (s : RawSource) :
    Checked (RawSource ⊕ (Except ProxyError HsMsg × RawSource)) := do
  match ← s.1.tryTakeChecked with
  | some (m, hs) => pure (.inr (.ok m, hs, s.2))
  | none =>
      match ← s.2.readRecord with
      | (.error e, records) => pure (.inr (.error (ofRecordError e), s.1, records))
      | (.ok r, records) =>
          match ← s.1.absorbChecked records.records.read.isSome r with
          | .error e => pure (.inr (.error e, s.1, records))
          | .ok hs => pure (.inl (hs, records))

theorem nextPassChecked_size {s s' : RawSource} (h : nextPassChecked s = .ok (.inl s')) :
    s'.2.size < s.2.size := by
  rw [nextPassChecked] at h
  obtain ⟨taken, -, h⟩ := bind_ok h
  rcases taken with _ | ⟨m, hs⟩
  · obtain ⟨⟨r, records⟩, hread, h⟩ := bind_ok h
    rcases r with e | r
    · cases h
    · obtain ⟨absorbed, -, h⟩ := bind_ok h
      rcases absorbed with e | hs
      · cases h
      · cases h
        exact RecordSource.readRecord_size hread
  · cases h

def nextLoopChecked : Loop RawSource (Checked (Except ProxyError HsMsg × RawSource)) where
  body s := (nextPassChecked s).pass
  measure s := s.2.size
  decreases h := nextPassChecked_size (pass_inl h)

def nextChecked (s : RawSource) : Checked (Except ProxyError HsMsg × RawSource) :=
  nextLoopChecked.run s

theorem tryTakeChecked_eq (hs : HandshakeReader) : hs.tryTakeChecked = .ok hs.tryTake := by
  rw [tryTakeChecked, tryTake]
  split
  · rfl
  · next hfour =>
    rw [get_ok (by omega) 0, ok_bind, get_ok (by omega) 0, ok_bind, get_ok (by omega) 0, ok_bind]
    dsimp only
    split
    · rfl
    · next hlen =>
      have hraw :
          (hs.buf.take (4 + ofBe [hs.buf.getD 1 0, hs.buf.getD 2 0, hs.buf.getD 3 0])).length =
            4 + ofBe [hs.buf.getD 1 0, hs.buf.getD 2 0, hs.buf.getD 3 0] := by
        rw [List.length_take]
        omega
      rw [slice_ok (Nat.zero_le _) (Nat.not_lt.mp hlen), ok_bind, List.drop_zero,
        drain_ok (Nat.not_lt.mp hlen), ok_bind, get_ok (by omega) 0, ok_bind,
        slice_ok (by omega) (Nat.le_refl _), ok_bind, List.take_length]
      rfl

theorem absorbChecked_eq (hs : HandshakeReader) (keys : Bool) (r : Record) :
    hs.absorbChecked keys r = .ok (hs.absorb keys r) := by
  have hmessage : alertMessageChecked r.payload = .ok (alertMessage r.payload) := by
    rw [alertMessageChecked, alertMessage]
    split
    · next hlen =>
      rw [get_ok (by omega) 0, ok_bind, get_ok (by omega) 0, ok_bind]
      rfl
    · rfl
  rw [absorbChecked, absorb]
  cases r.ty with
  | alert =>
    dsimp only
    rw [hmessage]
    rfl
  | changeCipherSpec => rfl
  | handshake => rfl
  | applicationData => rfl

/-- The same reader, over memory that holds the buffer. -/
def Over (src : Source) (s : RawSource) : Prop := s.1 = src.1 ∧ s.2.Holds src.2

/-- The answer of `next`, without a fault. -/
def Answers (out : Except ProxyError HsMsg × Source)
    (x : Checked (Except ProxyError HsMsg × RawSource)) : Prop :=
  ∃ s, x = .ok (out.1, s) ∧ Over out.2 s

theorem nextPass_raw {src : Source} {s : RawSource} (h : Over src s) :
    Sum.LiftRel Over Answers (nextPass src) (nextPassChecked s).pass := by
  obtain ⟨hs, p⟩ := src
  obtain ⟨hs', s⟩ := s
  obtain ⟨heq, hholds⟩ := h
  obtain rfl : hs' = hs := heq
  simp only [nextPassChecked, tryTakeChecked_eq, ok_bind, nextPass]
  rcases hs'.tryTake with _ | ⟨m, hs⟩
  · obtain ⟨s₁, hread, hholds₁⟩ := RecordSource.readRecord_raw hholds
    have hold := hholds₁.records
    rcases hp : BufferedRecords.readRecord p with ⟨e | r, p₁⟩ <;> rw [hp] at hread hholds₁ hold <;>
      dsimp only <;> rw [hread, ok_bind]
    · exact .inr ⟨_, rfl, rfl, hholds₁⟩
    · have hkeys : s₁.records.read = p₁.1.read := congrArg RawRecords.read hold
      dsimp only
      rw [absorbChecked_eq, ok_bind, hkeys]
      rcases hs'.absorb p₁.1.read.isSome r with e | hs
      · exact .inr ⟨_, rfl, rfl, hholds₁⟩
      · exact .inl ⟨rfl, hholds₁⟩
  · exact .inr ⟨_, rfl, rfl, hholds⟩

theorem next_raw {src : Source} {s : RawSource} (h : Over src s) :
    Answers (next src) (nextChecked s) :=
  Loop.run_sim (l := nextLoop) (m := nextLoopChecked) (R := Over) (Q := Answers)
    (fun _ _ => nextPass_raw) h

end HandshakeReader

/-! ## All calls -/

/-- The calls that take bytes of the peer from the record layer. -/
inductive InputCall where
  | tryReadBuffered
  | readRecord
  | pollReadRecord
  | pushInbound (data : Bytes)
  | next
  | setKeys (read : Option RecordProtection)

namespace InputCall

open HandshakeReader (RawSource nextChecked)

def run (s : RawSource) : InputCall → Checked RawSource
  | tryReadBuffered => do
      let (_, records) ← s.2.records.tryReadBuffered
      pure (s.1, { s.2 with records })
  | readRecord => do
      let (_, records) ← s.2.readRecord
      pure (s.1, records)
  | pollReadRecord => do
      let (_, records) ← s.2.pollReadRecord
      pure (s.1, records)
  | pushInbound data => do
      let records ← s.2.records.pushInbound data
      pure (s.1, { s.2 with records })
  | next => do
      let (_, s) ← nextChecked s
      pure s
  | setKeys read => pure (s.1, { s.2 with records := { s.2.records with read } })

def runAll : List InputCall → RawSource → Checked RawSource
  | [], s => pure s
  | call :: calls, s => do
      let s ← call.run s
      runAll calls s

/-- The memory is that of a buffer in order. -/
def Sound (s : RawSource) : Prop := ∃ p, s.2.Holds p

theorem run_sound {s : RawSource} (h : Sound s) (call : InputCall) :
    ∃ s', call.run s = .ok s' ∧ Sound s' := by
  obtain ⟨hs, s⟩ := s
  obtain ⟨⟨st, t⟩, hholds⟩ := h
  have hrecords : s.records = st.raw := hholds.records
  have hsize : TlsRecordStream.inboundSize ≤ st.buffer.data.length := hholds.size
  cases call with
  | tryReadBuffered =>
    have hdata := st.tryReadBuffered_keeps.1
    have htry := st.tryReadBuffered_raw
    rw [← hrecords] at htry
    rw [run, htry]
    exact ⟨_, rfl, (st.tryReadBuffered.2, t), rfl, hholds.transport, hdata ▸ hsize, hholds.calls⟩
  | readRecord =>
    obtain ⟨s', hread, hholds'⟩ := RecordSource.readRecord_raw hholds
    rw [run, hread]
    exact ⟨_, rfl, _, hholds'⟩
  | pollReadRecord =>
    obtain ⟨r, s', p', hread, hholds'⟩ := RecordSource.pollReadRecord_raw hholds
    rw [run, hread]
    exact ⟨_, rfl, p', hholds'⟩
  | pushInbound data =>
    have hpush := st.pushInbound_raw data
    rw [← hrecords] at hpush
    rw [run, hpush]
    exact ⟨_, rfl, (st.pushInbound data, t), rfl, hholds.transport,
      Nat.le_trans hsize (RecordSource.pushInbound_size st data), hholds.calls⟩
  | next =>
    have hover : HandshakeReader.Over (hs, st, t) (hs, s) := ⟨rfl, hholds⟩
    obtain ⟨s', hnext, -, hholds'⟩ := HandshakeReader.next_raw hover
    rw [run, hnext]
    exact ⟨_, rfl, _, hholds'⟩
  | setKeys read =>
    refine ⟨_, rfl, ({ st with read }, t), ?_, hholds.transport, hsize, hholds.calls⟩
    show { s.records with read } = _
    rw [hrecords]
    rfl

theorem runAll_sound {s : RawSource} (h : Sound s) : ∀ calls : List InputCall,
    ∃ s', runAll calls s = .ok s' ∧ Sound s'
  | [] => ⟨s, rfl, h⟩
  | call :: calls => by
      obtain ⟨s₁, hrun, h₁⟩ := run_sound h call
      obtain ⟨s', hruns, h'⟩ := runAll_sound h₁ calls
      rw [runAll, hrun]
      exact ⟨s', hruns, h'⟩

end InputCall

/-- The answer to the ClientHello that was sealed, as the handshake reads it. -/
def readSealedHello (p : TlsPrimitives) (clientHello : Bytes) (authKey : Octets authKeySize)
    (shortId : Octets shortIdSize) (unixTime : UInt32) (clientVersion : Octets 3) (raw : Bytes) :
    Checked (Except ProxyError ServerHello) :=
  match sealSessionId p clientHello authKey shortId unixTime clientVersion with
  | .error e => pure (.error e)
  | .ok hello => parseServerHelloChecked raw hello

theorem readSealedHello_runs (p : TlsPrimitives) (clientHello : Bytes)
    (authKey : Octets authKeySize) (shortId : Octets shortIdSize) (unixTime : UInt32)
    (clientVersion : Octets 3) (raw : Bytes) :
    Runs (readSealedHello p clientHello authKey shortId unixTime clientVersion raw) := by
  rw [readSealedHello]
  cases hseal : sealSessionId p clientHello authKey shortId unixTime clientVersion with
  | error e => exact runs_pure _
  | ok hello =>
    have hsid : (sessionIdOf hello).length = sessionIdSize := (sealSessionId_ok p hseal).2.1
    have hlen : sessionIdOffset + sessionIdSize ≤ hello.length := by
      rw [sessionIdOf, List.length_take, List.length_drop] at hsid
      have hpos : 0 < sessionIdSize := by decide
      omega
    exact ⟨_, parseServerHelloChecked_eq hlen raw⟩

/-- Whatever the peer sends and however it arrives, no call of the input path goes out of range,
every read of the transport has room to read into, and before it less than one record of the
greatest length is buffered. -/
theorem input_sound :
    (∀ (transport : Transport) (read : Option RecordProtection) (calls : List InputCall),
      ∃ s, InputCall.runAll calls (.new, .new transport read) = .ok s ∧
        ∀ c ∈ s.2.calls, 0 < c.room ∧ c.buffered < headerLen + maxCiphertext) ∧
    (∀ p clientHello authKey shortId unixTime clientVersion raw,
      Runs (readSealedHello p clientHello authKey shortId unixTime clientVersion raw)) ∧
    (∀ body, Runs (extractLeafChecked body)) ∧
    ∀ der, Runs (readEd25519CertChecked der).run := by
  refine ⟨fun transport read calls => ?_, readSealedHello_runs, fun body => ?_, fun der => ?_⟩
  · have hnew : InputCall.Sound (.new, .new transport read) :=
      ⟨_, RecordSource.holds_new transport read⟩
    obtain ⟨s, hrun, p, hholds⟩ := InputCall.runAll_sound hnew calls
    exact ⟨s, hrun, hholds.calls⟩
  · exact ⟨_, extractLeafChecked_eq body⟩
  · exact ⟨_, readEd25519CertChecked_eq der⟩

end RustClash
