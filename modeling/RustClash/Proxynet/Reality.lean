import RustClash.Proxynet.Record

/-!
# The REALITY stream

`RealityTlsStream` delivers the application data of the records it reads and
writes records of its own.  `vision_detach` hands the transport under it to a
reader: what the stream and its records still hold goes first.  The stream keeps
writing to that transport, which stays in its state; a `SharedStream` is a handle
on it.
-/

namespace RustClash

open Reality

structure RealityTlsStream (τ : Type) where
  records : TlsRecordStream τ
  pending : Bytes
  pendingOff : Nat
  ownsTransport : Bool
  receivedClose : Bool
  emptyRecords : Nat

namespace RealityTlsStream

variable {τ : Type}

def handshakeNewSessionTicket : UInt8 := 4
def handshakeKeyUpdate : UInt8 := 24
def maxEmptyRecords : Nat := 64

def new (records : TlsRecordStream τ) (leftover : Bytes) : RealityTlsStream τ :=
  ⟨records, leftover, 0, true, false, 0⟩

def stealPending (st : RealityTlsStream τ) : Bytes × RealityTlsStream τ :=
  if st.pending.length ≤ st.pendingOff then ([], st)
  else (st.pending.drop st.pendingOff, { st with pending := [], pendingOff := 0 })

def stealInboundLeftover (st : RealityTlsStream τ) : Bytes × RealityTlsStream τ :=
  let (out, records) := st.records.stealInboundLeftover
  (out, { st with records })

def markTransportShared (st : RealityTlsStream τ) : RealityTlsStream τ :=
  { st with ownsTransport := false }

def takePending (st : RealityTlsStream τ) (cap : Nat) : Filled UInt8 cap × RealityTlsStream τ :=
  let d : Filled UInt8 cap := .fill cap (st.pending.drop st.pendingOff)
  (d, { st with pendingOff := st.pendingOff + d.items.length })

/-! ## Reading -/

def tooManyEmpty : IoError :=
  .other s!"The server sent {maxEmptyRecords} consecutive TLS records carrying no application data."

def keyUpdate : IoError :=
  .other "The server asked for a key update, which this client does not implement yet."

def unexpectedMessage (other : UInt8) : IoError :=
  let message := other.toNat
  .other s!"Unexpected post-handshake message {message}."

def tlsAlert : IoError := .other "The server sent a TLS alert."

/-- What one pass of the loop of `poll_fill` does. -/
abbrev Pass (τ : Type) (cap : Nat) :=
  RealityTlsStream τ ⊕ (Answer UInt8 IoError cap × RealityTlsStream τ)

/-- A record without application data. -/
def countEmpty (cap : Nat) (st : RealityTlsStream τ) : Pass τ cap :=
  let st := { st with emptyRecords := st.emptyRecords + 1 }
  if maxEmptyRecords < st.emptyRecords then .inr (.ready (.error tooManyEmpty), st) else .inl st

def passRecord (cap : Nat) (st : RealityTlsStream τ) (r : Record) : Pass τ cap :=
  match r.ty with
  | .applicationData =>
      if r.payload.isEmpty then st.countEmpty cap
      else
        let st := { st with emptyRecords := 0, pending := r.payload, pendingOff := 0 }
        let (d, st) := st.takePending cap
        .inr (.ready (.ok d), st)
  | .changeCipherSpec => st.countEmpty cap
  | .handshake =>
      match r.payload.head? with
      | none => st.countEmpty cap
      | some message =>
          if message = handshakeKeyUpdate then .inr (.ready (.error keyUpdate), st)
          else if message = handshakeNewSessionTicket then st.countEmpty cap
          else .inr (.ready (.error (unexpectedMessage message)), st)
  | .alert =>
      if r.payload[1]? = some 0 then
        .inr (.ready (.ok (.empty cap)), { st with receivedClose := true })
      else .inr (.ready (.error tlsAlert), st)

def passFill [AsyncRead τ] (cap : Nat) (st : RealityTlsStream τ) : Pass τ cap :=
  match st.records.pollReadRecord with
  | (.pending, records) => .inr (.pending, { st with records })
  | (.ready (.error e), records) =>
      if e.code = .connectionFailed then
        .inr (.ready (.ok (.empty cap)), { st with records, receivedClose := true })
      else .inr (.ready (.error e.toIo), { st with records })
  | (.ready (.ok r), records) => { st with records }.passRecord cap r

/-- What the stream has and did not deliver yet is taken, and nothing else. -/
theorem stealPending_spec (st : RealityTlsStream τ) :
    st.stealPending.1 = st.pending.drop st.pendingOff ∧ st.stealPending.2.records = st.records := by
  simp only [stealPending]
  split
  · next hle => exact ⟨(List.drop_eq_nil_of_le hle).symm, rfl⟩
  · exact ⟨rfl, rfl⟩

theorem countEmpty_inl {cap : Nat} {st st' : RealityTlsStream τ}
    (h : st.countEmpty cap = .inl st') :
    st'.emptyRecords = st.emptyRecords + 1 ∧ st'.emptyRecords ≤ maxEmptyRecords := by
  simp only [countEmpty] at h
  split at h
  · cases h
  · next hle =>
      cases h
      exact ⟨rfl, Nat.not_lt.mp hle⟩

theorem passRecord_inl {cap : Nat} {st st' : RealityTlsStream τ} {r : Record}
    (h : st.passRecord cap r = .inl st') : st.countEmpty cap = .inl st' := by
  simp only [passRecord] at h
  split at h
  · split at h
    · exact h
    · cases h
  · exact h
  · split at h
    · exact h
    · split at h
      · cases h
      · split at h
        · exact h
        · cases h
  · split at h <;> cases h

/-- One pass of the loop of `poll_fill`: each that goes round again counts a record
without application data. -/
def fillLoop (τ : Type) [AsyncRead τ] (cap : Nat) :
    Loop (RealityTlsStream τ) (Answer UInt8 IoError cap × RealityTlsStream τ) where
  body st := st.passFill cap
  measure st := maxEmptyRecords + 1 - st.emptyRecords
  decreases := by
    intro st st' h
    simp only [passFill] at h
    split at h
    · cases h
    · split at h <;> cases h
    · next r records hr =>
        obtain ⟨heq, hle⟩ := countEmpty_inl (passRecord_inl h)
        simp only at heq
        omega

instance [AsyncRead τ] : AsyncRead (RealityTlsStream τ) where
  pollRead st cap :=
    if cap = 0 then (.ready (.ok (.empty cap)), st)
    else
      let (d, st) := st.takePending cap
      if !d.items.isEmpty then (.ready (.ok d), st)
      else if st.receivedClose then (.ready (.ok (.empty cap)), st)
      else (fillLoop τ cap).run st

/-! ## Writing and detaching -/

instance [AsyncWrite τ] : AsyncWrite (RealityTlsStream τ) where
  pollWrite st buf :=
    let (r, records) := st.records.pollWriteApp buf
    (r, { st with records })
  pollFlush st :=
    let (r, records) := st.records.pollFlushApp
    (r, { st with records })

instance [AsyncRead τ] [AsyncWrite τ] : AsyncIo (RealityTlsStream τ) where
  visionDetach st leftover :=
    let st := st.markTransportShared
    let (pending, st) := st.stealPending
    let (inbound, st) := st.stealInboundLeftover
    (some (.wrapIfNeeded (leftover ++ pending ++ inbound)), st)
  pollReadShared st cap :=
    let (r, transport) := pollRead st.records.transport cap
    (r, { st with records := { st.records with transport } })

/-- Detaching answers with the leftover, the undelivered bytes and the undecoded ones
before the transport, which stays as it is. -/
theorem visionDetach_spec [AsyncRead τ] [AsyncWrite τ] (st : RealityTlsStream τ)
    (leftover : Bytes) :
    (visionDetach st leftover).1 = some (.wrapIfNeeded
        (leftover ++ st.pending.drop st.pendingOff ++ st.records.inbound)) ∧
      (visionDetach st leftover).2.records.transport = st.records.transport := by
  obtain ⟨hpending, hrecords⟩ := st.markTransportShared.stealPending_spec
  simp only [visionDetach, stealInboundLeftover, TlsRecordStream.stealInboundLeftover, hpending,
    hrecords]
  exact ⟨rfl, rfl⟩

instance [AsyncRead τ] [AsyncWrite τ] [ReadLaw τ] : SharedLaw (RealityTlsStream τ) where
  spec :=
    { Yields := fun st items o => ReadLaw.spec.Yields st.records.transport items o
      stalls := fun st => ReadLaw.spec.stalls st.records.transport
      leaves := fun hy hcap => (ReadLaw.spec.leaves hy hcap).handOn (fun _ _ h => h) rfl rfl }

end RealityTlsStream

end RustClash
