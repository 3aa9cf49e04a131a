import Mathlib.Data.Nat.Bitwise
import RustClash.Lib.Sink
import RustClash.Proxynet.Primitives
import RustClash.Proxynet.RecordCalls

/-!
# What a record stream writes

A stream stages records under the key it has, and counts them: the `i`-th record
under a key is sealed with the iv xor `i`.  An `Epoch` is a key with the records
that were sealed under it.  `Sealing` says where the stream stands between its
calls: every record it sealed is with the transport, or the last one is staged.
-/

namespace RustClash

open Reality

namespace Reality

/-! ## Records under a key -/

structure WriteKey where
  iv : Octets nonceLen
  aead : Aead UInt8

/-- The protection that has sealed `n` records. -/
def WriteKey.after (k : WriteKey) (n : Nat) : RecordProtection := ⟨k.iv, k.aead, UInt64.ofNat n⟩

/-- The nonce of the `i`-th record under an iv. -/
def nonceAt (iv : Octets nonceLen) (i : Nat) : Bytes := buildNonce iv.bytes (UInt64.ofNat i)

/-- The header of a record on the wire. -/
def recordHeader (ty : ContentType) (minor : UInt8) (len : Nat) : Bytes :=
  [ty.toU8, 3, minor] ++ toBe16 len

/-- The `i`-th record under a key, on the wire; records in the clear have no number. -/
def WriteKey.seal : Option WriteKey → Nat → Record → Bytes
  | none, _, r =>
      recordHeader r.ty (if r.payload ≠ [] ∧ r.ty = .handshake then 1 else 3) r.payload.length ++
        r.payload
  | some k, i, r =>
      let header := recordHeader .applicationData 3 (r.payload.length + 1 + tagLen)
      header ++ k.aead.encrypt (nonceAt k.iv i) header (r.payload ++ [r.ty.toU8])

/-- A key and the records under it. -/
structure Epoch where
  key : Option WriteKey
  records : List Record

namespace Epoch

/-- The records from number `i` on. -/
def wireFrom (key : Option WriteKey) : Nat → List Record → Bytes
  | _, [] => []
  | i, r :: records => WriteKey.seal key i r ++ wireFrom key (i + 1) records

def wire (e : Epoch) : Bytes := wireFrom e.key 0 e.records

def add (e : Epoch) (r : Record) : Epoch := { e with records := e.records ++ [r] }

/-- Application data in records of its own. -/
def addData (e : Epoch) (pieces : List Bytes) : Epoch :=
  { e with records := e.records ++ pieces.map (⟨.applicationData, ·⟩) }

/-- The protection after the records of an epoch. -/
def protection (e : Epoch) : Option RecordProtection := e.key.map (·.after e.records.length)

theorem wireFrom_append (key : Option WriteKey) (i : Nat) (records : List Record) (r : Record) :
    wireFrom key i (records ++ [r]) =
      wireFrom key i records ++ WriteKey.seal key (i + records.length) r := by
  induction records generalizing i with
  | nil => simp [wireFrom]
  | cons r' records ih =>
    rw [List.cons_append, wireFrom, wireFrom, ih, List.append_assoc, List.length_cons,
      Nat.add_right_comm, Nat.add_assoc]

theorem wire_add (e : Epoch) (r : Record) :
    (e.add r).wire = e.wire ++ WriteKey.seal e.key e.records.length r := by
  rw [wire, add, wireFrom_append, Nat.zero_add]
  rfl

theorem addData_nil (e : Epoch) : e.addData [] = e := by simp [addData]

theorem addData_append (e : Epoch) (pieces : List Bytes) (piece : Bytes) :
    e.addData (pieces ++ [piece]) = (e.addData pieces).add ⟨.applicationData, piece⟩ := by
  simp [addData, add]

end Epoch

theorem xor_low {a b c n : Nat} (hb : b < 2 ^ n) (hc : c < 2 ^ n) :
    (2 ^ n * a + b) ^^^ c = 2 ^ n * a + (b ^^^ c) := by
  refine Nat.eq_of_testBit_eq fun j => ?_
  rw [Nat.testBit_xor, Nat.testBit_two_pow_mul_add a hb j,
    Nat.testBit_two_pow_mul_add a (Nat.xor_lt_two_pow hb hc) j, Nat.testBit_xor]
  split
  · rfl
  · next hj =>
    rw [Nat.testBit_lt_two_pow (Nat.lt_of_lt_of_le hc (Nat.pow_le_pow_right (by decide) (Nat.not_lt.mp hj))),
      Bool.xor_false]

/-- The nonce is the iv xor the number of the record. -/
theorem nonceAt_eq (iv : Octets nonceLen) {i : Nat} (h : i < 2 ^ 64) :
    ofBe (nonceAt iv i) = ofBe iv.bytes ^^^ i := by
  have hlen : (iv.bytes.drop 4).length = 8 := by
    rw [List.length_drop, iv.size]
    rfl
  have hpow : 256 ^ 8 = 2 ^ 64 := by decide
  have hlow : ofBe (iv.bytes.drop 4) < 2 ^ 64 := by
    have hlt := ofBe_lt (iv.bytes.drop 4)
    rwa [hlen, hpow] at hlt
  have hxor : ofBe (iv.bytes.drop 4) ^^^ i < 256 ^ 8 := by
    rw [hpow]
    exact Nat.xor_lt_two_pow hlow h
  have hiv : ofBe iv.bytes = 2 ^ 64 * ofBe (iv.bytes.take 4) + ofBe (iv.bytes.drop 4) := by
    have happ := ofBe_append (iv.bytes.take 4) (iv.bytes.drop 4)
    rwa [List.take_append_drop, hlen, hpow, Nat.mul_comm] at happ
  rw [nonceAt, buildNonce, ofBe_append, length_toBe, UInt64.toNat_ofNat_of_lt' h, ofBe_toBe hxor,
    hpow, Nat.mul_comm, hiv, xor_low hlow h]

theorem nonceAt_injective (iv : Octets nonceLen) {i j : Nat} (hi : i < 2 ^ 64) (hj : j < 2 ^ 64)
    (h : nonceAt iv i = nonceAt iv j) : i = j := by
  have hxor := congrArg ofBe h
  rw [nonceAt_eq iv hi, nonceAt_eq iv hj] at hxor
  exact Nat.xor_right_injective hxor

end Reality

namespace TlsRecordStream

variable {τ : Type}

/-- Staging seals the next record of the epoch. -/
theorem stage_epoch {st : TlsRecordStream τ} {e : Epoch} (h : st.write = e.protection)
    (ty : ContentType) (payload : Bytes) :
    st.stage ty payload = (WriteKey.seal e.key e.records.length ⟨ty, payload⟩,
      { st with write := (e.add ⟨ty, payload⟩).protection }) := by
  obtain ⟨_ | k, records⟩ := e
  · have hnone : st.write = none := h
    simp only [stage, hnone]
    have hsame : { st with write := none } = st := by rw [← hnone]
    rw [show (Epoch.add ⟨none, records⟩ ⟨ty, payload⟩).protection = none from rfl, hsame]
    rfl
  · have hsome : st.write = some (k.after records.length) := h
    simp only [stage, hsome]
    have hnext : (Epoch.add ⟨some k, records⟩ ⟨ty, payload⟩).protection =
        some { k.after records.length with seq := UInt64.ofNat records.length + 1 } := by
      simp only [Epoch.protection, Epoch.add, Option.map_some, WriteKey.after, List.length_append,
        List.length_singleton, UInt64.ofNat_add]
      rfl
    rw [hnext]
    rfl

theorem seal_ne_nil (key : Option WriteKey) (i : Nat) (r : Record) : WriteKey.seal key i r ≠ [] := by
  cases key <;> exact List.cons_ne_nil _ _

/-! ## Between calls -/

/-- Pieces that records of application data carry. -/
def DataPieces (pieces : List Bytes) : Prop := ∀ p ∈ pieces, p ≠ [] ∧ p.length ≤ maxPlaintext

theorem DataPieces.append {pieces : List Bytes} {piece : Bytes} (h : DataPieces pieces)
    (hne : piece ≠ []) (hlen : piece.length ≤ maxPlaintext) : DataPieces (pieces ++ [piece]) := by
  intro p hp
  rcases List.mem_append.mp hp with hp | hp
  · exact h p hp
  · rw [List.mem_singleton.mp hp]
    exact ⟨hne, hlen⟩

section

variable [AsyncWrite τ] {spec : SinkSpec (pollWrite : WriteFn τ UInt8 IoError) pollFlush}
  {before : Bytes} {e : Epoch} {st : TlsRecordStream τ} {out : Option Bytes} {pieces : List Bytes}

/-- The record with `piece` is staged, or done: what the transport has and what is left of the
record are the bytes `before`, the epoch, and a record for each of the pieces. -/
structure Staged (spec : SinkSpec (pollWrite : WriteFn τ UInt8 IoError) pollFlush) (before : Bytes)
    (e : Epoch) (st : TlsRecordStream τ) (pieces : List Bytes) (piece : Bytes) : Prop where
  fits : DataPieces (pieces ++ [piece])
  outbound : st.outbound =
    WriteKey.seal e.key (e.records.length + pieces.length) ⟨.applicationData, piece⟩
  off : st.outboundOff ≤ st.outbound.length
  plain : st.outboundPlain = piece.length
  write : st.write = (e.addData (pieces ++ [piece])).protection
  held : spec.Holding (st.outbound.drop st.outboundOff) st.transport
    (before ++ (e.addData (pieces ++ [piece])).wire)

/-- Nothing is staged: every record is acknowledged and with the transport. -/
structure Idle (spec : SinkSpec (pollWrite : WriteFn τ UInt8 IoError) pollFlush) (before : Bytes)
    (e : Epoch) (st : TlsRecordStream τ) (pieces : List Bytes) : Prop where
  fits : DataPieces pieces
  outbound : st.outbound = []
  off : st.outboundOff = 0
  write : st.write = (e.addData pieces).protection
  held : spec.Holding [] st.transport (before ++ (e.addData pieces).wire)

/-- Where a stream stands that acknowledged `pieces`; a record that is staged is the beginning
of what is to be presented again. -/
inductive Sealing (spec : SinkSpec (pollWrite : WriteFn τ UInt8 IoError) pollFlush)
    (before : Bytes) (e : Epoch) (st : TlsRecordStream τ) (out : Option Bytes)
    (pieces : List Bytes) : Prop
| idle : Idle spec before e st pieces -> Sealing spec before e st out pieces
| staged {buf : Bytes} :
  out = some buf ->
  Staged spec before e st pieces (buf.take maxPlaintext) ->
  Sealing spec before e st out pieces

/-- Draining a staged record keeps it staged. -/
theorem pollDrainApp_staged {piece : Bytes} (h : Staged spec before e st pieces piece)
    (zero : IoError) :
    Staged spec before e (st.pollDrainApp zero).2 pieces piece ∧
      ((st.pollDrainApp zero).1 = .ready (.ok ()) →
        (st.pollDrainApp zero).2.outboundOff = (st.pollDrainApp zero).2.outbound.length) := by
  have hdrain := h.held.drain h.off zero
  simp only [pollDrainApp]
  generalize drain pollWrite zero st.outbound st.outboundOff st.transport = r at hdrain ⊢
  obtain ⟨r, off, transport⟩ := r
  exact ⟨⟨h.fits, h.outbound, hdrain.off_bound, h.plain, h.write, hdrain.held⟩, hdrain.done⟩

/-- A record that is drained is acknowledged with the length of its piece. -/
theorem finishOutbound_idle {piece : Bytes} (h : Staged spec before e st pieces piece)
    (hdone : st.outboundOff = st.outbound.length) :
    st.finishOutbound.1 = piece.length ∧
      Idle spec before e st.finishOutbound.2 (pieces ++ [piece]) := by
  have hheld := h.held
  rw [hdone, List.drop_length] at hheld
  exact ⟨h.plain, h.fits, rfl, rfl, h.write, hheld⟩

theorem finishOutbound_answered {buf : Bytes} (hne : buf ≠ [])
    (h : Staged spec before e st pieces (buf.take maxPlaintext))
    (hdone : st.outboundOff = st.outbound.length) :
    Answered (Sealing spec before e) pieces buf
      ((.ready (.ok st.finishOutbound.1), st.finishOutbound.2) :
        Poll (IoResult Nat) × TlsRecordStream τ) := by
  obtain ⟨hplain, hidle⟩ := finishOutbound_idle h hdone
  have htake : buf.take st.finishOutbound.1 = buf.take maxPlaintext := by
    rw [hplain, List.length_take, ← List.take_eq_take_min]
  have hnil : buf.take maxPlaintext ≠ [] := by
    rw [ne_eq, List.take_eq_nil_iff]
    exact not_or.mpr ⟨by decide, hne⟩
  refine .count _ _ ?_ ?_
  · rw [hplain, List.length_take]
    exact Nat.min_le_right _ _
  · rw [htake, report_of_ne _ hnil]
    exact .idle hidle

theorem pollOutbound_answered {buf : Bytes} (hne : buf ≠ [])
    (h : Staged spec before e st pieces (buf.take maxPlaintext)) :
    Answered (Sealing spec before e) pieces buf st.pollOutbound := by
  have hdrain := pollDrainApp_staged h writeZero
  simp only [pollOutbound]
  generalize st.pollDrainApp writeZero = r at hdrain
  obtain ⟨hstaged, hdone⟩ := hdrain
  rcases r with ⟨_ | err | ⟨⟩, st'⟩
  · exact .pending _ (.staged rfl hstaged)
  · exact .error _ _ (.staged rfl hstaged)
  · exact finishOutbound_answered hne hstaged (hdone rfl)

theorem Staged.outbound_ne {piece : Bytes} (h : Staged spec before e st pieces piece) :
    st.outbound ≠ [] := by
  rw [h.outbound]
  exact seal_ne_nil _ _ _

/-- A fresh record of what a write begins with. -/
theorem Idle.stage (h : Idle spec before e st pieces) {buf : Bytes} (hne : buf ≠ []) :
    let r := st.stage .applicationData (buf.take maxPlaintext)
    Staged spec before e
      { r.2 with
        outbound := r.1
        outboundOff := 0
        outboundPlain := (buf.take maxPlaintext).length } pieces (buf.take maxPlaintext) := by
  generalize hpiece : buf.take maxPlaintext = piece
  have hnil : piece ≠ [] := by
    rw [← hpiece, ne_eq, List.take_eq_nil_iff]
    exact not_or.mpr ⟨by decide, hne⟩
  have hlen : piece.length ≤ maxPlaintext := by
    rw [← hpiece, List.length_take]
    exact Nat.min_le_left _ _
  have hcount : (e.addData pieces).records.length = e.records.length + pieces.length := by
    simp [Epoch.addData]
  intro r
  have hr : r = _ := stage_epoch h.write .applicationData piece
  rw [hr, hcount]
  refine ⟨h.fits.append hnil hlen, rfl, Nat.zero_le _, rfl, ?_, ?_⟩
  · rw [Epoch.addData_append]
  · rw [Epoch.addData_append, Epoch.wire_add, hcount, ← List.append_assoc, List.drop_zero]
    exact h.held.restart _

theorem pollWriteApp_answered {buf : Bytes} (h : Sealing spec before e st out pieces)
    (hne : buf ≠ []) (hagain : ∀ b, out = some b → buf = b) :
    Answered (Sealing spec before e) pieces buf (st.pollWriteApp buf) := by
  simp only [pollWriteApp]
  cases h with
  | staged hout hstaged =>
    cases hagain _ hout
    split
    · exact pollOutbound_answered hne hstaged
    · next hoff =>
      -- A flush has drained the record: it is acknowledged now.
      rw [if_pos (by simpa using hstaged.outbound_ne)]
      exact finishOutbound_answered hne hstaged
        (Nat.le_antisymm hstaged.off (Nat.not_lt.mp hoff))
  | idle hidle =>
    rw [if_neg (by simp [hidle.outbound]), if_neg (by simp [hidle.outbound]), if_neg (by simpa using hne)]
    have hstaged := hidle.stage hne
    have hmin : min buf.length maxPlaintext = (buf.take maxPlaintext).length := by
      rw [List.length_take, Nat.min_comm]
    have htake : buf.take (min buf.length maxPlaintext) = buf.take maxPlaintext := by
      rw [Nat.min_comm, ← List.take_eq_take_min]
    rw [htake, hmin]
    exact pollOutbound_answered hne hstaged

theorem pollFlushApp_sealing (h : Sealing spec before e st out pieces) :
    Sealing spec before e st.pollFlushApp.2 out pieces := by
  have hdrain : Sealing spec before e (st.pollDrainApp flushZero).2 out pieces := by
    cases h with
    | staged hout hstaged => exact .staged hout (pollDrainApp_staged hstaged flushZero).1
    | idle hidle =>
      have hheld : spec.Holding (st.outbound.drop st.outboundOff) st.transport
          (before ++ (e.addData pieces).wire) := by
        rw [hidle.outbound, List.drop_nil]
        exact hidle.held
      have hoff : st.outboundOff ≤ st.outbound.length := by
        rw [hidle.off]
        exact Nat.zero_le _
      have hdrain := hheld.drain hoff flushZero
      simp only [pollDrainApp]
      generalize drain pollWrite flushZero st.outbound st.outboundOff st.transport = r at hdrain ⊢
      obtain ⟨r, off, transport⟩ := r
      have hbound := hdrain.off_bound
      have hheld := hdrain.held
      rw [hidle.outbound] at hbound hheld
      rw [List.drop_nil] at hheld
      exact .idle ⟨hidle.fits, hidle.outbound, Nat.le_zero.mp hbound, hidle.write, hheld⟩
  simp only [pollFlushApp]
  generalize st.pollDrainApp flushZero = r at hdrain
  rcases r with ⟨_ | err | ⟨⟩, st'⟩
  · exact hdrain
  · exact hdrain
  · cases hdrain with
    | idle hidle => exact .idle { hidle with held := hidle.held.flushed }
    | staged hout hstaged => exact .staged hout { hstaged with held := hstaged.held.flushed }

end

/-! ## The handshake -/

/-- What a handshake does to the write side: it writes a record, or sets the key. -/
inductive HandshakeWrite where
  | record (ty : ContentType) (payload : Bytes)
  | key (k : WriteKey)

/-- The epochs that a handshake leaves. -/
structure Epochs where
  closed : List Epoch
  current : Epoch

namespace Epochs

def step (es : Epochs) : HandshakeWrite → Epochs
  | .record ty payload => { es with current := es.current.add ⟨ty, payload⟩ }
  | .key k => ⟨es.closed ++ [es.current], ⟨some k, []⟩⟩

/-- A handshake begins in the clear. -/
def after (hs : List HandshakeWrite) : Epochs := hs.foldl step ⟨[], ⟨none, []⟩⟩

/-- The records under the keys that were replaced. -/
def before (es : Epochs) : Bytes := es.closed.flatMap Epoch.wire

end Epochs

/-- A call of the handshake that completes. -/
inductive Completes : TlsRecordStream Transport → HandshakeWrite → TlsRecordStream Transport → Prop
| record {st st' : TlsRecordStream Transport} {ty : ContentType} {payload : Bytes} :
  writeRecord.{0} ty payload st = (.ok ⟨⟩, st') ->
  Completes st (.record ty payload) st'
| key {st : TlsRecordStream Transport} {k : WriteKey} :
  Completes st (.key k) { st with write := some (k.after 0) }

/-- A record that is written completely: nothing else changes than the transport and the
protection. -/
theorem writeRecord_ok {st st' : TlsRecordStream Transport} {ty : ContentType} {payload : Bytes}
    (h : writeRecord.{0} ty payload st = (.ok ⟨⟩, st')) :
    st'.transport.written = st.transport.written ++ (st.stage ty payload).1 ∧
      st'.write = (st.stage ty payload).2.write ∧ st'.outbound = st.outbound ∧
      st'.outboundOff = st.outboundOff := by
  have hspec := writeRecord_spec ty payload st
  rw [h] at hspec
  obtain ⟨sent, -, hwritten, hsent⟩ := hspec.written
  rw [hsent rfl] at hwritten
  have heq := st.stage_eq ty payload
  simp only [writeRecord, sendStaged] at h
  split at h
  · cases h
  · split at h
    · cases h
    · split at h
      · cases h
      · cases h
        rw [heq]
        exact ⟨hwritten, rfl, rfl, rfl⟩

/-- Where a handshake stands between its calls. -/
structure Handshaken (base : Bytes) (es : Epochs) (st : TlsRecordStream Transport) : Prop where
  outbound : st.outbound = []
  off : st.outboundOff = 0
  write : st.write = es.current.protection
  written : st.transport.written = base ++ (es.before ++ es.current.wire)

theorem Handshaken.step {base : Bytes} {es : Epochs} {st st' : TlsRecordStream Transport}
    {op : HandshakeWrite} (h : Handshaken base es st) (hstep : Completes st op st') :
    Handshaken base (es.step op) st' := by
  cases hstep with
  | record hok =>
    obtain ⟨hwritten, hwrite, hout, hoff⟩ := writeRecord_ok hok
    rw [stage_epoch h.write] at hwritten hwrite
    refine ⟨hout.trans h.outbound, hoff.trans h.off, hwrite, ?_⟩
    rw [hwritten, h.written]
    simp only [Epochs.step, Epochs.before, Epoch.wire_add, List.append_assoc]
  | key =>
    refine ⟨h.outbound, h.off, rfl, ?_⟩
    show st.transport.written = _
    rw [h.written]
    simp [Epochs.step, Epochs.before, Epoch.wire, Epoch.wireFrom]

theorem handshaken {t : Transport} {hs : List HandshakeWrite} {st : TlsRecordStream Transport}
    (h : Run Completes (new t) hs st) : Handshaken t.written (Epochs.after hs) st := by
  induction h with
  | nil => exact ⟨rfl, rfl, rfl, (List.append_nil _).symm⟩
  | snoc _ hstep ih =>
    rw [Epochs.after, List.foldl_append]
    exact ih.step hstep

/-! ## Whole runs -/

/-- Calls of `poll_write_app`, the last buffer again if it was not acknowledged, and of
`poll_flush_app`. -/
inductive AppCalls : Caller (TlsRecordStream Transport) UInt8 → SinkCall UInt8 →
    Caller (TlsRecordStream Transport) UInt8 → Prop
| write {c : Caller (TlsRecordStream Transport) UInt8} (buf : Bytes) :
  (∀ b, c.outstanding = some b → buf = b) ->
  AppCalls c (.write buf) (c.answered buf (c.sink.pollWriteApp buf))
| flush {c : Caller (TlsRecordStream Transport) UInt8} :
  AppCalls c .flush { c with sink := c.sink.pollFlushApp.2 }

/-- What every call keeps. -/
structure Accounted (base : Bytes) (es : Epochs) (c : Caller (TlsRecordStream Transport) UInt8) :
    Prop where
  sealing : Sealing (WriteLaw.spec.sink WriteLaw.flush_accepted base) es.before es.current c.sink
    c.outstanding c.pieces
  outstanding : c.outstanding ≠ some []

theorem Accounted.start {base : Bytes} {es : Epochs} {st : TlsRecordStream Transport}
    (h : Handshaken base es st) : Accounted base es (Caller.start st) := by
  refine ⟨.idle ⟨nofun, h.outbound, h.off, ?_, ?_⟩, nofun⟩
  · show st.write = (es.current.addData []).protection
    rw [Epoch.addData_nil]
    exact h.write
  · show SinkSpec.Holding _ [] st.transport (es.before ++ (es.current.addData []).wire)
    rw [Epoch.addData_nil]
    refine ⟨[es.before ++ es.current.wire], none, ?_, by simp, nofun⟩
    show st.transport.written = base ++ [es.before ++ es.current.wire].flatten
    rw [h.written, List.flatten_cons, List.flatten_nil, List.append_nil]

theorem Accounted.step {base : Bytes} {es : Epochs} {c c' : Caller (TlsRecordStream Transport) UInt8}
    {call : SinkCall UInt8} (h : Accounted base es c) (hstep : AppCalls c call c') :
    Accounted base es c' := by
  cases hstep with
  | flush => exact ⟨pollFlushApp_sealing h.sealing, h.outstanding⟩
  | write buf hagain =>
    by_cases hne : buf = []
    · subst hne
      cases h.sealing with
      | idle hidle =>
        have hnone : c.outstanding = none := by
          cases hout : c.outstanding with
          | none => rfl
          | some b => exact absurd (hout.trans (congrArg some (hagain b hout).symm)) h.outstanding
        have hans : c.sink.pollWriteApp [] = (.ready (.ok 0), c.sink) := by
          simp [pollWriteApp, hidle.outbound]
        rw [hans]
        refine ⟨?_, nofun⟩
        simp only [Caller.answered, List.take_nil, report_nil]
        exact .idle hidle
      | staged hout => exact absurd (hout.trans (congrArg some (hagain _ hout).symm)) h.outstanding
    · have hans := pollWriteApp_answered h.sealing hne hagain
      have hsome : some buf ≠ some [] := fun heq => hne (Option.some.inj heq)
      generalize c.sink.pollWriteApp buf = r at hans
      cases hans with
      | count n st hn hs => exact ⟨hs, nofun⟩
      | error err st hs => exact ⟨hs, hsome⟩
      | pending st hs => exact ⟨hs, hsome⟩

/-- The record that a stream has staged, if there is one. -/
def stagedRecord (e : Epoch) (pieces : List Bytes) (piece : Option Bytes) : Bytes :=
  piece.elim [] fun piece =>
    WriteKey.seal e.key (e.records.length + pieces.length) ⟨.applicationData, piece⟩

/-- After any handshake, at any point of any run of writes and flushes, whatever the transport
accepts when: the transport has the records of every epoch in the order they were sealed, each
sealed once under its own number, up to the last acknowledged piece, and the beginning of at
most one record more, which has the next number and what is to be presented again. -/
theorem sealed_once {t : Transport} {hs : List HandshakeWrite} {st : TlsRecordStream Transport}
    {calls : List (SinkCall UInt8)} {c : Caller (TlsRecordStream Transport) UInt8}
    (hhs : Run Completes (new t) hs st) (hcalls : Run AppCalls (Caller.start st) calls c) :
    ∃ (piece : Option Bytes) (sent unsent : Bytes),
      c.sink.transport.written = t.written ++ (Epochs.after hs).before ++
        ((Epochs.after hs).current.addData c.pieces).wire ++ sent ∧
      sent ++ unsent = stagedRecord (Epochs.after hs).current c.pieces piece ∧
      (∀ p, piece = some p → p ≠ [] ∧ ∃ buf, c.outstanding = some buf ∧ p = buf.take maxPlaintext) ∧
      c.sink.write = ((Epochs.after hs).current.addData (c.pieces ++ piece.toList)).protection ∧
      (∀ p ∈ c.pieces, p ≠ [] ∧ p.length ≤ maxPlaintext) ∧
      ∀ (iv : Octets nonceLen) (i j : Nat), i < 2 ^ 64 → j < 2 ^ 64 → i ≠ j →
        ofBe (nonceAt iv i) = ofBe iv.bytes ^^^ i ∧ nonceAt iv i ≠ nonceAt iv j := by
  have hnonce : ∀ (iv : Octets nonceLen) (i j : Nat), i < 2 ^ 64 → j < 2 ^ 64 → i ≠ j →
      ofBe (nonceAt iv i) = ofBe iv.bytes ^^^ i ∧ nonceAt iv i ≠ nonceAt iv j :=
    fun iv i j hi hj hne => ⟨nonceAt_eq iv hi, fun heq => hne (nonceAt_injective iv hi hj heq)⟩
  have hacc := hcalls.invariant (I := Accounted t.written (Epochs.after hs)) (fun h hstep => h.step hstep)
    (Accounted.start (handshaken hhs))
  generalize Epochs.after hs = es at hacc ⊢
  obtain ⟨hsealing, -⟩ := hacc
  cases hsealing with
  | idle hidle =>
    obtain ⟨pieces, hwritten, hpieces⟩ := hidle.held.done
    refine ⟨none, [], [], ?_, rfl, nofun, ?_, hidle.fits, hnonce⟩
    · rw [List.append_nil, List.append_assoc, ← hpieces]
      exact hwritten
    · rw [Option.toList_none, List.append_nil]
      exact hidle.write
  | staged hout hstaged =>
    rename_i buf
    have hfits : DataPieces c.pieces := fun p hp => hstaged.fits p (List.mem_append_left _ hp)
    obtain ⟨hne, -⟩ := hstaged.fits (buf.take maxPlaintext) (by simp)
    obtain ⟨pieces, out, hwritten, hitems, -⟩ := hstaged.held
    refine ⟨some (buf.take maxPlaintext), c.sink.outbound.take c.sink.outboundOff,
      c.sink.outbound.drop c.sink.outboundOff, ?_, ?_, ?_, hstaged.write, hfits, hnonce⟩
    · rw [Epoch.addData_append, Epoch.wire_add, ← List.append_assoc] at hitems
      have hcount : (es.current.addData c.pieces).records.length =
          es.current.records.length + c.pieces.length := by simp [Epoch.addData]
      rw [hcount] at hitems
      have hseal := hstaged.outbound
      rw [← List.take_append_drop c.sink.outboundOff c.sink.outbound] at hseal
      rw [show WriteKey.seal (es.current.addData c.pieces).key _ _ = _ from hseal.symm,
        ← List.append_assoc] at hitems
      have hsent := List.append_cancel_right hitems
      have haccepted : c.sink.transport.written = t.written ++ pieces.flatten := hwritten
      rw [haccepted, hsent]
      simp only [List.append_assoc]
    · rw [List.take_append_drop]
      exact hstaged.outbound
    · intro p hp
      cases hp
      exact ⟨hne, buf, hout, rfl⟩

theorem Completes.of_ok {st : TlsRecordStream Transport} {ty : ContentType} {payload : Bytes}
    (h : (writeRecord.{0} ty payload st).1 = .ok ⟨⟩) :
    Completes st (.record ty payload) (writeRecord.{0} ty payload st).2 :=
  .record (Prod.ext h rfl)

/-- A ChangeCipherSpec in the clear and a Finished message under a key; then a write that is
pending, drained by a flush, and acknowledged. -/
theorem sealed_once_flushed :
    let k : WriteKey := ⟨⟨List.replicate nonceLen 7, rfl⟩, keyTagged []⟩
    let t := Transport.accepting [.accept 6, .accept 64, .accept 9, .pending]
    let hs : List HandshakeWrite :=
      [.record .changeCipherSpec [1], .key k, .record .handshake [20, 0, 0, 0], .key k]
    ∃ st c, Run Completes (new t) hs st ∧
      Run AppCalls (Caller.start st) [.write [1, 2, 3], .flush, .write [1, 2, 3]] c ∧
      ∃ (piece : Option Bytes) (sent unsent : Bytes),
        c.sink.transport.written = t.written ++ (Epochs.after hs).before ++
          ((Epochs.after hs).current.addData c.pieces).wire ++ sent ∧
        sent ++ unsent = stagedRecord (Epochs.after hs).current c.pieces piece ∧
        (∀ p, piece = some p → p ≠ [] ∧ ∃ buf, c.outstanding = some buf ∧ p = buf.take maxPlaintext) ∧
        c.sink.write = ((Epochs.after hs).current.addData (c.pieces ++ piece.toList)).protection ∧
        (∀ p ∈ c.pieces, p ≠ [] ∧ p.length ≤ maxPlaintext) ∧
        ∀ (iv : Octets nonceLen) (i j : Nat), i < 2 ^ 64 → j < 2 ^ 64 → i ≠ j →
          ofBe (nonceAt iv i) = ofBe iv.bytes ^^^ i ∧ nonceAt iv i ≠ nonceAt iv j := by
  intro k t hs
  have hccs : (writeRecord.{0} .changeCipherSpec [1] (new t)).1 = .ok ⟨⟩ := by decide +kernel
  have hfinished : (writeRecord.{0} .handshake [20, 0, 0, 0]
      { (writeRecord.{0} .changeCipherSpec [1] (new t)).2 with write := some (k.after 0) }).1 = .ok ⟨⟩ := by
    decide +kernel
  have hhs : Run Completes (new t) hs _ :=
    .snoc (.snoc (.snoc (.snoc .nil (.of_ok hccs)) .key) (.of_ok hfinished)) .key
  generalize hst : ({ (writeRecord.{0} _ _ _).2 with write := _ } : TlsRecordStream Transport) = st at hhs
  have hcalls : Run AppCalls (Caller.start st) [.write [1, 2, 3], .flush, .write [1, 2, 3]] _ :=
    .snoc (.snoc (.snoc .nil (.write [1, 2, 3] nofun)) .flush) (.write [1, 2, 3] (by intro b h; exact Caller.again h))
  exact ⟨st, _, hhs, hcalls, sealed_once hhs hcalls⟩

end TlsRecordStream

end RustClash
