import RustClash.Lib.Session
import RustClash.Net.Await
import RustClash.Proxynet.RecordFrames

/-!
# Awaited record calls

`read_record` and `write_record` of a `TlsRecordStream` over a transport.  A read
has the rest of the buffer to fill, `inboundSize` bytes less those at hand.
-/

namespace RustClash

open Reality

namespace TlsRecordStream

def inboundSize : Nat := 64 * 1024

/-- All bytes that are still to be cut into records. -/
def total (st : TlsRecordStream Transport) : Bytes := st.inbound ++ unread st.transport.reads

theorem total_congr {st : TlsRecordStream Transport} {t : Transport}
    (h : t.reads = st.transport.reads) : { st with transport := t }.total = st.total := by
  rw [total, total, h]

/-- A connection that ends in the middle of a record. -/
def ofRead (e : IoError) : ProxyError :=
  if e.kind = .unexpectedEof ∨ e.kind = .connectionReset then closedMidRecord else ofIo e

/-- What a read of the transport means for the record. -/
def received (st : TlsRecordStream Transport) {cap : Nat} :
    IoResult (Filled UInt8 cap) × Transport →
      TlsRecordStream Transport ⊕ (Except ProxyError Record × TlsRecordStream Transport)
  | (.error e, transport) => .inr (.error (ofRead e), { st with transport })
  | (.ok d, transport) =>
      let st := { st with transport }
      if d.items.isEmpty then .inr (.error closedMidRecord, st) else .inl (st.pushInbound d.items)

/-- A record if the bytes at hand hold one, and more bytes otherwise. -/
def readPass (st : TlsRecordStream Transport) :
    TlsRecordStream Transport ⊕ (Except ProxyError Record × TlsRecordStream Transport) :=
  match st.tryReadBuffered with
  | (.ok (some r), st) => .inr (.ok r, st)
  | (.error e, st) => .inr (.error e, st)
  | (.ok none, st) => st.received (st.transport.read (inboundSize - st.inbound.length))

theorem readPass_inl {st st' : TlsRecordStream Transport} (h : st.readPass = .inl st') :
    recordFramer.cut st.read st.inbound = .ok none ∧
      ∃ (d : Bytes) (transport : Transport), d ≠ [] ∧
        unread st.transport.reads = d ++ unread transport.reads ∧
        transport.readEnd = st.transport.readEnd ∧ transport.written = st.transport.written ∧
        st' = { st with transport, inbound := st.inbound ++ d } := by
  have htried := st.tryReadBuffered_tried
  rcases htry : st.tryReadBuffered with ⟨e | _ | r, st₁⟩ <;> simp only [readPass, htry] at h
  · cases h
  · rw [htry] at htried
    cases htried with
    | waits hcut =>
      rcases hread : st.transport.read (inboundSize - st.inbound.length) with ⟨e | d, transport⟩ <;>
        simp only [hread, received] at h
      · cases h
      · split at h
        · cases h
        · next hd =>
          rw [List.isEmpty_iff] at hd
          cases h
          have hpos : 0 < inboundSize - st.inbound.length :=
            Nat.lt_of_lt_of_le (List.length_pos_iff.mpr hd) d.bound
          have hspec := Transport.read_spec hpos st.transport
          have hwritten := Transport.read_written (inboundSize - st.inbound.length) st.transport
          rw [hread] at hspec hwritten
          cases hspec with
          | data _ hunread hend =>
            exact ⟨hcut, d.items, transport, hd, hunread, hend, hwritten.1, rfl⟩
          | eof hnil => exact absurd hnil hd
  · cases h

def readLoop : Loop (TlsRecordStream Transport)
    (Except ProxyError Record × TlsRecordStream Transport) where
  body := readPass
  measure st := (unread st.transport.reads).length
  decreases := by
    intro st st' h
    obtain ⟨-, d, transport, hd, hunread, -, -, rfl⟩ := readPass_inl h
    rw [hunread, List.length_append]
    exact Nat.lt_add_of_pos_left (List.length_pos_iff.mpr hd)

def readRecord : Session (TlsRecordStream Transport) ProxyError Record := readLoop.run

/-- The answers of `read_record`: however the bytes arrive, it is the record at their head. -/
inductive ReadRecord (st : TlsRecordStream Transport) :
    Except ProxyError Record × TlsRecordStream Transport → Prop
| record {r : Record} {st' : TlsRecordStream Transport} :
  recordFramer.cut st.read st.total = .ok (some (r, st'.read, st'.total)) ->
  st'.write = st.write ->
  st'.transport.written = st.transport.written ->
  ReadRecord st (.ok r, st')
| error {e : ProxyError} {st' : TlsRecordStream Transport} :
  (∀ c, recordFramer.cut st.read st.total ≠ .ok (some c)) ->
  st'.transport.written = st.transport.written ->
  ReadRecord st (.error e, st')

/-- Where the bytes at hand do not suffice and no more come. -/
theorem cut_ne_some {st : TlsRecordStream Transport}
    (h : recordFramer.cut st.read st.inbound = .ok none) (hnil : unread st.transport.reads = [])
    (c : Record × Option RecordProtection × Bytes) :
    recordFramer.cut st.read st.total ≠ .ok (some c) := by
  rw [total, hnil, List.append_nil, h]
  exact nofun

theorem readPass_inr {st : TlsRecordStream Transport}
    {out : Except ProxyError Record × TlsRecordStream Transport} (h : st.readPass = .inr out) :
    ReadRecord st out := by
  have htried := st.tryReadBuffered_tried
  rcases htry : st.tryReadBuffered with ⟨e | _ | r, st₁⟩ <;> rw [htry] at htried <;>
    simp only [readPass, htry] at h
  · cases htried with
    | error hcut =>
      cases h
      refine .error (fun c hc => ?_) rfl
      rw [total, recordFramer.fails _ hcut] at hc
      cases hc
  · cases htried with
    | waits hcut =>
      have hpos : 0 < inboundSize - st.inbound.length := by
        have hlt : st.inbound.length < 5 + (16384 + 256) := cutRecord_waits hcut
        show 0 < 65536 - _
        omega
      have hspec := Transport.read_spec hpos st.transport
      have hwritten := Transport.read_written (inboundSize - st.inbound.length) st.transport
      rcases hread : st.transport.read (inboundSize - st.inbound.length) with ⟨e | d, transport⟩ <;>
        rw [hread] at hspec hwritten <;> simp only [hread, received] at h
      · cases h
        cases hspec with
        | error hnil => exact .error (cut_ne_some hcut hnil) hwritten.1
      · split at h
        · next hd =>
          cases h
          rw [List.isEmpty_iff] at hd
          cases hspec with
          | data hne => exact absurd hd hne
          | eof _ hnil => exact .error (cut_ne_some hcut hnil) hwritten.1
        · cases h
  · cases htried with
    | record hcut =>
      cases h
      exact .record (recordFramer.grows _ hcut) rfl rfl

theorem readRecord_spec (st : TlsRecordStream Transport) : ReadRecord st (readRecord st) := by
  refine Loop.rule (l := readLoop) (P := ReadRecord) ?_ (fun _ _ h => readPass_inr h) st
  intro st st' out h ih
  obtain ⟨-, d, transport, -, hunread, -, hwritten, rfl⟩ := readPass_inl h
  have htotal : { st with transport, inbound := st.inbound ++ d }.total = st.total := by
    simp only [total, hunread, List.append_assoc]
  cases ih with
  | record hcut hwrite hw => exact .record (htotal ▸ hcut) hwrite (hw.trans hwritten)
  | error hcut hw => exact .error (htotal ▸ hcut) (hw.trans hwritten)

/-- A record at the head of the bytes is read. -/
theorem readRecord_eq {st : TlsRecordStream Transport} {r : Record}
    {read : Option RecordProtection} {rest : Bytes}
    (h : recordFramer.cut st.read st.total = .ok (some (r, read, rest))) :
    ∃ st', readRecord st = (.ok r, st') ∧ st'.read = read ∧ st'.total = rest := by
  have hspec := readRecord_spec st
  rcases hrun : readRecord st with ⟨e | r', st'⟩ <;> rw [hrun] at hspec
  · cases hspec with
    | error hne => exact absurd h (hne _)
  · cases hspec with
    | record hcut =>
      cases hcut.symm.trans h
      exact ⟨st', rfl, rfl, rfl⟩

/-! ## Writing -/

def recordTooLarge : ProxyError := hsErr "record too large"

/-- Write the staged bytes out. -/
def sendStaged (staged : Bytes) : Session (TlsRecordStream Transport) ProxyError PUnit := fun st =>
  match st.transport.writeAll staged with
  | (.error e, transport) => (.error (ofIo e), { st with transport })
  | (.ok (), transport) =>
      match transport.flush with
      | (.error e, transport) => (.error (ofIo e), { st with transport })
      | (.ok (), transport) => (.ok ⟨⟩, { st with transport })

def writeRecord (ty : ContentType) (payload : Bytes) :
    Session (TlsRecordStream Transport) ProxyError PUnit := fun st =>
  if maxPlaintext < payload.length then (.error recordTooLarge, st)
  else
    let (staged, st) := st.stage ty payload
    sendStaged staged st

/-- What a write of records leaves: it reads nothing, and what it sent is the beginning of
`staged`. -/
structure Sent (staged : Bytes) (st : TlsRecordStream Transport)
    (out : Except ProxyError PUnit × TlsRecordStream Transport) : Prop where
  written : ∃ sent, sent <+: staged ∧
    out.2.transport.written = st.transport.written ++ sent ∧ (out.1 = .ok ⟨⟩ → sent = staged)
  total : out.2.total = st.total
  read : out.2.read = st.read

theorem sendStaged_spec (staged : Bytes) (st : TlsRecordStream Transport) :
    Sent staged st (sendStaged staged st) := by
  obtain ⟨sent, hsent, hw, hok⟩ := st.transport.writeAll_spec staged
  rcases hwrite : st.transport.writeAll staged with ⟨e | u, t⟩ <;> rw [hwrite] at hw hok <;>
    simp only [sendStaged, hwrite]
  · exact ⟨⟨sent, hsent, hw.written, nofun⟩, total_congr hw.reads, rfl⟩
  · have hf := t.flush_spec
    have hreads := hf.reads.trans hw.reads
    have hwritten := hf.written.trans (List.append_nil _) |>.trans hw.written
    rcases hflush : t.flush with ⟨e | u, t'⟩ <;> rw [hflush] at hreads hwritten
    · exact ⟨⟨sent, hsent, hwritten, nofun⟩, total_congr hreads, rfl⟩
    · exact ⟨⟨sent, hsent, hwritten, fun _ => hok rfl⟩, total_congr hreads, rfl⟩

/-- Staging a record changes the protection of what is written only. -/
theorem stage_eq {τ : Type} (st : TlsRecordStream τ) (ty : ContentType) (payload : Bytes) :
    (st.stage ty payload).2 = { st with write := (st.stage ty payload).2.write } := by
  rcases st with ⟨transport, inbound, outbound, outboundOff, outboundPlain, _ | write, read⟩ <;> rfl

theorem writeRecord_spec (ty : ContentType) (payload : Bytes) (st : TlsRecordStream Transport) :
    Sent (st.stage ty payload).1 st (writeRecord ty payload st) := by
  simp only [writeRecord]
  split
  · exact ⟨⟨[], List.nil_prefix, (List.append_nil _).symm, nofun⟩, rfl, rfl⟩
  · have h := sendStaged_spec (st.stage ty payload).1 (st.stage ty payload).2
    have heq := st.stage_eq ty payload
    obtain ⟨sent, hsent, hw, hok⟩ := h.written
    refine ⟨⟨sent, hsent, ?_, hok⟩, ?_, ?_⟩
    · rw [hw, heq]
    · rw [h.total, heq]
      rfl
    · rw [h.read, heq]

end TlsRecordStream

end RustClash
