import RustClash.Lib.Checked
import RustClash.Lib.ReadExact
import RustClash.Proxynet.RecordCalls

/-!
# The inbound buffer

The buffer under a `TlsRecordStream`: `data` is the allocation, and the bytes from
`start` to `stop` are at hand.  Taking a record moves `start`; bytes that arrive
are written behind `stop`, after what is at hand was moved to the front.
`push_inbound` grows the allocation, `read_record` reads into what is left of it.
The stream over the buffer refines the one over the bytes at hand.
-/

namespace RustClash

open Reality

structure InboundBuffer where
  data : Bytes
  start : Nat
  stop : Nat
  ordered : start ≤ stop
  bounded : stop ≤ data.length

namespace InboundBuffer

def new : InboundBuffer :=
  ⟨List.replicate TlsRecordStream.inboundSize 0, 0, 0, Nat.le_refl _, Nat.zero_le _⟩

/-- The bytes at hand. -/
def window (b : InboundBuffer) : Bytes := (b.data.take b.stop).drop b.start

theorem length_window (b : InboundBuffer) : b.window.length = b.stop - b.start := by
  have := b.bounded
  rw [window, List.length_drop, List.length_take, Nat.min_eq_left this]

/-- Move the bytes at hand to the front. -/
def compact (b : InboundBuffer) : InboundBuffer :=
  if 0 < b.start then
    { data := Checked.overwrite b.data 0 b.window
      start := 0
      stop := b.stop - b.start
      ordered := Nat.zero_le _
      bounded := by
        have hbound := b.bounded
        have hlen := b.length_window
        rw [Checked.length_overwrite (by omega)]
        omega }
  else b

/-- Write `d` behind the bytes at hand, where there is room for it. -/
def extend (b : InboundBuffer) (d : Bytes) (h : b.stop + d.length ≤ b.data.length) :
    InboundBuffer where
  data := Checked.overwrite b.data b.stop d
  start := b.start
  stop := b.stop + d.length
  ordered := Nat.le_trans b.ordered (Nat.le_add_right _ _)
  bounded := by rwa [Checked.length_overwrite h]

/-- Grow the allocation to at least `need` bytes. -/
def reserve (b : InboundBuffer) (need : Nat) : InboundBuffer :=
  if h : b.data.length < need then
    { b with
      data := b.data.resize 0 need
      bounded := by
        rw [List.length_resize]
        exact Nat.le_trans b.bounded (Nat.le_of_lt h) }
  else b

def pushInbound (b : InboundBuffer) (data : Bytes) : InboundBuffer :=
  let b := b.compact
  (b.reserve (b.stop + data.length)).extend data (by
    simp only [reserve]
    split
    · exact Nat.le_of_eq (List.length_resize ..).symm
    · next h => exact Nat.not_lt.mp h)

/-- Take `n` of the bytes at hand. -/
def advance (b : InboundBuffer) (n : Nat) (h : n ≤ b.stop - b.start) : InboundBuffer :=
  { b with
    start := b.start + n
    ordered := by
      have := b.ordered
      omega }

theorem compact_start (b : InboundBuffer) : b.compact.start = 0 := by
  simp only [compact]
  split
  · rfl
  · next h => exact Nat.eq_zero_of_not_pos h

theorem compact_size (b : InboundBuffer) : b.compact.data.length = b.data.length := by
  simp only [compact]
  split
  · have := b.bounded
    rw [Checked.length_overwrite]
    rw [length_window]
    omega
  · rfl

theorem compact_window (b : InboundBuffer) : b.compact.window = b.window := by
  simp only [compact]
  split
  · have hlen := b.length_window
    show ((Checked.overwrite b.data 0 b.window).take (b.stop - b.start)).drop 0 = b.window
    rw [List.drop_zero, Checked.overwrite, List.take_zero, List.nil_append, ← hlen,
      List.take_left' rfl]
  · rfl

theorem compact_stop (b : InboundBuffer) : b.compact.stop = b.window.length := by
  rw [← compact_window, length_window, compact_start, Nat.sub_zero]

theorem extend_window (b : InboundBuffer) (d : Bytes) (h : b.stop + d.length ≤ b.data.length) :
    (b.extend d h).window = b.window ++ d := by
  have hbound := b.bounded
  have hordered := b.ordered
  have htake : (b.data.take b.stop).length = b.stop := by
    rw [List.length_take, Nat.min_eq_left hbound]
  show ((Checked.overwrite b.data b.stop d).take (b.stop + d.length)).drop b.start = _
  have hboth : (b.data.take b.stop ++ d).length = b.stop + d.length := by
    rw [List.length_append, htake]
  rw [Checked.overwrite, List.take_append_of_le_length (Nat.le_of_eq hboth.symm),
    List.take_of_length_le (Nat.le_of_eq hboth),
    List.drop_append_of_le_length (by rw [htake]; exact hordered)]
  rfl

theorem reserve_window (b : InboundBuffer) (need : Nat) : (b.reserve need).window = b.window := by
  simp only [reserve]
  split
  · next h =>
    have hbound := b.bounded
    show ((b.data.resize 0 need).take b.stop).drop b.start = _
    rw [List.take_resize 0 (by omega) hbound]
    rfl
  · rfl

theorem pushInbound_window (b : InboundBuffer) (data : Bytes) :
    (b.pushInbound data).window = b.window ++ data := by
  simp only [pushInbound]
  rw [extend_window, reserve_window, compact_window]

theorem advance_window (b : InboundBuffer) (n : Nat) (h : n ≤ b.stop - b.start) :
    (b.advance n h).window = b.window.drop n := by
  show (b.data.take b.stop).drop (b.start + n) = ((b.data.take b.stop).drop b.start).drop n
  rw [List.drop_drop]

end InboundBuffer

/-- A `TlsRecordStream` that reads, as it is in memory. -/
structure BufferedRecords where
  buffer : InboundBuffer
  read : Option RecordProtection

namespace BufferedRecords

def new (read : Option RecordProtection) : BufferedRecords := ⟨.new, read⟩

/-- `inbound[start + i..start + j]`. -/
def slice (st : BufferedRecords) (i j : Nat) : Bytes :=
  (st.buffer.data.take (st.buffer.start + j)).drop (st.buffer.start + i)

def tryReadBuffered (st : BufferedRecords) : Except ProxyError (Option Record) × BufferedRecords :=
  let available := st.buffer.stop - st.buffer.start
  if available < headerLen then (.ok none, st)
  else
    let header := st.slice 0 headerLen
    let length := ofBe16 (header.getD 3 0) (header.getD 4 0)
    if maxCiphertext < length then
      (.error (hsErr s!"The peer sent a {length}-byte TLS record, over the {maxCiphertext}-byte limit of RFC 8446."), st)
    else if h : available < headerLen + length then (.ok none, st)
    else
      match ContentType.fromU8 (header.getD 0 0) with
      | none => (.error (hsErr "bad content type"), st)
      | some ty =>
          let body := st.slice headerLen (headerLen + length)
          let (r, opened) := (holding st.read []).openRecord ty header body
          (r, ⟨st.buffer.advance (headerLen + length) (Nat.not_lt.mp h), opened.read⟩)

def pushInbound (st : BufferedRecords) (data : Bytes) : BufferedRecords :=
  { st with buffer := st.buffer.pushInbound data }

/-- What a read into the rest of the allocation means for the record. -/
def received (st : BufferedRecords) :
    IoResult (Filled UInt8 (st.buffer.data.length - st.buffer.stop)) × Transport →
      (BufferedRecords × Transport) ⊕ (Except ProxyError Record × BufferedRecords × Transport)
  | (.error e, transport) => .inr (.error (TlsRecordStream.ofRead e), st, transport)
  | (.ok d, transport) =>
      if d.items.isEmpty then .inr (.error TlsRecordStream.closedMidRecord, st, transport)
      else
        .inl ({ st with
          buffer := st.buffer.extend d.items (by
            have := d.bound
            have := st.buffer.bounded
            omega) }, transport)

/-- One pass of `read_record`. -/
def readPass (st : BufferedRecords × Transport) :
    (BufferedRecords × Transport) ⊕ (Except ProxyError Record × BufferedRecords × Transport) :=
  match st.1.tryReadBuffered with
  | (.ok (some r), records) => .inr (.ok r, records, st.2)
  | (.error e, records) => .inr (.error e, records, st.2)
  | (.ok none, records) =>
      let records := { records with buffer := records.buffer.compact }
      records.received (st.2.read (records.buffer.data.length - records.buffer.stop))

/-! ## The bytes at hand -/

/-- The stream over the bytes at hand. -/
def abs {τ : Type} (st : BufferedRecords) (transport : τ) : TlsRecordStream τ :=
  { TlsRecordStream.new transport with inbound := st.buffer.window, read := st.read }

theorem slice_window {st : BufferedRecords} {i j : Nat}
    (h : j ≤ st.buffer.stop - st.buffer.start) :
    st.slice i j = (st.buffer.window.take j).drop i := by
  have hordered := st.buffer.ordered
  rw [slice, InboundBuffer.window, List.take_drop, List.take_take, List.drop_drop,
    Nat.min_eq_left (by omega)]

/-- The stream over the buffer does what the one over the bytes at hand does. -/
theorem tryReadBuffered_abs {τ : Type} (st : BufferedRecords) (t : τ) :
    (st.abs t).tryReadBuffered = (st.tryReadBuffered.1, st.tryReadBuffered.2.abs t) := by
  have hlen : (st.abs t).inbound.length = st.buffer.stop - st.buffer.start :=
    st.buffer.length_window
  simp only [tryReadBuffered, TlsRecordStream.tryReadBuffered, hlen]
  split
  · rfl
  · next hheader =>
    have heq : st.slice 0 headerLen = (st.abs t).inbound.take headerLen :=
      slice_window (Nat.not_lt.mp hheader)
    simp only [heq]
    split
    · rfl
    · split
      · rfl
      · next hbody =>
        cases ContentType.fromU8 (((st.abs t).inbound.take headerLen).getD 0 0) with
        | none => rfl
        | some ty =>
          simp only [slice_window (Nat.not_lt.mp hbody), List.drop_take, Nat.add_sub_cancel_left]
          rw [TlsRecordStream.openRecord_eq]
          simp only [abs, InboundBuffer.advance_window]

/-- Taking a record leaves the allocation, and waiting for one leaves everything. -/
theorem tryReadBuffered_keeps (st : BufferedRecords) :
    st.tryReadBuffered.2.buffer.data = st.buffer.data ∧
      (st.tryReadBuffered.1 = .ok none → st.tryReadBuffered.2 = st) := by
  simp only [tryReadBuffered]
  split
  · exact ⟨rfl, fun _ => rfl⟩
  · split
    · exact ⟨rfl, nofun⟩
    · split
      · exact ⟨rfl, fun _ => rfl⟩
      · split
        · exact ⟨rfl, nofun⟩
        · exact ⟨rfl, fun h => absurd h (TlsRecordStream.openRecord_ne_none _ _ _ _)⟩

/-- A stream over the whole allocation and the stream over the bytes at hand. -/
structure Refines (s : BufferedRecords × Transport) (s' : TlsRecordStream Transport) : Prop where
  abs : s' = s.1.abs s.2
  size : s.1.buffer.data.length = TlsRecordStream.inboundSize

/-- Results that agree, in states of which one refines the other. -/
def Agree (r : Except ProxyError Record × BufferedRecords × Transport)
    (r' : Except ProxyError Record × TlsRecordStream Transport) : Prop :=
  r'.1 = r.1 ∧ Refines r.2 r'.2

theorem received_refines (st : BufferedRecords) (t : Transport)
    (hsize : st.buffer.data.length = TlsRecordStream.inboundSize)
    (r : IoResult (Filled UInt8 (st.buffer.data.length - st.buffer.stop)) × Transport) :
    Sum.LiftRel Refines Agree (st.received r) ((st.abs t).received r) := by
  rcases r with ⟨e | d, t'⟩
  · exact .inr ⟨rfl, rfl, hsize⟩
  · simp only [received, TlsRecordStream.received]
    split
    · exact .inr ⟨rfl, rfl, hsize⟩
    · refine .inl ⟨?_, ?_⟩
      · simp only [abs, TlsRecordStream.pushInbound, InboundBuffer.extend_window]
        rfl
      · refine (Checked.length_overwrite ?_).trans hsize
        have hbound := d.bound
        have hstop := st.buffer.bounded
        omega

theorem readPass_refines {s : BufferedRecords × Transport} {s' : TlsRecordStream Transport}
    (h : Refines s s') : Sum.LiftRel Refines Agree (readPass s) s'.readPass := by
  obtain ⟨st, t⟩ := s
  obtain ⟨rfl, hsize⟩ := h
  have habs := st.tryReadBuffered_abs t
  obtain ⟨hdata, hsame⟩ := st.tryReadBuffered_keeps
  rcases htry : st.tryReadBuffered with ⟨e | _ | r, st₁⟩ <;> rw [htry] at habs hdata hsame <;>
    simp only [readPass, TlsRecordStream.readPass, habs, htry]
  · exact .inr ⟨rfl, rfl, (congrArg List.length hdata).trans hsize⟩
  · obtain rfl : st₁ = st := hsame rfl
    have hcompact : { st₁ with buffer := st₁.buffer.compact }.abs t = st₁.abs t := by
      simp only [abs, InboundBuffer.compact_window]
    have hcap : TlsRecordStream.inboundSize - (st₁.abs t).inbound.length =
        st₁.buffer.compact.data.length - st₁.buffer.compact.stop := by
      rw [InboundBuffer.compact_size, InboundBuffer.compact_stop, hsize]
      rfl
    rw [hcap, ← hcompact]
    exact received_refines _ t (st₁.buffer.compact_size.trans hsize) _
  · exact .inr ⟨rfl, rfl, (congrArg List.length hdata).trans hsize⟩

/-- Bytes that arrived stand behind those at hand. -/
theorem received_inl {st : BufferedRecords} {t : Transport} {s' : BufferedRecords × Transport}
    (h : st.received (t.read (st.buffer.data.length - st.buffer.stop)) = .inl s') :
    ∃ d, d ≠ [] ∧ unread t.reads = d ++ unread s'.2.reads ∧
      s'.1.buffer.window = st.buffer.window ++ d := by
  rcases hread : t.read (st.buffer.data.length - st.buffer.stop) with ⟨e | d, t'⟩ <;>
    simp only [hread, received] at h
  · cases h
  · split at h
    · cases h
    · next hd =>
      rw [List.isEmpty_iff] at hd
      cases h
      have hlen := List.length_pos_iff.mpr hd
      have hspec := Transport.read_spec (Nat.lt_of_lt_of_le hlen d.bound) t
      rw [hread] at hspec
      cases hspec with
      | data _ hunread =>
        have hbound := d.bound
        have hstop := st.buffer.bounded
        exact ⟨d.items, hd, hunread, InboundBuffer.extend_window _ _ (by omega)⟩
      | eof hnil => exact absurd hnil hd

/-- All bytes that are still to be cut into records. -/
def total (s : BufferedRecords × Transport) : Bytes := s.1.buffer.window ++ unread s.2.reads

theorem readPass_inl {s s' : BufferedRecords × Transport} (h : readPass s = .inl s') :
    (unread s'.2.reads).length < (unread s.2.reads).length ∧ total s' = total s := by
  simp only [readPass] at h
  split at h
  · cases h
  · cases h
  · next records htry =>
    obtain rfl : records = s.1 := by
      have hkeep := s.1.tryReadBuffered_keeps.2
      rw [htry] at hkeep
      exact hkeep rfl
    obtain ⟨d, hd, hunread, hwindow⟩ := received_inl h
    rw [InboundBuffer.compact_window] at hwindow
    rw [total, total, hwindow, hunread, List.length_append, List.append_assoc]
    exact ⟨Nat.lt_add_of_pos_left (List.length_pos_iff.mpr hd), rfl⟩

def readLoop : Loop (BufferedRecords × Transport)
    (Except ProxyError Record × BufferedRecords × Transport) where
  body := readPass
  measure s := (unread s.2.reads).length
  decreases h := (readPass_inl h).1

def readRecord : Session (BufferedRecords × Transport) ProxyError Record := readLoop.run

/-- A record is taken off what is to be read, and it is not empty on the wire. -/
theorem readRecord_taken {s s' : BufferedRecords × Transport} {r : Record}
    (h : readRecord s = (.ok r, s')) : (total s').length < (total s).length := by
  refine Loop.rule (l := readLoop)
    (P := fun s out => out = (.ok r, s') → (total s').length < (total s).length) ?_ ?_ s h
  · intro s s₁ out hpass ih hout
    rw [← (readPass_inl hpass).2]
    exact ih hout
  · rintro ⟨st, t⟩ _ hpass rfl
    change readPass (st, t) = _ at hpass
    have habs := st.tryReadBuffered_abs t
    rcases htry : st.tryReadBuffered with ⟨e | _ | r', st₁⟩ <;> rw [htry] at habs <;>
      simp only [readPass, htry] at hpass
    · cases hpass
    · rcases hread : t.read (st₁.buffer.compact.data.length - st₁.buffer.compact.stop) with
        ⟨e | d, t'⟩ <;> simp only [hread, received] at hpass
      · cases hpass
      · split at hpass <;> cases hpass
    · cases hpass
      obtain ⟨header, body, hlen, heq, -⟩ := TlsRecordStream.tryReadBuffered_taken habs
      have hsplit : st.buffer.window = header ++ body ++ st₁.buffer.window := heq
      have hfive : header.length = 5 := hlen
      simp only [total, hsplit, List.length_append]
      omega

/-- Reading a record over the buffer is reading one over the bytes at hand. -/
theorem readRecord_refines {s : BufferedRecords × Transport} {s' : TlsRecordStream Transport}
    (h : Refines s s') : Agree (readRecord s) (TlsRecordStream.readRecord s') :=
  Loop.run_sim (l := readLoop) (m := TlsRecordStream.readLoop) (R := Refines) (Q := Agree)
    (fun _ _ => readPass_refines) h

end BufferedRecords

end RustClash
