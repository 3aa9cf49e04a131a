import RustClash.Lib.CheckedLoop
import RustClash.Proxynet.RecordBuffer

/-!
# What a record layer can be made to do by its peer

The inbound buffer of a `TlsRecordStream` as it is in memory, three numbers and an
allocation that nothing ties together, with every index, slice and difference checked, and
with a note of each call that reads the transport.  On a buffer in order the checked
operations are those of `BufferedRecords`.
-/

namespace RustClash

open Reality Checked

/-! ## The last byte that is not zero -/

/-- `rposition`. -/
def rposition (p : UInt8 → Bool) : Bytes → Option Nat
  | [] => none
  | b :: bs =>
      match rposition p bs with
      | some i => some (i + 1)
      | none => if p b then some 0 else none

theorem rposition_none {p : UInt8 → Bool} : ∀ {bs : Bytes}, rposition p bs = none →
    ∀ b ∈ bs, p b = false
  | [], _, b, hb => absurd hb List.not_mem_nil
  | c :: cs, h, b, hb => by
      rw [rposition] at h
      split at h
      · cases h
      · next hcs =>
        split at h
        · cases h
        · next hc =>
          rcases List.mem_cons.mp hb with rfl | hb
          · exact Bool.eq_false_iff.mpr hc
          · exact rposition_none hcs b hb

/-- What is found stands at its position, and nothing behind it is to be found. -/
theorem rposition_some {p : UInt8 → Bool} : ∀ {bs : Bytes} {i : Nat}, rposition p bs = some i →
    ∃ a b c, bs = a ++ b :: c ∧ a.length = i ∧ p b = true ∧ ∀ d ∈ c, p d = false
  | [], _, h => by cases h
  | b :: bs, i, h => by
      rw [rposition] at h
      split at h
      · next j hj =>
        cases h
        obtain ⟨a, d, c, rfl, rfl, hd, hc⟩ := rposition_some hj
        exact ⟨b :: a, d, c, rfl, rfl, hd, hc⟩
      · next hnone =>
        split at h
        · next hb =>
          cases h
          exact ⟨[], b, bs, rfl, rfl, hb, rposition_none hnone⟩
        · cases h

/-! ## The buffer in memory -/

structure RawRecords where
  data : Bytes
  start : Nat
  stop : Nat
  read : Option RecordProtection

namespace RawRecords

/-- The content type at the end of an opened record and the payload before it. -/
def innerRecord (inner : Bytes) : Checked (Except ProxyError Record) :=
  match rposition (· ≠ 0) inner with
  | none => pure (.error (hsErr "The peer sent a TLS record with no content type."))
  | some stop => do
      let ty ← get inner stop
      match ContentType.fromU8 ty with
      | some real => pure (.ok ⟨real, inner.take stop⟩)
      | none => pure (.error (hsErr "bad inner type"))

/-- The rest of `try_read_buffered`, once `start` is behind the record. -/
def openRecord (st : RawRecords) (ty : ContentType) (header : Bytes) (bodyStart length : Nat) :
    Checked (Except ProxyError (Option Record) × RawRecords) :=
  match st.read with
  | none => do
      let payload ← slice st.data bodyStart (bodyStart + length)
      pure (.ok (some ⟨ty, payload⟩), st)
  | some read =>
      if ty = .changeCipherSpec then do
        let payload ← slice st.data bodyStart (bodyStart + length)
        pure (.ok (some ⟨ty, payload⟩), st)
      else if length < tagLen then
        pure (.error (hsErr "The peer sent an encrypted TLS record shorter than its own tag."), st)
      else do
        let ct ← slice st.data bodyStart (bodyStart + length)
        let (opened, read) := read.unprotect ct header
        let st := { st with read := some read }
        match opened with
        | .error e => pure (.error e, st)
        | .ok inner =>
            let r ← innerRecord inner
            pure (r.map some, st)

def tryReadBuffered (st : RawRecords) :
    Checked (Except ProxyError (Option Record) × RawRecords) := do
  let available ← sub st.stop st.start
  if available < headerLen then pure (.ok none, st)
  else
    let header ← slice st.data st.start (st.start + headerLen)
    let h3 ← get header 3
    let h4 ← get header 4
    let length := ofBe16 h3 h4
    if maxCiphertext < length then
      pure (.error (hsErr
        s!"The peer sent a {length}-byte TLS record, over the {maxCiphertext}-byte limit of RFC 8446."), st)
    else if available < headerLen + length then pure (.ok none, st)
    else
      let h0 ← get header 0
      match ContentType.fromU8 h0 with
      | none => pure (.error (hsErr "bad content type"), st)
      | some ty =>
          let bodyStart := st.start + headerLen
          { st with start := st.start + (headerLen + length) }.openRecord ty header bodyStart length

/-- The bytes at hand are moved to the front. -/
def compact (st : RawRecords) : Checked RawRecords :=
  if 0 < st.start then do
    let data ← copyWithin st.data st.start st.stop 0
    let stop ← sub st.stop st.start
    pure { st with data, start := 0, stop }
  else pure st

/-- The allocation, with room for `need` bytes. -/
def grown (data : Bytes) (need : Nat) : Bytes :=
  if data.length < need then data.resize 0 need else data

def pushInbound (st : RawRecords) (d : Bytes) : Checked RawRecords := do
  let st ← st.compact
  let data ← copy (grown st.data (st.stop + d.length)) st.stop (st.stop + d.length) d
  pure { st with data, stop := st.stop + d.length }

end RawRecords

namespace BufferedRecords

/-- The buffer as it is in memory. -/
def raw (st : BufferedRecords) : RawRecords :=
  ⟨st.buffer.data, st.buffer.start, st.buffer.stop, st.read⟩

theorem innerRecord_raw (inner : Bytes) :
    RawRecords.innerRecord inner = .ok (TlsRecordStream.innerRecord inner) := by
  rw [RawRecords.innerRecord, TlsRecordStream.innerRecord]
  cases hpos : rposition (· ≠ 0) inner with
  | none =>
    have hzero : inner.reverse.dropWhile (· == 0) = [] := by
      rw [← List.append_nil inner.reverse, List.dropWhile_append_of_pos]
      · rfl
      · intro b hb
        have hb := rposition_none hpos b (List.mem_reverse.mp hb)
        simpa using hb
    rw [hzero]
    rfl
  | some i =>
    obtain ⟨a, b, c, rfl, rfl, hb, hc⟩ := rposition_some hpos
    have hskip : (a ++ b :: c).reverse.dropWhile (· == 0) = b :: a.reverse := by
      rw [List.reverse_append, List.reverse_cons, List.append_assoc, List.dropWhile_append_of_pos]
      · exact List.dropWhile_cons_of_neg (by simpa using hb)
      · intro d hd
        have hd := hc d (List.mem_reverse.mp hd)
        simpa using hd
    have hget : (a ++ b :: c).getD a.length 0 = b := by simp
    rw [hskip]
    dsimp only
    rw [get_ok (by simp) 0, ok_bind, hget, List.take_left' rfl, List.reverse_reverse]
    cases ContentType.fromU8 b <;> rfl

theorem slice_raw {st : BufferedRecords} {i j : Nat} (hij : i ≤ j)
    (hj : j ≤ st.buffer.stop - st.buffer.start) :
    Checked.slice st.buffer.data (st.buffer.start + i) (st.buffer.start + j) =
      .ok (st.slice i j) := by
  have hbound := st.buffer.bounded
  have hordered := st.buffer.ordered
  exact slice_ok (Nat.add_le_add_left hij _) (by omega)

/-- The body of a record that is all there. -/
theorem slice_body {st : BufferedRecords} {length : Nat}
    (h : ¬ st.buffer.stop - st.buffer.start < headerLen + length) :
    Checked.slice st.raw.data (st.raw.start + headerLen) (st.raw.start + headerLen + length) =
      .ok (st.slice headerLen (headerLen + length)) := by
  rw [Nat.add_assoc]
  exact slice_raw (Nat.le_add_right _ _) (Nat.not_lt.mp h)

theorem length_body {st : BufferedRecords} {length : Nat}
    (h : ¬ st.buffer.stop - st.buffer.start < headerLen + length) :
    (st.slice headerLen (headerLen + length)).length = length := by
  have hordered := st.buffer.ordered
  have hbound := st.buffer.bounded
  rw [slice, List.length_drop, List.length_take]
  omega

theorem openRecord_raw {data : Bytes} {start stop bodyStart length : Nat}
    {read : Option RecordProtection} {body : Bytes}
    (hbody : Checked.slice data bodyStart (bodyStart + length) = .ok body)
    (hlen : body.length = length) (ty : ContentType) (header : Bytes) :
    RawRecords.openRecord ⟨data, start, stop, read⟩ ty header bodyStart length =
      .ok (((holding read []).openRecord ty header body).1,
        ⟨data, start, stop, ((holding read []).openRecord ty header body).2.read⟩) := by
  subst hlen
  cases read with
  | none =>
    simp only [RawRecords.openRecord, hbody, ok_bind]
    rfl
  | some read =>
    simp only [RawRecords.openRecord, TlsRecordStream.openRecord, hbody, ok_bind]
    split
    · rfl
    · split
      · rfl
      · rcases read.unprotect body header with ⟨e | inner, read'⟩
        · rfl
        · simp only [innerRecord_raw, ok_bind]
          rfl

/-- No header of the peer leads out of the buffer. -/
theorem tryReadBuffered_raw (st : BufferedRecords) :
    st.raw.tryReadBuffered = .ok (st.tryReadBuffered.1, st.tryReadBuffered.2.raw) := by
  have hordered := st.buffer.ordered
  have hbound := st.buffer.bounded
  have hsub : sub st.raw.stop st.raw.start = .ok (st.buffer.stop - st.buffer.start) :=
    sub_ok hordered
  simp only [RawRecords.tryReadBuffered, tryReadBuffered, hsub, ok_bind]
  split
  · rfl
  · next hheader =>
    have hslice : Checked.slice st.raw.data st.raw.start (st.raw.start + headerLen) =
        .ok (st.slice 0 headerLen) := slice_raw (Nat.zero_le _) (Nat.not_lt.mp hheader)
    have hfive : (st.slice 0 headerLen).length = 5 := by
      have hlen : 5 ≤ st.buffer.stop - st.buffer.start := Nat.not_lt.mp hheader
      rw [slice, List.length_drop, List.length_take]
      show min (st.buffer.start + 5) st.buffer.data.length - st.buffer.start = 5
      omega
    simp only [hslice, ok_bind]
    rw [get_ok (by omega) 0, ok_bind, get_ok (by omega) 0, ok_bind]
    split
    · rfl
    · split
      · rfl
      · next hbody =>
        rw [get_ok (by omega) 0, ok_bind]
        cases ContentType.fromU8 ((st.slice 0 headerLen).getD 0 0) with
        | none => rfl
        | some ty =>
          exact openRecord_raw (slice_body hbody) (length_body hbody) ty _

theorem compact_raw (st : BufferedRecords) :
    st.raw.compact = .ok { st with buffer := st.buffer.compact }.raw := by
  have hordered := st.buffer.ordered
  have hbound := st.buffer.bounded
  have hroom : 0 + (st.buffer.stop - st.buffer.start) ≤ st.buffer.data.length := by omega
  have hcopy : copyWithin st.raw.data st.raw.start st.raw.stop 0 =
      .ok (overwrite st.buffer.data 0 st.buffer.window) := copyWithin_ok hordered hbound hroom
  have hsub : sub st.raw.stop st.raw.start = .ok (st.buffer.stop - st.buffer.start) :=
    sub_ok hordered
  rw [RawRecords.compact]
  by_cases hstart : 0 < st.buffer.start
  · have hcompact : st.buffer.compact = _ := if_pos hstart
    rw [if_pos (show 0 < st.raw.start from hstart), hcopy, ok_bind, hsub, ok_bind, hcompact]
    rfl
  · have hcompact : st.buffer.compact = st.buffer := if_neg hstart
    rw [if_neg (show ¬ 0 < st.raw.start from hstart), hcompact]
    rfl

theorem grown_reserve (b : InboundBuffer) (need : Nat) :
    RawRecords.grown b.data need = (b.reserve need).data ∧
      need ≤ (b.reserve need).data.length ∧ (b.reserve need).stop = b.stop ∧
      (b.reserve need).start = b.start := by
  simp only [RawRecords.grown, InboundBuffer.reserve]
  split
  · exact ⟨rfl, Nat.le_of_eq (List.length_resize _ _ _).symm, rfl, rfl⟩
  · next h => exact ⟨rfl, Nat.not_lt.mp h, rfl, rfl⟩

theorem pushInbound_raw (st : BufferedRecords) (d : Bytes) :
    st.raw.pushInbound d = .ok (st.pushInbound d).raw := by
  obtain ⟨hdata, hroom, hstop, hstart⟩ :=
    grown_reserve st.buffer.compact (st.buffer.compact.stop + d.length)
  rw [RawRecords.pushInbound, compact_raw, ok_bind]
  show (copy (RawRecords.grown st.buffer.compact.data (st.buffer.compact.stop + d.length))
    st.buffer.compact.stop (st.buffer.compact.stop + d.length) d >>= fun data => _) = _
  rw [hdata, copy_ok rfl hroom, ok_bind]
  simp only [raw, pushInbound, InboundBuffer.pushInbound, InboundBuffer.extend, hstop, hstart]
  rfl

/-- Bytes that wait for more are fewer than a record may be long. -/
theorem length_of_waits {st st' : BufferedRecords} (h : st.tryReadBuffered = (.ok none, st')) :
    st' = st ∧ st.buffer.stop - st.buffer.start < headerLen + maxCiphertext := by
  have habs := st.tryReadBuffered_abs ()
  have hkeep := st.tryReadBuffered_keeps.2
  rw [h] at habs hkeep
  have hlen : (st.abs ()).inbound.length < headerLen + maxCiphertext :=
    (TlsRecordStream.tryReadBuffered_none habs).2
  exact ⟨hkeep rfl, st.buffer.length_window ▸ hlen⟩

end BufferedRecords

/-! ## Over a transport -/

/-- A call that reads the transport: the room in its buffer, and the bytes that wait. -/
structure ReadCall where
  room : Nat
  buffered : Nat

/-- There is room, and what waits is less than the longest record. -/
def ReadCall.Sound (c : ReadCall) : Prop := 0 < c.room ∧ c.buffered < headerLen + maxCiphertext

/-- A record layer over its transport, with the calls that have read it. -/
structure RecordSource where
  records : RawRecords
  transport : Transport
  calls : List ReadCall

namespace RecordSource

def new (transport : Transport) (read : Option RecordProtection) : RecordSource :=
  ⟨(BufferedRecords.new read).raw, transport, []⟩

/-- What a read into the rest of the allocation means for the record. -/
def received (records : RawRecords) (calls : List ReadCall) {cap : Nat} :
    IoResult (Filled UInt8 cap) × Transport →
      Checked (RecordSource ⊕ (Except ProxyError Record × RecordSource))
  | (.error e, transport) =>
      pure (.inr (.error (TlsRecordStream.ofRead e), ⟨records, transport, calls⟩))
  | (.ok d, transport) =>
      if d.items.isEmpty then
        pure (.inr (.error TlsRecordStream.closedMidRecord, ⟨records, transport, calls⟩))
      else do
        let data ← copy records.data records.stop (records.stop + d.items.length) d.items
        pure (.inl ⟨{ records with data, stop := records.stop + d.items.length }, transport, calls⟩)

/-- One pass of `read_record`. -/
def readPass (s : RecordSource) :
    Checked (RecordSource ⊕ (Except ProxyError Record × RecordSource)) := do
  match ← s.records.tryReadBuffered with
  | (.ok (some r), records) => pure (.inr (.ok r, { s with records }))
  | (.error e, records) => pure (.inr (.error e, { s with records }))
  | (.ok none, records) =>
      let records ← records.compact
      let room ← slice records.data records.stop records.data.length
      let calls := s.calls ++ [⟨room.length, records.stop - records.start⟩]
      received records calls (s.transport.read room.length)

/-- A reader of records that is polled, with a buffer of its own. -/
def pollReadRecord (s : RecordSource) :
    Checked (Poll (Except ProxyError Record) × RecordSource) := do
  match ← s.records.tryReadBuffered with
  | (.ok (some r), records) => pure (.ready (.ok r), { s with records })
  | (.error e, records) => pure (.ready (.error e), { s with records })
  | (.ok none, records) =>
      let calls := s.calls ++ [⟨8192, records.stop - records.start⟩]
      match pollRead s.transport 8192 with
      | (.ready (.ok d), transport) =>
          if d.items.isEmpty then
            pure (.ready (.error TlsRecordStream.closedMidRecord), ⟨records, transport, calls⟩)
          else
            let records ← records.pushInbound d.items
            match ← records.tryReadBuffered with
            | (.ok (some r), records) => pure (.ready (.ok r), ⟨records, transport, calls⟩)
            | (.ok none, records) => pure (.pending, ⟨records, transport, calls⟩)
            | (.error e, records) => pure (.ready (.error e), ⟨records, transport, calls⟩)
      | (.ready (.error e), transport) =>
          pure (.ready (.error (TlsRecordStream.ofIo e)), ⟨records, transport, calls⟩)
      | (.pending, transport) => pure (.pending, ⟨records, transport, calls⟩)

/-! ### Every record is shorter on the wire -/

/-- The number of bytes that are still to be read. -/
def size (s : RecordSource) : Nat :=
  (s.records.stop - s.records.start) + (unread s.transport.reads).length

theorem openRecord_window {st st' : RawRecords} {ty : ContentType} {header : Bytes}
    {bodyStart length : Nat} {r : Except ProxyError (Option Record)}
    (h : st.openRecord ty header bodyStart length = .ok (r, st')) :
    st'.start = st.start ∧ st'.stop = st.stop ∧ r ≠ .ok none := by
  rw [RawRecords.openRecord] at h
  split at h
  · obtain ⟨payload, -, h⟩ := bind_ok h
    cases h
    exact ⟨rfl, rfl, by intro hr; cases hr⟩
  · split at h
    · obtain ⟨payload, -, h⟩ := bind_ok h
      cases h
      exact ⟨rfl, rfl, by intro hr; cases hr⟩
    · split at h
      · cases h
        exact ⟨rfl, rfl, by intro hr; cases hr⟩
      · obtain ⟨ct, -, h⟩ := bind_ok h
        dsimp only at h
        split at h
        · cases h
          exact ⟨rfl, rfl, by intro hr; cases hr⟩
        · obtain ⟨r', -, h⟩ := bind_ok h
          cases h
          refine ⟨rfl, rfl, ?_⟩
          intro hr
          rcases r' with e | r'
          · cases hr
          · cases hr

/-- A record moves the front of the window, and waiting for one moves nothing. -/
theorem tryReadBuffered_window {st st' : RawRecords} {r : Except ProxyError (Option Record)}
    (h : st.tryReadBuffered = .ok (r, st')) :
    (r = .ok none → st' = st ∧ st.start ≤ st.stop) ∧ ∀ rec, r = .ok (some rec) →
      st'.stop - st'.start < st.stop - st.start := by
  rw [RawRecords.tryReadBuffered] at h
  obtain ⟨available, hsub, h⟩ := bind_ok h
  obtain ⟨hle, rfl⟩ := sub_inv hsub
  split at h
  · cases h
    exact ⟨fun _ => ⟨rfl, hle⟩, fun rec hr => by cases hr⟩
  · obtain ⟨header, -, h⟩ := bind_ok h
    obtain ⟨h3, -, h⟩ := bind_ok h
    obtain ⟨h4, -, h⟩ := bind_ok h
    dsimp only at h
    split at h
    · cases h
      exact ⟨fun hr => (by cases hr), fun rec hr => by cases hr⟩
    · split at h
      · cases h
        exact ⟨fun _ => ⟨rfl, hle⟩, fun rec hr => by cases hr⟩
      · next hbody =>
        obtain ⟨h0, -, h⟩ := bind_ok h
        split at h
        · cases h
          exact ⟨fun hr => (by cases hr), fun rec hr => by cases hr⟩
        · obtain ⟨hstart, hstop, hne⟩ := openRecord_window h
          refine ⟨fun hr => absurd hr hne, fun rec _ => ?_⟩
          have hfive : headerLen = 5 := rfl
          rw [hstart, hstop]
          show st.stop - (st.start + (headerLen + _)) < st.stop - st.start
          omega

theorem compact_window {st st' : RawRecords} (hle : st.start ≤ st.stop) (h : st.compact = .ok st') :
    st'.stop - st'.start = st.stop - st.start ∧ st'.start ≤ st'.stop := by
  rw [RawRecords.compact] at h
  split at h
  · obtain ⟨data, -, h⟩ := bind_ok h
    obtain ⟨stop, hsub, h⟩ := bind_ok h
    obtain ⟨-, rfl⟩ := sub_inv hsub
    cases h
    exact ⟨rfl, Nat.zero_le _⟩
  · cases h
    exact ⟨rfl, hle⟩

/-- Bytes that arrive are at hand instead of on their way. -/
theorem readPass_size {s s' : RecordSource} (h : s.readPass = .ok (.inl s')) :
    s'.size = s.size ∧ (unread s'.transport.reads).length < (unread s.transport.reads).length := by
  rw [readPass] at h
  obtain ⟨⟨r, records⟩, htry, h⟩ := bind_ok h
  have hwindow := (tryReadBuffered_window htry).1
  rcases r with e | _ | r
  · cases h
  · obtain ⟨rfl, hle⟩ := hwindow rfl
    obtain ⟨compacted, hcompact, h⟩ := bind_ok h
    obtain ⟨room, -, h⟩ := bind_ok h
    obtain ⟨hsame, hle'⟩ := compact_window hle hcompact
    rcases hread : s.transport.read room.length with ⟨e | d, t⟩
    · simp only [hread, received] at h
      cases h
    · simp only [hread, received] at h
      split at h
      · cases h
      · next hd =>
        rw [List.isEmpty_iff] at hd
        obtain ⟨data, -, h⟩ := bind_ok h
        cases h
        have hlen := List.length_pos_iff.mpr hd
        have hspec := Transport.read_spec (Nat.lt_of_lt_of_le hlen d.bound) s.transport
        rw [hread] at hspec
        cases hspec with
        | data _ hunread =>
          have hcount := congrArg List.length hunread
          rw [List.length_append] at hcount
          simp only [size]
          omega
        | eof hnil => exact absurd hnil hd
  · cases h

def readLoop : Loop RecordSource (Checked (Except ProxyError Record × RecordSource)) where
  body s := s.readPass.pass
  measure s := (unread s.transport.reads).length
  decreases h := (readPass_size (pass_inl h)).2

def readRecord (s : RecordSource) : Checked (Except ProxyError Record × RecordSource) :=
  readLoop.run s

theorem readRecord_size {s s' : RecordSource} {r : Record}
    (h : s.readRecord = .ok (.ok r, s')) : s'.size < s.size := by
  refine Loop.rule (l := readLoop)
    (P := fun s x => x = .ok (.ok r, s') → s'.size < s.size) ?_ ?_ s h
  · intro s s₁ x hpass ih hx
    rw [← (readPass_size (pass_inl hpass)).1]
    exact ih hx
  · rintro s _ hpass rfl
    rcases pass_inr hpass with ⟨e, -, he⟩ | ⟨r', hpass, hr'⟩
    · cases he
    · cases hr'
      rw [readPass] at hpass
      obtain ⟨⟨r₁, records⟩, htry, hpass⟩ := bind_ok hpass
      rcases r₁ with e | _ | r₁
      · cases hpass
      · obtain ⟨compacted, -, hpass⟩ := bind_ok hpass
        obtain ⟨room, -, hpass⟩ := bind_ok hpass
        rcases hread : s.transport.read room.length with ⟨e | d, t⟩ <;>
          simp only [hread, received] at hpass
        · cases hpass
        · split at hpass
          · cases hpass
          · obtain ⟨data, -, hpass⟩ := bind_ok hpass
            cases hpass
      · cases hpass
        have hlt := (tryReadBuffered_window htry).2 _ rfl
        simp only [size]
        omega

/-! ### Nothing faults -/

/-- The memory of a buffer in order, of at least the size it was made with, that was read only in
sound calls. -/
structure Holds (s : RecordSource) (p : BufferedRecords × Transport) : Prop where
  records : s.records = p.1.raw
  transport : s.transport = p.2
  size : TlsRecordStream.inboundSize ≤ p.1.buffer.data.length
  calls : ∀ c ∈ s.calls, c.Sound

theorem holds_new (transport : Transport) (read : Option RecordProtection) :
    (new transport read).Holds (.new read, transport) :=
  ⟨rfl, rfl, Nat.le_of_eq List.length_replicate.symm, fun _ hc => by cases hc⟩

/-- The answer of the reader of `BufferedRecords`, without a fault. -/
def Answers (out : Except ProxyError Record × BufferedRecords × Transport)
    (x : Checked (Except ProxyError Record × RecordSource)) : Prop :=
  ∃ s, x = .ok (out.1, s) ∧ s.Holds out.2

theorem holds_call {calls : List ReadCall} {call : ReadCall} (h : ∀ c ∈ calls, c.Sound)
    (hcall : call.Sound) : ∀ c ∈ calls ++ [call], c.Sound := by
  intro c hc
  rcases List.mem_append.mp hc with hc | hc
  · exact h c hc
  · rw [List.mem_singleton.mp hc]
    exact hcall

theorem received_raw {st : BufferedRecords} {calls : List ReadCall}
    (hsize : TlsRecordStream.inboundSize ≤ st.buffer.data.length) (hcalls : ∀ c ∈ calls, c.Sound)
    (r : IoResult (Filled UInt8 (st.buffer.data.length - st.buffer.stop)) × Transport) :
    Sum.LiftRel (fun p s => Holds s p) Answers (st.received r) (received st.raw calls r).pass := by
  rcases r with ⟨e | d, t⟩
  · exact .inr ⟨_, rfl, rfl, rfl, hsize, hcalls⟩
  · simp only [received, BufferedRecords.received]
    split
    · exact .inr ⟨_, rfl, rfl, rfl, hsize, hcalls⟩
    · have hbound := d.bound
      have hstop := st.buffer.bounded
      have hroom : st.raw.stop + d.items.length ≤ st.raw.data.length := by
        show st.buffer.stop + d.items.length ≤ st.buffer.data.length
        omega
      rw [copy_ok rfl hroom]
      exact .inl ⟨rfl, rfl, Nat.le_trans hsize (Nat.le_of_eq (length_overwrite hroom).symm), hcalls⟩

/-- Every pass is one over a buffer in order, and reads the transport only in a sound call. -/
theorem readPass_raw {s : RecordSource} {p : BufferedRecords × Transport} (h : s.Holds p) :
    Sum.LiftRel (fun p s => Holds s p) Answers (BufferedRecords.readPass p) s.readPass.pass := by
  obtain ⟨records, transport, calls⟩ := s
  obtain ⟨st, t⟩ := p
  obtain ⟨hrecords, htransport, hsize, hcalls⟩ := h
  obtain rfl : records = st.raw := hrecords
  obtain rfl : transport = t := htransport
  rw [readPass, BufferedRecords.tryReadBuffered_raw, ok_bind, BufferedRecords.readPass]
  have hdata := st.tryReadBuffered_keeps.1
  rcases htry : st.tryReadBuffered with ⟨e | _ | r, st₁⟩ <;> rw [htry] at hdata
  · exact .inr ⟨_, rfl, rfl, rfl, hdata ▸ hsize, hcalls⟩
  · obtain ⟨rfl, hlt⟩ := BufferedRecords.length_of_waits htry
    have hbound := st₁.buffer.compact.bounded
    have hstart : st₁.buffer.compact.start = 0 := st₁.buffer.compact_start
    have hstop : st₁.buffer.compact.stop = st₁.buffer.stop - st₁.buffer.start := by
      rw [InboundBuffer.compact_stop, InboundBuffer.length_window]
    have hsize' : TlsRecordStream.inboundSize ≤ st₁.buffer.compact.data.length := by
      rwa [InboundBuffer.compact_size]
    have hroom : slice st₁.buffer.compact.data st₁.buffer.compact.stop
        st₁.buffer.compact.data.length =
          .ok (st₁.buffer.compact.data.drop st₁.buffer.compact.stop) := by
      rw [slice_ok hbound (Nat.le_refl _), List.take_length]
    have hfree : 0 < st₁.buffer.compact.data.length - st₁.buffer.compact.stop := by
      have hmax : st₁.buffer.stop - st₁.buffer.start < 5 + (16384 + 256) := hlt
      have hinbound : 64 * 1024 ≤ st₁.buffer.compact.data.length := hsize'
      omega
    have hsound : ReadCall.Sound ⟨st₁.buffer.compact.data.length - st₁.buffer.compact.stop,
        st₁.buffer.compact.stop - st₁.buffer.compact.start⟩ := by
      refine ⟨hfree, ?_⟩
      show st₁.buffer.compact.stop - st₁.buffer.compact.start < headerLen + maxCiphertext
      rw [hstart, hstop]
      exact hlt
    dsimp only
    rw [BufferedRecords.compact_raw, ok_bind]
    show Sum.LiftRel _ _ _ (Checked.pass (slice st₁.buffer.compact.data st₁.buffer.compact.stop
      st₁.buffer.compact.data.length >>= fun room => _))
    rw [hroom, ok_bind, List.length_drop]
    exact @received_raw { st₁ with buffer := st₁.buffer.compact } _ hsize'
      (holds_call hcalls hsound) _
  · exact .inr ⟨_, rfl, rfl, rfl, hdata ▸ hsize, hcalls⟩

theorem readRecord_raw {s : RecordSource} {p : BufferedRecords × Transport} (h : s.Holds p) :
    Answers (BufferedRecords.readRecord p) s.readRecord :=
  Loop.run_sim (l := BufferedRecords.readLoop) (m := readLoop) (R := fun p s => Holds s p)
    (Q := Answers) (fun _ _ => readPass_raw) h

theorem pushInbound_size (st : BufferedRecords) (d : Bytes) :
    st.buffer.data.length ≤ (st.pushInbound d).buffer.data.length := by
  obtain ⟨hdata, hroom, hstop, hstart⟩ :=
    BufferedRecords.grown_reserve st.buffer.compact (st.buffer.compact.stop + d.length)
  have hgrown : st.buffer.compact.data.length ≤
      (st.buffer.compact.reserve (st.buffer.compact.stop + d.length)).data.length := by
    rw [← hdata, RawRecords.grown]
    split
    · next h =>
      rw [List.length_resize]
      exact Nat.le_of_lt h
    · exact Nat.le_refl _
  rw [InboundBuffer.compact_size] at hgrown
  refine Nat.le_trans hgrown (Nat.le_of_eq (length_overwrite ?_).symm)
  rw [hstop]
  exact hroom

theorem pollReadRecord_raw {s : RecordSource} {p : BufferedRecords × Transport} (h : s.Holds p) :
    ∃ r s' p', s.pollReadRecord = .ok (r, s') ∧ s'.Holds p' := by
  obtain ⟨records, transport, calls⟩ := s
  obtain ⟨st, t⟩ := p
  obtain ⟨hrecords, htransport, hsize, hcalls⟩ := h
  obtain rfl : records = st.raw := hrecords
  obtain rfl : transport = t := htransport
  rw [pollReadRecord, BufferedRecords.tryReadBuffered_raw, ok_bind]
  have hdata := st.tryReadBuffered_keeps.1
  rcases htry : st.tryReadBuffered with ⟨e | _ | r, st₁⟩ <;> rw [htry] at hdata
  · exact ⟨_, _, (st₁, transport), rfl, rfl, rfl, hdata ▸ hsize, hcalls⟩
  · obtain ⟨rfl, hlt⟩ := BufferedRecords.length_of_waits htry
    have hcall : ReadCall.Sound ⟨8192, st₁.buffer.stop - st₁.buffer.start⟩ :=
      ⟨show 0 < 8192 by decide, hlt⟩
    have hcalls' := holds_call hcalls hcall
    dsimp only
    rcases pollRead transport 8192 with ⟨_ | e | d, t⟩
    · exact ⟨_, _, (st₁, t), rfl, rfl, rfl, hsize, hcalls'⟩
    · exact ⟨_, _, (st₁, t), rfl, rfl, rfl, hsize, hcalls'⟩
    · dsimp only
      split
      · exact ⟨_, _, (st₁, t), rfl, rfl, rfl, hsize, hcalls'⟩
      · rw [BufferedRecords.pushInbound_raw, ok_bind, BufferedRecords.tryReadBuffered_raw, ok_bind]
        have hsize' := Nat.le_trans hsize (pushInbound_size st₁ d.items)
        have hdata' := (st₁.pushInbound d.items).tryReadBuffered_keeps.1
        rcases htry' : (st₁.pushInbound d.items).tryReadBuffered with ⟨e | _ | r, st₂⟩ <;>
          rw [htry'] at hdata'
        · exact ⟨_, _, (st₂, t), rfl, rfl, rfl, hdata' ▸ hsize', hcalls'⟩
        · exact ⟨_, _, (st₂, t), rfl, rfl, rfl, hdata' ▸ hsize', hcalls'⟩
        · exact ⟨_, _, (st₂, t), rfl, rfl, rfl, hdata' ▸ hsize', hcalls'⟩
  · exact ⟨_, _, (st₁, transport), rfl, rfl, rfl, hdata ▸ hsize, hcalls⟩

end RecordSource

end RustClash
