import RustClash.Proxynet.Primitives
import RustClash.Proxynet.RecordBuffer

/-!
# Records there and back

The records that one stream stages are those that another stream under the same
traffic keys cuts off the bytes, however these arrive and whichever of the two
ways they are read.
-/

namespace RustClash

namespace Reality

theorem ContentType.fromU8_toU8 (ty : ContentType) : fromU8 ty.toU8 = some ty := by
  cases ty <;> rfl

theorem ContentType.toU8_ne_zero (ty : ContentType) : ty.toU8 ≠ 0 := by
  cases ty <;> decide

/-- A record on the wire, header and body, and what is behind it. -/
theorem cutRecord_wire {read : Option RecordProtection} {b major minor : UInt8} {ty : ContentType}
    {body : Bytes} (rest : Bytes) (hty : ContentType.fromU8 b = some ty)
    (hlen : body.length ≤ maxCiphertext) :
    cutRecord read ([b, major, minor] ++ toBe16 body.length ++ body ++ rest) =
      frameOf ((holding read rest).openRecord ty ([b, major, minor] ++ toBe16 body.length) body) := by
  have hlength : ofBe16 (UInt8.ofNat (body.length / 256)) (UInt8.ofNat body.length) = body.length :=
    ofBe16_toBe16 (Nat.lt_of_le_of_lt hlen (by decide))
  generalize hheader : [b, major, minor] ++ toBe16 body.length = header
  have hfive : header.length = headerLen := by rw [← hheader]; rfl
  have h0 : header.getD 0 0 = b := by rw [← hheader]; rfl
  have h34 : ofBe16 (header.getD 3 0) (header.getD 4 0) = body.length := by
    rw [← hheader]
    exact hlength
  have htake : (header ++ body ++ rest).take headerLen = header := by
    rw [List.append_assoc, ← hfive, List.take_left' rfl]
  have hdrop : (header ++ body ++ rest).drop headerLen = body ++ rest := by
    rw [List.append_assoc, ← hfive, List.drop_left' rfl]
  refine cutRecord_eq ?_
  simp only [TlsRecordStream.tryReadBuffered, htake, hdrop, h0, h34, hty]
  rw [if_neg (by simp only [List.length_append, hfive]; omega), if_neg (by omega),
    if_neg (by simp only [List.length_append, hfive]; omega), List.take_left' rfl,
    ← List.drop_drop, hdrop, List.drop_left' rfl]

/-- A sealed record with `pad` zero bytes of padding, which a sender may add. -/
def RecordProtection.seal (p : RecordProtection) (ty : ContentType) (payload : Bytes) (pad : Nat) :
    Bytes × RecordProtection :=
  let inner := payload ++ [ty.toU8] ++ List.replicate pad 0
  let header := [ContentType.applicationData.toU8, 3, 3] ++ toBe16 (inner.length + tagLen)
  let (out, p) := p.protect inner header
  (header ++ out, p)

theorem innerRecord_seal (ty : ContentType) (payload : Bytes) (pad : Nat) :
    TlsRecordStream.innerRecord (payload ++ [ty.toU8] ++ List.replicate pad 0) =
      .ok ⟨ty, payload⟩ := by
  have hrev : (payload ++ [ty.toU8] ++ List.replicate pad 0).reverse =
      List.replicate pad 0 ++ ty.toU8 :: payload.reverse := by
    simp
  have hskip : (List.replicate pad 0 ++ ty.toU8 :: payload.reverse).dropWhile (· == 0) =
      ty.toU8 :: payload.reverse := by
    rw [List.dropWhile_append_of_pos (by simp),
      List.dropWhile_cons_of_neg (by simpa using ty.toU8_ne_zero)]
  simp only [TlsRecordStream.innerRecord, hrev, hskip, ty.fromU8_toU8, List.reverse_reverse]

theorem cut_seal {p : RecordProtection} (hp : p.aead.Lawful tagLen) (ty : ContentType)
    {payload : Bytes} {pad : Nat} (hlen : payload.length + pad ≤ maxPlaintext) (rest : Bytes) :
    recordFramer.cut (some p) ((p.seal ty payload pad).1 ++ rest) =
      .ok (some (⟨ty, payload⟩, some (p.seal ty payload pad).2, rest)) := by
  generalize hinner : payload ++ [ty.toU8] ++ List.replicate pad 0 = inner
  have hsize : inner.length ≤ maxPlaintext + 1 := by
    rw [← hinner]
    simp only [List.length_append, List.length_singleton, List.length_replicate]
    omega
  generalize hheader : [ContentType.applicationData.toU8, 3, 3] ++ toBe16 (inner.length + tagLen) =
    header
  generalize hout : p.aead.encrypt (buildNonce p.iv.bytes p.seq) header inner = out
  have hlen : out.length = inner.length + tagLen := by rw [← hout, hp.length_encrypt]
  have hopen : p.aead.decrypt (buildNonce p.iv.bytes p.seq) header out = some inner := by
    rw [← hout, hp.decrypt_encrypt]
  have hseal : p.seal ty payload pad = (header ++ out, { p with seq := p.seq + 1 }) := by
    simp only [RecordProtection.seal, RecordProtection.protect, hinner, hheader, hout]
  rw [hseal]
  show cutRecord (some p) (header ++ out ++ rest) = _
  rw [← hlen] at hheader
  have hcut := @cutRecord_wire (some p) _ 3 3 _ out rest
    (ContentType.fromU8_toU8 .applicationData) (by
      rw [hlen]
      show inner.length + 16 ≤ 16384 + 256
      have : inner.length ≤ 16384 + 1 := hsize
      omega)
  rw [hheader] at hcut
  rw [hcut]
  simp only [TlsRecordStream.openRecord, holding]
  rw [if_neg (by decide), if_neg (by rw [hlen]; omega)]
  simp only [RecordProtection.unprotect, hopen]
  have hrecord := innerRecord_seal ty payload pad
  rw [hinner] at hrecord
  show frameOf ((TlsRecordStream.innerRecord inner).map some, _) = _
  rw [hrecord]
  rfl

/-- A ChangeCipherSpec record in the clear. -/
def ccsRecord (major minor : UInt8) (payload : Bytes) : Bytes :=
  [ContentType.changeCipherSpec.toU8, major, minor] ++ toBe16 payload.length ++ payload

theorem cut_ccs (p : RecordProtection) (major minor : UInt8) {payload : Bytes}
    (hlen : payload.length ≤ maxCiphertext) (rest : Bytes) :
    recordFramer.cut (some p) (ccsRecord major minor payload ++ rest) =
      .ok (some (⟨.changeCipherSpec, payload⟩, some p, rest)) :=
  cutRecord_wire rest (ContentType.fromU8_toU8 .changeCipherSpec) hlen

end Reality

open Reality

/-! ## What is sent -/

/-- A record on the wire under traffic keys: sealed, or a ChangeCipherSpec in the clear. -/
inductive WireRecord where
  | sealed (ty : ContentType) (payload : Bytes) (pad : Nat)
  | changeCipherSpec (major minor : UInt8) (payload : Bytes)

namespace WireRecord

def record : WireRecord → Record
  | sealed ty payload _ => ⟨ty, payload⟩
  | changeCipherSpec _ _ payload => ⟨.changeCipherSpec, payload⟩

def Fits : WireRecord → Prop
  | sealed _ payload pad => payload.length + pad ≤ maxPlaintext
  | changeCipherSpec _ _ payload => payload.length ≤ maxCiphertext

instance : (r : WireRecord) → Decidable r.Fits
  | sealed _ payload pad => inferInstanceAs (Decidable (payload.length + pad ≤ maxPlaintext))
  | changeCipherSpec _ _ payload => inferInstanceAs (Decidable (payload.length ≤ maxCiphertext))

end WireRecord

/-- The bytes of a list of records, and the protection after them. -/
def Reality.RecordProtection.sealAll (p : RecordProtection) :
    List WireRecord → Bytes × RecordProtection
  | [] => ([], p)
  | .sealed ty payload pad :: records =>
      let (bytes, p) := p.seal ty payload pad
      let (rest, p) := p.sealAll records
      (bytes ++ rest, p)
  | .changeCipherSpec major minor payload :: records =>
      let (rest, p) := p.sealAll records
      (ccsRecord major minor payload ++ rest, p)

theorem Reality.RecordProtection.frames_sealAll {records : List WireRecord}
    (hfits : ∀ r ∈ records, r.Fits) {p : RecordProtection} (hp : p.aead.Lawful tagLen) :
    recordFramer.Frames (some p) (p.sealAll records).1 (records.map WireRecord.record)
      (some (p.sealAll records).2) [] := by
  induction records generalizing p with
  | nil => exact .nil
  | cons r records ih =>
    obtain ⟨hfirst, hrest⟩ := List.forall_mem_cons.mp hfits
    cases r with
    | sealed ty payload pad =>
      exact .cons (cut_seal hp ty hfirst _) (ih hrest (p := (p.seal ty payload pad).2) hp)
    | changeCipherSpec major minor payload =>
      exact .cons (cut_ccs p major minor hfirst _) (ih hrest hp)

/-- A sender stages records, and puts ChangeCipherSpec records between them. -/
inductive Sending where
  | staged (ty : ContentType) (payload : Bytes)
  | changeCipherSpec (major minor : UInt8) (payload : Bytes)

/-- Staged records have no padding. -/
def Sending.onWire : Sending → WireRecord
  | staged ty payload => .sealed ty payload 0
  | changeCipherSpec major minor payload => .changeCipherSpec major minor payload

def Sending.record (s : Sending) : Record := s.onWire.record

/-- The bytes on the wire. -/
def TlsRecordStream.wire {τ : Type} (st : TlsRecordStream τ) : List Sending → Bytes
  | [] => []
  | .staged ty payload :: sendings =>
      let (bytes, st) := st.stage ty payload
      bytes ++ st.wire sendings
  | .changeCipherSpec major minor payload :: sendings =>
      ccsRecord major minor payload ++ st.wire sendings

theorem TlsRecordStream.stage_seal {τ : Type} {st : TlsRecordStream τ} {p : RecordProtection}
    (h : st.write = some p) (ty : ContentType) (payload : Bytes) :
    st.stage ty payload =
      ((p.seal ty payload 0).1, { st with write := some (p.seal ty payload 0).2 }) := by
  simp only [stage, h, RecordProtection.seal, List.replicate_zero, List.append_nil,
    List.length_append, List.length_singleton]

theorem TlsRecordStream.wire_sealAll {τ : Type} {st : TlsRecordStream τ} {p : RecordProtection}
    (h : st.write = some p) (sendings : List Sending) :
    st.wire sendings = (p.sealAll (sendings.map Sending.onWire)).1 := by
  induction sendings generalizing st p with
  | nil => rfl
  | cons sending sendings ih =>
    cases sending with
    | staged ty payload =>
      rw [wire, stage_seal h]
      exact congrArg ((p.seal ty payload 0).1 ++ ·)
        (@ih { st with write := some (p.seal ty payload 0).2 } _ rfl)
    | changeCipherSpec major minor payload =>
      rw [wire]
      exact congrArg _ (ih h)

/-! ## Reading it -/

namespace BufferedRecords

/-- `n` records through `read_record`. -/
def readRecords : Nat → Session (BufferedRecords × Transport) ProxyError (List Record)
  | 0 => pure []
  | n + 1 => do
      let r ← readRecord
      let rs ← readRecords n
      pure (r :: rs)

/-- Records through `push_inbound` and `try_read_buffered`, called in any order. -/
def feed : List (Framer.Event UInt8) → BufferedRecords →
    Except ProxyError (List Record × BufferedRecords)
  | [], st => .ok ([], st)
  | .arrive data :: events, st => feed events (st.pushInbound data)
  | .take :: events, st =>
      match st.tryReadBuffered with
      | (.error e, _) => .error e
      | (.ok none, st) => feed events st
      | (.ok (some r), st) =>
          match feed events st with
          | .error e => .error e
          | .ok (rs, st) => .ok (r :: rs, st)

/-- The frames at hand are those of the window. -/
theorem cut_window (st : BufferedRecords) :
    recordFramer.cut st.read st.buffer.window =
      frameOf (st.tryReadBuffered.1, st.tryReadBuffered.2.abs ()) :=
  cutRecord_eq (st.tryReadBuffered_abs ())

/-- A record at the head of the bytes is read. -/
theorem readRecord_frame {st : BufferedRecords} {t : Transport} {r : Record}
    {read : Option RecordProtection} {rest : Bytes}
    (hsize : st.buffer.data.length = TlsRecordStream.inboundSize)
    (hcut : recordFramer.cut st.read (total (st, t)) = .ok (some (r, read, rest))) :
    ∃ st' t', readRecord (st, t) = (.ok r, st', t') ∧
      st'.buffer.data.length = TlsRecordStream.inboundSize ∧ st'.read = read ∧
      total (st', t') = rest := by
  obtain ⟨s, hread, hp, hl⟩ := @TlsRecordStream.readRecord_eq (st.abs t) _ _ _ hcut
  obtain ⟨hr, habs, hsize'⟩ := readRecord_refines (s := (st, t)) ⟨rfl, hsize⟩
  rw [hread] at hr habs
  rcases hbuf : readRecord (st, t) with ⟨out, st', t'⟩
  rw [hbuf] at hr habs hsize'
  obtain rfl : s = st'.abs t' := habs
  obtain rfl : Except.ok r = out := hr
  exact ⟨st', t', rfl, hsize', hp, hl⟩

theorem readRecords_frames {rs : List Record} {p' : Option RecordProtection} {rest : Bytes} :
    ∀ {st : BufferedRecords} {t : Transport},
      st.buffer.data.length = TlsRecordStream.inboundSize →
      recordFramer.Frames st.read (st.buffer.window ++ unread t.reads) rs p' rest →
      ∃ st' t', readRecords rs.length (st, t) = (.ok rs, st', t') ∧ st'.read = p' ∧
        st'.buffer.window ++ unread t'.reads = rest := by
  induction rs with
  | nil =>
    intro st t _ h
    cases h with
    | nil => exact ⟨st, t, rfl, rfl, rfl⟩
  | cons r rs ih =>
    intro st t hsize h
    obtain ⟨p₁, l₁, hcut, hframes⟩ := h.cons_inv
    obtain ⟨st₁, t₁, hread, hsize₁, rfl, rfl⟩ := readRecord_frame hsize hcut
    obtain ⟨st', t', hrun, hp', hrest⟩ := ih hsize₁ hframes
    exact ⟨st', t', Session.bind_eq hread (Session.bind_eq hrun rfl), hp', hrest⟩

/-- Reading from the buffer is feeding the framer. -/
theorem feed_framer (events : List (Framer.Event UInt8)) (st : BufferedRecords) :
    (feed events st).map (fun r => (r.1, r.2.read, r.2.buffer.window)) =
      recordFramer.feed events st.read st.buffer.window := by
  induction events generalizing st with
  | nil => rfl
  | cons event events ih =>
    cases event with
    | arrive data =>
      rw [feed, Framer.feed, ih]
      simp only [pushInbound, InboundBuffer.pushInbound_window]
    | take =>
      have hcut := st.cut_window
      rw [feed, Framer.feed, hcut]
      have hkeep := st.tryReadBuffered_keeps.2
      rcases htry : st.tryReadBuffered with ⟨e | _ | r, st'⟩
      · rfl
      · rw [htry] at hkeep
        obtain rfl : st' = st := hkeep rfl
        exact ih st'
      · have hrest : recordFramer.feed events (st'.abs ()).read (st'.abs ()).inbound = _ :=
          (ih st').symm
        simp only [frameOf, hrest]
        rcases feed events st' with e | ⟨rs, st''⟩ <;> rfl

theorem feed_ok {events : List (Framer.Event UInt8)} {st : BufferedRecords} {rs : List Record}
    {p' : Option RecordProtection} {l : Bytes}
    (h : recordFramer.feed events st.read st.buffer.window = .ok (rs, p', l)) :
    ∃ st', feed events st = .ok (rs, st') ∧ st'.read = p' ∧ st'.buffer.window = l := by
  rw [← feed_framer] at h
  rcases hfeed : feed events st with e | ⟨rs', st'⟩ <;> rw [hfeed] at h <;> cases h
  exact ⟨st', rfl, rfl, rfl⟩

end BufferedRecords

/-- The records that `encoder` stages are read in their order, with the ChangeCipherSpec
records where they were put and nothing left over: through `read_record`, and through
`push_inbound` and `try_read_buffered` whatever was taken by the way. -/
theorem BufferedRecords.read_staged {τ : Type} (encoder : TlsRecordStream τ) (p : RecordProtection)
    (hp : p.aead.Lawful tagLen) (hwrite : encoder.write = some p) (sendings : List Sending)
    (hfits : ∀ s ∈ sendings, s.onWire.Fits) :
    (∀ reads readEnd, unread reads = encoder.wire sendings →
      ∃ st t, readRecords sendings.length (.new (some p), .serving reads readEnd) =
          (.ok (sendings.map Sending.record), st, t) ∧
        st.buffer.window = [] ∧ unread t.reads = []) ∧
    (∀ events, Framer.Event.arrived events = encoder.wire sendings →
      ∃ first rest st, feed events (.new (some p)) = .ok (first, st) ∧
        sendings.map Sending.record = first ++ rest ∧
        ∃ st', feed (List.replicate rest.length .take) st = .ok (rest, st') ∧
          st'.buffer.window = []) := by
  have hframes := @RecordProtection.frames_sealAll (sendings.map Sending.onWire)
    (List.forall_mem_map.mpr hfits) p hp
  rw [← TlsRecordStream.wire_sealAll hwrite, List.map_map] at hframes
  constructor
  · intro reads readEnd hreads
    obtain ⟨st, t, hrun, -, hnil⟩ := @readRecords_frames _ _ _ (.new (some p))
      (.serving reads readEnd) List.length_replicate (hreads.symm ▸ hframes)
    rw [List.length_map] at hrun
    obtain ⟨hwindow, hunread⟩ := List.append_eq_nil_iff.mp hnil
    exact ⟨st, t, hrun, hwindow, hunread⟩
  · intro events hevents
    rw [← hevents] at hframes
    obtain ⟨first, rest, p₁, l₁, hfeed, hsplit, hrest⟩ := Framer.feed_frames (l := []) hframes
    obtain ⟨st, hrun, rfl, rfl⟩ := @feed_ok _ (.new (some p)) _ _ _ hfeed
    obtain ⟨st', hrun', -, hnil⟩ := feed_ok (Framer.feed_take hrest)
    exact ⟨first, rest, st, hrun, hsplit, st', hrun', hnil⟩

/-- An empty record, a ChangeCipherSpec and a record that ends in zeros. -/
theorem BufferedRecords.read_staged_three :
    let p : RecordProtection := ⟨⟨List.replicate 12 0, rfl⟩, keyTagged [1], 0⟩
    let encoder : TlsRecordStream Unit := { TlsRecordStream.new () with write := some p }
    let sendings : List Sending :=
      [.staged .handshake [], .changeCipherSpec 3 3 [1], .staged .applicationData [5, 0, 0]]
    (∃ st t, readRecords 3 (.new (some p), .serving (.pending :: arrive (encoder.wire sendings) []) .eof) =
        (.ok (sendings.map Sending.record), st, t) ∧ st.buffer.window = [] ∧ unread t.reads = []) ∧
      ∃ first rest st, feed [.arrive (encoder.wire sendings), .take] (.new (some p)) =
          .ok (first, st) ∧ sendings.map Sending.record = first ++ rest ∧
        ∃ st', feed (List.replicate rest.length .take) st = .ok (rest, st') ∧
          st'.buffer.window = [] := by
  intro p encoder sendings
  have h := BufferedRecords.read_staged encoder p (keyTagged_lawful _) rfl sendings (by decide)
  exact ⟨h.1 _ .eof (by rw [unread, unread_arrive]; exact List.append_nil _),
    h.2 _ (List.append_nil _)⟩

end RustClash
