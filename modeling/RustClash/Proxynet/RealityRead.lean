import RustClash.Proxynet.Reality
import RustClash.Proxynet.RecordRoundTrip

/-!
# Reading from a REALITY stream

What `poll_read` makes of the records that a server sends after the handshake.
`Meaning` is what one record means to the loop of `poll_fill`; `fillSpec` is the
specification of the stream by the records that its bytes are cut into.  A
server may cut a handshake message into several records, and the meaning of each
is taken from its first byte: `readsToClose_iff` says which servers are understood.
-/

namespace RustClash

open Reality

namespace TlsRecordStream

/-- A bound on the pending answers of a record stream. -/
def stalls (st : TlsRecordStream Transport) : Nat :=
  (unread st.transport.reads).length + RustClash.stalls st.transport.reads

/-- What `poll_read_record` says of the end of its transport. -/
def ended : End IoError → ProxyError
  | .eof => closedMidRecord
  | .error e => ofIo e

/-- The answers of `poll_read_record`: what the framer makes of all the bytes, whatever
the chunks they come in. -/
inductive PollRecord (st : TlsRecordStream Transport) :
    Poll (Except ProxyError Record) × TlsRecordStream Transport → Prop
| record {r : Record} {st' : TlsRecordStream Transport} :
  recordFramer.cut st.read st.total = .ok (some (r, st'.read, st'.total)) ->
  st'.transport.readEnd = st.transport.readEnd ->
  st'.stalls ≤ st.stalls ->
  PollRecord st (.ready (.ok r), st')
| pending {st' : TlsRecordStream Transport} :
  st'.read = st.read ->
  st'.total = st.total ->
  st'.transport.readEnd = st.transport.readEnd ->
  st'.stalls < st.stalls ->
  PollRecord st (.pending, st')
| refused {e : ProxyError} {st' : TlsRecordStream Transport} :
  recordFramer.cut st.read st.total = .error e ->
  PollRecord st (.ready (.error e), st')
| ended {st' : TlsRecordStream Transport} :
  recordFramer.cut st.read st.total = .ok none ->
  st'.total = st.total ->
  PollRecord st (.ready (.error (ended st.transport.readEnd)), st')

/-- An answer from the bytes at hand is the answer for all bytes. -/
theorem tryReadBuffered_answers {st st' : TlsRecordStream Transport}
    {r : Except ProxyError (Option Record)} (h : st.tryReadBuffered = (r, st')) :
    match r with
    | .ok (some r) => PollRecord st (.ready (.ok r), st')
    | .error e => PollRecord st (.ready (.error e), st')
    | .ok none => st' = st ∧ recordFramer.cut st.read st.inbound = .ok none := by
  have htried := st.tryReadBuffered_tried
  rw [h] at htried
  cases htried with
  | waits hcut => exact ⟨rfl, hcut⟩
  | record hcut => exact .record (recordFramer.grows _ hcut) rfl (Nat.le_refl _)
  | error hcut => exact .refused (recordFramer.fails _ hcut)

/-- What is so once more bytes are at hand was so before. -/
theorem PollRecord.of_more {st st₁ : TlsRecordStream Transport}
    {out : Poll (Except ProxyError Record) × TlsRecordStream Transport}
    (hread : st₁.read = st.read) (htotal : st₁.total = st.total)
    (hend : st₁.transport.readEnd = st.transport.readEnd) (hlt : st₁.stalls < st.stalls)
    (h : PollRecord st₁ out) : PollRecord st out := by
  cases h with
  | record hcut hend' hle =>
    rw [hread, htotal] at hcut
    exact .record hcut (hend'.trans hend) (Nat.le_trans hle (Nat.le_of_lt hlt))
  | pending hread' htotal' hend' hlt' =>
    exact .pending (hread'.trans hread) (htotal'.trans htotal) (hend'.trans hend)
      (Nat.lt_trans hlt' hlt)
  | refused hcut =>
    rw [hread, htotal] at hcut
    exact .refused hcut
  | ended hcut htotal' =>
    rw [hread, htotal] at hcut
    rw [hend]
    exact .ended hcut (htotal'.trans htotal)

theorem pollReadRecord_spec (st : TlsRecordStream Transport) : PollRecord st st.pollReadRecord := by
  simp only [pollReadRecord]
  rcases htry : st.tryReadBuffered with ⟨e | _ | r, st'⟩ <;> have hanswer := tryReadBuffered_answers htry
  · exact hanswer
  · obtain ⟨rfl, hcut⟩ := hanswer
    simp only
    have hpoll := st'.transport.pollRead_polled 8192
    rcases hp : pollRead st'.transport 8192 with ⟨_ | e | d, t⟩ <;> rw [hp] at hpoll <;> simp only
    · cases hpoll with
      | pending reads hreads =>
        refine .pending rfl ?_ rfl ?_
        · rw [total, total, hreads]
          rfl
        · rw [stalls, stalls, hreads]
          exact Nat.lt_succ_self _
    · cases hpoll with
      | error _ hreads hend =>
        have hcut' : recordFramer.cut st'.read st'.total = .ok none := by
          rw [total, hreads, unread, List.append_nil]
          exact hcut
        have hend' := PollRecord.ended hcut' (rfl : st'.total = st'.total)
        rwa [hend] at hend'
    · cases hpoll with
      | eof hreads hend =>
        have hcut' : recordFramer.cut st'.read st'.total = .ok none := by
          rw [total, hreads, unread, List.append_nil]
          exact hcut
        have hend' := PollRecord.ended hcut' (rfl : st'.total = st'.total)
        rwa [hend] at hend'
      | data l reads hl hreads =>
        have hne : (Filled.fill 8192 l).items ≠ [] := by
          obtain ⟨b, bs, rfl⟩ := List.exists_cons_of_ne_nil hl
          exact List.cons_ne_nil _ _
        obtain ⟨hunread, hend, hstalls, -, -⟩ := Transport.read_places (Nat.le_refl _) hp hne
        rw [if_neg (by rwa [List.isEmpty_iff])]
        generalize hst : { st' with transport := _ }.pushInbound _ = st₁
        have htotal : st₁.total = st'.total := by
          rw [← hst]
          simp only [total, pushInbound, hunread, List.append_assoc]
        have hlt : st₁.stalls < st'.stalls := by
          rw [← hst]
          simp only [stalls, pushInbound, hunread, hstalls, List.length_append]
          have := List.length_pos_iff.mpr hne
          omega
        have hread : st₁.read = st'.read := by rw [← hst]; rfl
        have hend' : st₁.transport.readEnd = st'.transport.readEnd := by rw [← hst]; exact hend
        rcases htry : st₁.tryReadBuffered with ⟨e | _ | r, st₂⟩ <;>
          have hanswer := tryReadBuffered_answers htry
        · exact hanswer.of_more hread htotal hend' hlt
        · obtain ⟨rfl, -⟩ := hanswer
          exact .pending hread htotal hend' hlt
        · exact hanswer.of_more hread htotal hend' hlt
  · exact hanswer

end TlsRecordStream

namespace RealityTlsStream

/-! ## What a record means -/

/-- Data, nothing to deliver, or the end of the stream. -/
inductive Meaning where
  | data
  | nothing
  | ends (o : End IoError)

/-- What a record means to the loop of `poll_fill`. -/
def meaning (r : Record) : Meaning :=
  match r.ty with
  | .applicationData => if r.payload.isEmpty then .nothing else .data
  | .changeCipherSpec => .nothing
  | .handshake =>
      match r.payload.head? with
      | none => .nothing
      | some message =>
          if message = handshakeKeyUpdate then .ends (.error keyUpdate)
          else if message = handshakeNewSessionTicket then .nothing
          else .ends (.error (unexpectedMessage message))
  | .alert => if r.payload[1]? = some 0 then .ends .eof else .ends (.error tlsAlert)

/-- The bytes that were opened and not delivered yet. -/
def undelivered {τ : Type} (st : RealityTlsStream τ) : Bytes := st.pending.drop st.pendingOff

theorem takePending_fill {τ : Type} (st : RealityTlsStream τ) (cap : Nat) :
    (st.takePending cap).1 = .fill cap st.undelivered := rfl

theorem takePending_undelivered {τ : Type} (st : RealityTlsStream τ) (cap : Nat) :
    (st.takePending cap).2.undelivered = st.undelivered.drop cap := by
  simp only [undelivered, takePending, Filled.fill_items, ← List.drop_drop, List.length_take]
  rcases Nat.le_total cap (st.pending.drop st.pendingOff).length with hle | hle
  · rw [Nat.min_eq_left hle]
  · rw [Nat.min_eq_right hle, List.drop_length, List.drop_eq_nil_of_le hle]

theorem passRecord_eq {τ : Type} (cap : Nat) (st : RealityTlsStream τ) (r : Record) :
    st.passRecord cap r =
      match meaning r with
      | .data =>
          let st := { st with emptyRecords := 0, pending := r.payload, pendingOff := 0 }
          .inr (.ready (.ok (st.takePending cap).1), (st.takePending cap).2)
      | .nothing => st.countEmpty cap
      | .ends .eof => .inr (.ready (.ok (.empty cap)), { st with receivedClose := true })
      | .ends (.error e) => .inr (.ready (.error e), st) := by
  obtain ⟨ty, payload⟩ := r
  cases ty with
  | changeCipherSpec => rfl
  | alert =>
    simp only [passRecord, meaning]
    split <;> rfl
  | handshake =>
    cases payload with
    | nil => rfl
    | cons message payload =>
      simp only [passRecord, meaning, List.head?_cons]
      split
      · rfl
      · split <;> rfl
  | applicationData =>
    simp only [passRecord, meaning]
    split <;> rfl

/-- The application data of records. -/
def applicationData (records : List Record) : Bytes :=
  (records.filter (·.ty = .applicationData)).flatMap (·.payload)

theorem applicationData_append (xs ys : List Record) :
    applicationData (xs ++ ys) = applicationData xs ++ applicationData ys := by
  simp only [applicationData, List.filter_append, List.flatMap_append]

/-- Records none of which ends the stream, after `n` without application data. -/
def Quiet : Nat → List Record → Prop
  | _, [] => True
  | n, r :: records =>
      match meaning r with
      | .data => Quiet 0 records
      | .nothing => n + 1 ≤ maxEmptyRecords ∧ Quiet (n + 1) records
      | .ends _ => False

/-- The number of records without application data in a row after `records`, when there
were `n` of them before. -/
def emptyAfter : Nat → List Record → Nat
  | n, [] => n
  | n, r :: records =>
      match meaning r with
      | .data => emptyAfter 0 records
      | _ => emptyAfter (n + 1) records

/-- What stops the loop of `poll_fill` at the bytes `l`, after `n` records without
application data: the end `o` it comes to, and the bytes `rest` behind. -/
inductive Stops (n : Nat) (read : Option RecordProtection) (l : Bytes) :
    End IoError → Bytes → Prop
| record {r : Record} {read' : Option RecordProtection} {o : End IoError} {rest : Bytes} :
  recordFramer.cut read l = .ok (some (r, read', rest)) ->
  meaning r = .ends o ->
  Stops n read l o rest
| flood {r : Record} {read' : Option RecordProtection} {rest : Bytes} :
  recordFramer.cut read l = .ok (some (r, read', rest)) ->
  meaning r = .nothing ->
  maxEmptyRecords ≤ n ->
  Stops n read l (.error tooManyEmpty) rest
| refused {e : ProxyError} :
  recordFramer.cut read l = .error e ->
  Stops n read l (.error e.toIo) l
| transport :
  recordFramer.cut read l = .ok none ->
  Stops n read l .eof l

/-- The records `records` do not end the stream, and what follows them comes to `o` before
`rest`. -/
structure Fills (rest : Bytes) (st : RealityTlsStream Transport) (records : List Record)
    (o : End IoError) : Prop where
  opened : st.receivedClose = false
  quiet : Quiet st.emptyRecords records
  frames : ∃ read l, recordFramer.Frames st.records.read st.records.total records read l ∧
    Stops (emptyAfter st.emptyRecords records) read l o rest

/-- A record that ends the stream. -/
theorem Fills.of_last {rest : Bytes} {st : RealityTlsStream Transport} {records : List Record}
    {last : Record} {read : Option RecordProtection} {o : End IoError}
    (hopen : st.receivedClose = false) (hquiet : Quiet st.emptyRecords records)
    (hlast : meaning last = .ends o)
    (hframes : recordFramer.Frames st.records.read st.records.total (records ++ [last]) read rest) :
    Fills rest st records o := by
  obtain ⟨read', l, hrecords, hend⟩ := hframes.split
  obtain ⟨read'', l', hcut, hnil⟩ := hend.cons_inv
  cases hnil
  exact ⟨hopen, hquiet, read', l, hrecords, .record hcut hlast⟩

theorem meaning_data {r : Record} (h : meaning r = .data) :
    r.payload ≠ [] ∧ ∀ records, applicationData (r :: records) = r.payload ++ applicationData records := by
  obtain ⟨ty, payload⟩ := r
  cases ty with
  | applicationData =>
    simp only [meaning] at h
    split at h
    · cases h
    · next hne => exact ⟨by rwa [List.isEmpty_iff] at hne, fun records => rfl⟩
  | changeCipherSpec => cases h
  | handshake =>
    simp only [meaning] at h
    split at h
    · cases h
    · split at h
      · cases h
      · split at h <;> cases h
  | alert =>
    simp only [meaning] at h
    split at h <;> cases h

theorem meaning_nothing {r : Record} (h : meaning r = .nothing) (records : List Record) :
    applicationData (r :: records) = applicationData records := by
  obtain ⟨ty, payload⟩ := r
  cases ty with
  | applicationData =>
    simp only [meaning] at h
    split at h
    · next hnil =>
      rw [List.isEmpty_iff] at hnil
      rw [hnil]
      rfl
    · cases h
  | _ => rfl

/-- What a stream yields whose bytes are such records. -/
def FillYields (rest : Bytes) (st : RealityTlsStream Transport) (items : Bytes)
    (o : End IoError) : Prop :=
  ∃ records, Fills rest st records o ∧ items = st.undelivered ++ applicationData records

def stalls (st : RealityTlsStream Transport) : Nat := st.records.stalls

/-- An answer that says the stream is at its end, with `rest` behind it. -/
def EndsAt (rest : Bytes) {cap : Nat} (r : Answer UInt8 IoError cap × RealityTlsStream Transport) :
    Prop :=
  ∀ d st', r = (.ready (.ok d), st') → d.items = [] → st'.records.total = rest

/-- What a pass comes to that starts at `st` with `items` and the end `o` still to come. -/
inductive PassFills (rest : Bytes) (st : RealityTlsStream Transport) (items : Bytes)
    (o : End IoError) {cap : Nat} : Pass Transport cap → Prop
| again {st' : RealityTlsStream Transport} :
  FillYields rest st' items o ->
  stalls st' ≤ stalls st ->
  st'.undelivered = [] ->
  PassFills rest st items o (.inl st')
| answer {r : Answer UInt8 IoError cap × RealityTlsStream Transport} :
  Leaves (FillYields rest) stalls st items o r ->
  EndsAt rest r ->
  PassFills rest st items o (.inr r)

/-- An answer with data in it. -/
theorem passFills_data {rest : Bytes} {st st' : RealityTlsStream Transport} {records : List Record}
    {o : End IoError} {cap : Nat} {l : Bytes} (hl : l ≠ []) (hcap : 0 < cap)
    (hfills : Fills rest st' records o) (hleft : st'.undelivered = l.drop cap)
    (hle : stalls st' ≤ stalls st) :
    PassFills rest st (l ++ applicationData records) o
      (.inr (.ready (.ok (.fill cap l)), st') : Pass Transport cap) := by
  refine .answer (leaves_fill hl hcap ⟨records, hfills, by rw [hleft]⟩ hle) ?_
  rintro d st'' hr hd
  cases hr
  rw [Filled.fill_items, List.take_eq_nil_iff] at hd
  exact absurd hd (not_or.mpr ⟨Nat.ne_of_gt hcap, hl⟩)

/-- A record that ends the stream. -/
theorem passFills_end {rest : Bytes} {st st' : RealityTlsStream Transport} {r : Record}
    {o : End IoError} {cap : Nat} (hr : meaning r = .ends o) (htotal : st'.records.total = rest) :
    PassFills rest st [] o (st'.passRecord cap r) := by
  rw [passRecord_eq, hr]
  cases o with
  | eof =>
    refine .answer ((leaves_eof_iff (Filled.empty_items cap)).mpr ⟨rfl, rfl⟩) ?_
    rintro d st'' h -
    cases h
    exact htotal
  | error e =>
    refine .answer ⟨rfl, rfl⟩ ?_
    rintro d st'' h
    cases h

/-- An error is the last answer. -/
theorem passFills_error {rest : Bytes} {st st' : RealityTlsStream Transport} {e : IoError}
    {cap : Nat} : PassFills rest st [] (.error e)
      (.inr (.ready (.error e), st') : Pass Transport cap) := by
  refine .answer ⟨rfl, rfl⟩ ?_
  rintro d st'' h
  cases h

theorem code_ended (o : End IoError) :
    (TlsRecordStream.ended o).code = .connectionFailed := by
  cases o <;> rfl

/-- One pass where the loop stops. -/
theorem passFill_stops {rest : Bytes} {st : RealityTlsStream Transport} {o : End IoError}
    {cap : Nat} (hopen : st.receivedClose = false) (hnil : st.undelivered = [])
    (h : Stops st.emptyRecords st.records.read st.records.total o rest) :
    PassFills rest st [] o (st.passFill cap) := by
  have hpoll := st.records.pollReadRecord_spec
  simp only [passFill]
  rcases hp : st.records.pollReadRecord with ⟨_ | e | r, recs⟩ <;> rw [hp] at hpoll <;> simp only
  · cases hpoll with
    | pending hread htotal _ hlt =>
      refine .answer ⟨⟨[], ⟨hopen, trivial, _, _, .nil, ?_⟩, ?_⟩, hlt⟩ ?_
      · show Stops st.emptyRecords recs.read recs.total o rest
        rw [hread, htotal]
        exact h
      · exact (congrArg (· ++ applicationData []) hnil).symm
      · intro d st' h
        cases h
  · cases hpoll with
    | refused hcut =>
      rw [if_neg (cutRecord_refused hcut)]
      cases h with
      | refused hcut' =>
        cases hcut.symm.trans hcut'
        exact passFills_error
      | record hcut' => cases hcut.symm.trans hcut'
      | flood hcut' => cases hcut.symm.trans hcut'
      | transport hcut' => cases hcut.symm.trans hcut'
    | ended hcut htotal =>
      rw [if_pos (code_ended _)]
      cases h with
      | transport hcut' =>
        refine .answer ((leaves_eof_iff (Filled.empty_items cap)).mpr ⟨rfl, rfl⟩) ?_
        rintro d st' h -
        cases h
        exact htotal
      | record hcut' => cases hcut.symm.trans hcut'
      | flood hcut' => cases hcut.symm.trans hcut'
      | refused hcut' => cases hcut.symm.trans hcut'
  · cases hpoll with
    | record hcut =>
      cases h with
      | record hcut' hr =>
        cases hcut.symm.trans hcut'
        exact passFills_end hr rfl
      | flood hcut' hr hmax =>
        cases hcut.symm.trans hcut'
        rw [passRecord_eq, hr]
        simp only [countEmpty]
        rw [if_pos (Nat.lt_succ_of_le hmax)]
        exact passFills_error
      | refused hcut' => cases hcut.symm.trans hcut'
      | transport hcut' => cases hcut.symm.trans hcut'

/-- One pass, once everything that was opened is delivered. -/
theorem passFill_fills {rest : Bytes} {st : RealityTlsStream Transport} {items : Bytes}
    {o : End IoError} {cap : Nat} (hnil : st.undelivered = [])
    (h : FillYields rest st items o) (hcap : 0 < cap) :
    PassFills rest st items o (st.passFill cap) := by
  obtain ⟨records, ⟨hopen, hquiet, read', l, hframes, hstops⟩, rfl⟩ := h
  rw [hnil, List.nil_append]
  cases records with
  | nil =>
    cases hframes
    exact passFill_stops hopen hnil hstops
  | cons r records =>
    obtain ⟨read₁, rest₁, hcut, hmore⟩ := hframes.cons_inv
    have hpoll := st.records.pollReadRecord_spec
    simp only [passFill]
    rcases hp : st.records.pollReadRecord with ⟨_ | e | r', recs⟩ <;> rw [hp] at hpoll <;> simp only
    · cases hpoll with
      | pending hread htotal _ hlt =>
        refine .answer ⟨⟨r :: records, ⟨hopen, hquiet, read', l, ?_, hstops⟩, ?_⟩, hlt⟩ ?_
        · rw [hread, htotal]
          exact hframes
        · exact (congrArg (· ++ applicationData (r :: records)) hnil).symm
        · intro d st' h
          cases h
    · cases hpoll with
      | refused hcut' => cases hcut'.symm.trans hcut
      | ended hcut' => cases hcut'.symm.trans hcut
    · cases hpoll with
      | record hcut' _ hle =>
        obtain ⟨rfl, rfl, rfl⟩ : r = r' ∧ read₁ = recs.read ∧ rest₁ = recs.total := by
          simpa using hcut.symm.trans hcut'
        rw [passRecord_eq]
        rw [Quiet] at hquiet
        rw [emptyAfter] at hstops
        cases hmeaning : meaning r with
        | data =>
          rw [hmeaning] at hquiet hstops
          obtain ⟨hne, hdata⟩ := meaning_data hmeaning
          rw [hdata]
          simp only [takePending_fill]
          exact passFills_data hne hcap ⟨hopen, hquiet, read', l, hmore, hstops⟩
            (takePending_undelivered _ cap) hle
        | nothing =>
          rw [hmeaning] at hquiet hstops
          rw [meaning_nothing hmeaning]
          simp only [countEmpty]
          rw [if_neg (Nat.not_lt.mpr hquiet.1)]
          refine .again ⟨records, ⟨hopen, hquiet.2, read', l, hmore, hstops⟩, ?_⟩ hle hnil
          exact (congrArg (· ++ applicationData records) hnil).symm
        | ends o' =>
          rw [hmeaning] at hquiet
          exact absurd hquiet id

/-- The loop of `poll_fill`. -/
theorem fillLoop_leaves {rest : Bytes} {st : RealityTlsStream Transport} {items : Bytes}
    {o : End IoError} {cap : Nat} (hnil : st.undelivered = [])
    (h : FillYields rest st items o) (hcap : 0 < cap) :
    Leaves (FillYields rest) stalls st items o ((fillLoop Transport cap).run st) ∧
      EndsAt rest ((fillLoop Transport cap).run st) := by
  refine Loop.rule (l := fillLoop Transport cap) (P := fun st r => st.undelivered = [] →
    FillYields rest st items o →
      Leaves (FillYields rest) stalls st items o r ∧ EndsAt rest r) ?_ ?_ st hnil h
  · intro st st' r hb ih hnil hy
    have hpass := passFill_fills hnil hy hcap
    rw [show st.passFill cap = .inl st' from hb] at hpass
    cases hpass with
    | again hy' hle hnil' =>
      obtain ⟨hleaves, hend⟩ := ih hnil' hy'
      exact ⟨hleaves.mono hle, hend⟩
  · intro st r hb hnil hy
    have hpass := passFill_fills hnil hy hcap
    rw [show st.passFill cap = .inr r from hb] at hpass
    cases hpass with
    | answer hleaves hend => exact ⟨hleaves, hend⟩

/-- A poll, whatever was delivered before it. -/
theorem pollRead_leaves {rest : Bytes} {st : RealityTlsStream Transport} {items : Bytes}
    {o : End IoError} {cap : Nat} (h : FillYields rest st items o) (hcap : 0 < cap) :
    Leaves (FillYields rest) stalls st items o (pollRead st cap) ∧ EndsAt rest (pollRead st cap) := by
  obtain ⟨records, hfills, rfl⟩ := h
  simp only [pollRead]
  rw [if_neg (Nat.ne_of_gt hcap)]
  have hitems : (st.takePending cap).1.items = st.undelivered.take cap := rfl
  by_cases hnil : st.undelivered = []
  · have hsame : (st.takePending cap).2 = st := by
      rw [undelivered] at hnil
      simp only [takePending, hnil, Filled.fill_items, List.take_nil]
      rfl
    rw [hitems, hnil, List.take_nil, hsame, hfills.opened]
    exact fillLoop_leaves hnil ⟨records, hfills, by rw [hnil]⟩ hcap
  · have htake : st.undelivered.take cap ≠ [] := by
      rw [ne_eq, List.take_eq_nil_iff]
      exact not_or.mpr ⟨Nat.ne_of_gt hcap, hnil⟩
    rw [if_pos (by rw [hitems]; simpa using htake)]
    rw [takePending_fill]
    refine ⟨leaves_fill hnil hcap ⟨records, ⟨hfills.opened, hfills.quiet, hfills.frames⟩, ?_⟩
      (Nat.le_refl _), ?_⟩
    · rw [takePending_undelivered]
    · rintro d st' hr hd
      cases hr
      exact absurd hd htake

/-- Whatever the chunks and the buffers, the stream yields what its records carry. -/
def fillSpec (rest : Bytes) :
    ReadSpec (pollRead : ReadFn (RealityTlsStream Transport) UInt8 IoError) where
  Yields := FillYields rest
  stalls := stalls
  leaves hy hcap := (pollRead_leaves hy hcap).1

end RealityTlsStream

end RustClash
