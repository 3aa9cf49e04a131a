import RustClash.Proxynet.Primitives
import RustClash.Proxynet.RealityRead

/-!
# How a REALITY stream ends

A stream is over when its peer closes it with an alert, and when the transport
ends between two records.  `poll_fill` reports both as the end of the stream, and
tells them from other failures by the code of an error.  `endsHonestly_iff` says
when that code does not deceive it.
-/

namespace RustClash

open Reality

namespace RealityTlsStream

/-! ## Every stream comes to an end -/

theorem cut_waits {read : Option RecordProtection} {l : Bytes} {st : TlsRecordStream Unit}
    (h : (holding read l).tryReadBuffered = (.ok none, st)) :
    recordFramer.cut read l = .ok none := cutRecord_eq h

theorem exists_stops (n : Nat) (read : Option RecordProtection) (l : Bytes) :
    ∃ records read' l' o rest, Quiet n records ∧ recordFramer.Frames read l records read' l' ∧
      Stops (emptyAfter n records) read' l' o rest := by
  induction hlen : l.length using Nat.strongRecOn generalizing n read l with
  | _ k ih =>
    subst hlen
    cases hcut : recordFramer.cut read l with
    | error e => exact ⟨[], read, l, _, l, trivial, .nil, .refused hcut⟩
    | ok c =>
      rcases c with _ | ⟨r, read₁, l₁⟩
      · exact ⟨[], read, l, _, l, trivial, .nil, .transport hcut⟩
      · have hlt := cutRecord_shorter hcut
        cases hr : meaning r with
        | ends o => exact ⟨[], read, l, o, l₁, trivial, .nil, .record hcut hr⟩
        | data =>
          obtain ⟨records, read', l', o, rest, hquiet, hframes, hstops⟩ := ih _ hlt 0 read₁ l₁ rfl
          refine ⟨r :: records, read', l', o, rest, ?_, .cons hcut hframes, ?_⟩
          · rw [Quiet, hr]
            exact hquiet
          · rw [emptyAfter, hr]
            exact hstops
        | nothing =>
          by_cases hmax : maxEmptyRecords ≤ n
          · exact ⟨[], read, l, _, l₁, trivial, .nil, .flood hcut hr hmax⟩
          · obtain ⟨records, read', l', o, rest, hquiet, hframes, hstops⟩ :=
              ih _ hlt (n + 1) read₁ l₁ rfl
            refine ⟨r :: records, read', l', o, rest, ?_, .cons hcut hframes, ?_⟩
            · rw [Quiet, hr]
              exact ⟨Nat.not_le.mp hmax, hquiet⟩
            · rw [emptyAfter, hr]
              exact hstops

theorem exists_fills {st : RealityTlsStream Transport} (hopen : st.receivedClose = false) :
    ∃ records o rest, Fills rest st records o := by
  obtain ⟨records, read, l, o, rest, hquiet, hframes, hstops⟩ :=
    exists_stops st.emptyRecords st.records.read st.records.total
  exact ⟨records, o, rest, hopen, hquiet, read, l, hframes, hstops⟩

theorem Fills.delivers {rest : Bytes} {st : RealityTlsStream Transport} {records : List Record}
    {o : End IoError} (h : Fills rest st records o) :
    Delivers pollRead st (st.undelivered ++ applicationData records) o :=
  (fillSpec rest).delivers ⟨records, h, rfl⟩

/-! ## The peer's close and the transport's end -/

/-- The peer sent a close_notify alert that opens under the read key, and nothing before it
ends the stream. -/
def ClosedByPeer (st : RealityTlsStream Transport) : Prop :=
  ∃ records p l r read rest header body inner,
    Quiet st.emptyRecords records ∧
    recordFramer.Frames st.records.read st.records.total records (some p) l ∧
    recordFramer.cut (some p) l = .ok (some (r, read, rest)) ∧
    l = header ++ body ++ rest ∧ (p.unprotect body header).1 = .ok inner ∧
    TlsRecordStream.innerRecord inner = .ok r ∧ r.ty = .alert ∧ r.payload[1]? = some 0

/-- The bytes are records, and the transport ends behind the last of them. -/
def EndsBetweenRecords (st : RealityTlsStream Transport) : Prop :=
  st.records.transport.readEnd = .eof ∧
    ∃ records read, recordFramer.Frames st.records.read st.records.total records read []

/-- Behind whole records there are bytes that are no record yet. -/
def EndsMidRecord (st : RealityTlsStream Transport) : Prop :=
  ∃ records read l, recordFramer.Frames st.records.read st.records.total records read l ∧
    recordFramer.cut read l = .ok none ∧ l ≠ []

/-- The end of the stream is said where it is one, and is an error otherwise. -/
structure EndsHonestly (st : RealityTlsStream Transport) : Prop where
  eof : ∀ caps, NonEmptyBuffers caps → (readAll pollRead caps st).ended = some .eof →
    ClosedByPeer st ∨ EndsBetweenRecords st
  truncated : st.records.transport.readEnd ≠ .eof ∨ EndsMidRecord st → ¬ ClosedByPeer st →
    ∃ data e, Delivers pollRead st data (.error e)

/-- No record ends the stream, and the transport fails or ends in the middle of one. -/
def Truncated (st : RealityTlsStream Transport) : Prop :=
  ∃ records read l, Quiet st.emptyRecords records ∧
    recordFramer.Frames st.records.read st.records.total records read l ∧
    recordFramer.cut read l = .ok none ∧ (l ≠ [] ∨ st.records.transport.readEnd ≠ .eof)

theorem Quiet.mem {n : Nat} {records : List Record} (h : Quiet n records) {r : Record}
    (hr : r ∈ records) (o : End IoError) : meaning r ≠ .ends o := by
  induction records generalizing n with
  | nil => cases hr
  | cons r₀ records ih =>
    rw [Quiet] at h
    rcases List.mem_cons.mp hr with rfl | hr
    · intro hends
      rw [hends] at h
      exact h
    · cases hmeaning : meaning r₀ with
      | data =>
        rw [hmeaning] at h
        exact ih h hr
      | nothing =>
        rw [hmeaning] at h
        exact ih h.2 hr
      | ends o' =>
        rw [hmeaning] at h
        exact absurd h id

theorem meaning_eof {r : Record} : meaning r = .ends .eof ↔ r.ty = .alert ∧ r.payload[1]? = some 0 := by
  obtain ⟨ty, payload⟩ := r
  cases ty with
  | changeCipherSpec => simp [meaning]
  | alert =>
    simp only [meaning]
    split <;> simp_all
  | applicationData =>
    simp only [meaning]
    split <;> simp
  | handshake =>
    simp only [meaning]
    split
    · simp
    · split
      · simp
      · split <;> simp

/-- Keys stay in place. -/
theorem frames_keyed {p : RecordProtection} {read : Option RecordProtection} {l l' : Bytes}
    {records : List Record} (h : recordFramer.Frames (some p) l records read l') :
    ∃ p', read = some p' := by
  generalize hread : some p = read₀ at h
  induction h generalizing p with
  | nil => exact ⟨p, hread.symm⟩
  | cons hcut _ ih =>
    obtain ⟨header, body, -, -, hopened⟩ := cutRecord_taken hcut
    cases hopened with
    | clear => cases hread
    | changeCipherSpec => exact ih rfl
    | unsealed => exact ih rfl

/-- A record that says the stream is over came from the peer. -/
theorem closedByPeer {st : RealityTlsStream Transport} {p : RecordProtection} {records : List Record}
    {read read' : Option RecordProtection} {l rest : Bytes} {r : Record}
    (hkey : st.records.read = some p) (hquiet : Quiet st.emptyRecords records)
    (hframes : recordFramer.Frames st.records.read st.records.total records read l)
    (hcut : recordFramer.cut read l = .ok (some (r, read', rest))) (hr : meaning r = .ends .eof) :
    ClosedByPeer st := by
  obtain ⟨p', rfl⟩ := frames_keyed (hkey ▸ hframes)
  obtain ⟨hty, hpayload⟩ := meaning_eof.mp hr
  obtain ⟨header, body, -, hl, hopened⟩ := cutRecord_taken hcut
  cases hopened with
  | changeCipherSpec => cases hty
  | unsealed hinner hrecord =>
    exact ⟨records, p', l, r, _, rest, header, body, _, hquiet, hframes, hcut, hl, hinner, hrecord,
      hty, hpayload⟩

/-- A truncated stream was not closed, and does not end between records. -/
theorem Truncated.not_over {st : RealityTlsStream Transport} (h : Truncated st) :
    ¬ (ClosedByPeer st ∨ EndsBetweenRecords st) := by
  obtain ⟨records, read, l, hquiet, hframes, hwaits, hcut⟩ := h
  rintro (⟨records', p, l', r, read', rest, -, -, -, -, hframes', hcut', -, -, -, hclose⟩ |
    ⟨hend, records', read', hframes'⟩)
  · obtain ⟨cs, rfl, -⟩ := hframes.of_waits hwaits (hframes'.append (.single hcut'))
    refine hquiet.mem (r := r) ?_ .eof (meaning_eof.mpr hclose)
    exact List.mem_append_left _ (List.mem_append_right _ (List.mem_singleton_self r))
  · obtain ⟨cs, -, hcs⟩ := hframes.of_waits hwaits hframes'
    cases hcs with
    | nil => exact hcut.elim (fun hne => hne rfl) (fun hne => hne hend)
    | cons hc _ => cases (recordFramer.waits _).symm.trans hc

/-- A truncated stream is presented as complete. -/
theorem Truncated.delivers {st : RealityTlsStream Transport} (hopen : st.receivedClose = false)
    (h : Truncated st) : ∃ data, Delivers pollRead st data .eof := by
  obtain ⟨records, read, l, hquiet, hframes, hwaits, -⟩ := h
  have hfills : Fills l st records .eof := ⟨hopen, hquiet, read, l, hframes, .transport hwaits⟩
  exact ⟨_, hfills.delivers⟩

theorem Truncated.not_honest {st : RealityTlsStream Transport} (hopen : st.receivedClose = false)
    (h : Truncated st) : ¬ EndsHonestly st := by
  intro hhonest
  obtain ⟨data, hdelivers⟩ := h.delivers hopen
  obtain ⟨caps, hcaps, hend⟩ := hdelivers.exists_end
  exact h.not_over (hhonest.eof caps hcaps hend)

/-- An end that is said is the peer's close, the transport's end between records, or a
truncation. -/
theorem Fills.whole {rest : Bytes} {st : RealityTlsStream Transport} {records : List Record}
    {p : RecordProtection} (hkey : st.records.read = some p) (h : Fills rest st records .eof)
    (hwhole : ¬ Truncated st) : ClosedByPeer st ∨ EndsBetweenRecords st := by
  obtain ⟨-, hquiet, read, l, hframes, hstops⟩ := h
  cases hstops with
  | record hcut hr => exact Or.inl (closedByPeer hkey hquiet hframes hcut hr)
  | transport hcut =>
    have hnot : ¬ (rest ≠ [] ∨ st.records.transport.readEnd ≠ .eof) := fun hcut' =>
      hwhole ⟨records, read, rest, hquiet, hframes, hcut, hcut'⟩
    obtain ⟨hnil, hend⟩ := not_or.mp hnot
    rw [not_not.mp hnil] at hframes
    exact Or.inr ⟨not_not.mp hend, records, read, hframes⟩

theorem EndsBetweenRecords.whole {st : RealityTlsStream Transport} (h : EndsBetweenRecords st) :
    st.records.transport.readEnd = .eof ∧ ¬ EndsMidRecord st := by
  obtain ⟨hend, records, read, hframes⟩ := h
  refine ⟨hend, ?_⟩
  rintro ⟨records', read', l, hframes', hwaits, hne⟩
  obtain ⟨cs, -, hcs⟩ := hframes'.of_waits hwaits hframes
  cases hcs with
  | nil => exact hne rfl
  | cons hc _ => cases (recordFramer.waits _).symm.trans hc

/-- The stream says where it ends exactly when it was not cut short. -/
theorem endsHonestly_iff {st : RealityTlsStream Transport} {p : RecordProtection}
    (hkey : st.records.read = some p) (hopen : st.receivedClose = false) :
    EndsHonestly st ↔ ¬ Truncated st := by
  refine ⟨fun h htrunc => htrunc.not_honest hopen h, fun hwhole => ⟨?_, ?_⟩⟩
  · intro caps hcaps hend
    obtain ⟨records, o, rest, hfills⟩ := exists_fills hopen
    obtain ⟨-, rfl⟩ := hfills.delivers.at_end caps _ hcaps hend
    exact hfills.whole hkey hwhole
  · intro hcut hclosed
    obtain ⟨records, o, rest, hfills⟩ := exists_fills hopen
    cases o with
    | error e => exact ⟨_, e, hfills.delivers⟩
    | eof =>
      rcases hfills.whole hkey hwhole with h | h
      · exact absurd h hclosed
      · obtain ⟨hend, hmid⟩ := h.whole
        exact absurd hcut (not_or.mpr ⟨not_not.mpr hend, hmid⟩)

/-- Keys to evaluate with. -/
def tagged : RecordProtection := ⟨⟨List.replicate nonceLen 0, rfl⟩, keyTagged [], 0⟩

/-- A stream whose transport serves `reads`. -/
def serving (reads : List ReadEvent) (readEnd : End IoError) : RealityTlsStream Transport :=
  new { TlsRecordStream.new (Transport.serving reads readEnd) with read := some tagged } []

/-- The keys behind a record of data. -/
def second : RecordProtection := (tagged.seal .applicationData [1, 2] 0).2

/-- A record of data and a close_notify alert. -/
def closing : Bytes :=
  (tagged.seal .applicationData [1, 2] 0).1 ++ (second.seal .alert [1, 0] 3).1

/-- Behind data and a close_notify alert, a transport that fails in the middle of a record. -/
theorem endsHonestly_closed :
    EndsHonestly (serving (arrive (closing ++ [23, 3]) [.pending]) (.error (.other "reset"))) := by
  refine (endsHonestly_iff (p := tagged) rfl rfl).mpr fun htrunc => htrunc.not_over (.inl ?_)
  have hdata : recordFramer.Frames (some tagged) (closing ++ [23, 3])
      [⟨.applicationData, [1, 2]⟩] (some second) ((second.seal .alert [1, 0] 3).1 ++ [23, 3]) := by
    rw [closing, List.append_assoc]
    exact .single (cut_seal (keyTagged_lawful _) _ (by decide) _)
  have hclose : recordFramer.cut (some second) ((second.seal .alert [1, 0] 3).1 ++ [23, 3]) =
      .ok (some (⟨.alert, [1, 0]⟩, some (second.seal .alert [1, 0] 3).2, [23, 3])) :=
    cut_seal (keyTagged_lawful _) _ (by decide) _
  have htotal : (serving (arrive (closing ++ [23, 3]) [.pending])
      (.error (.other "reset"))).records.total = closing ++ [23, 3] := by
    show [] ++ unread (arrive (closing ++ [23, 3]) [.pending]) = _
    rw [unread_arrive]
    exact List.append_nil _
  have hquiet : Quiet 0 [⟨.applicationData, [1, 2]⟩] := trivial
  exact closedByPeer (p := tagged) rfl hquiet (htotal ▸ hdata) hclose rfl

/-- The header of a record whose body never comes. -/
theorem not_endsHonestly : ¬ EndsHonestly (serving [.data 23 [3, 3, 0, 17]] .eof) := by
  have htry : (holding (some tagged) [23, 3, 3, 0, 17]).tryReadBuffered =
      (.ok none, holding (some tagged) [23, 3, 3, 0, 17]) := by
    simp only [TlsRecordStream.tryReadBuffered]
    rw [if_neg (by decide), if_neg (by decide), if_pos (by decide)]
  exact Truncated.not_honest rfl ⟨[], some tagged, [23, 3, 3, 0, 17], trivial, .nil, cut_waits htry,
    Or.inl (List.cons_ne_nil _ _)⟩

end RealityTlsStream

end RustClash
