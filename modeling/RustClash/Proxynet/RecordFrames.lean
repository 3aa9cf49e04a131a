import RustClash.Lib.Framing
import RustClash.Proxynet.Record

/-!
# Records as frames

`tryReadBuffered` cuts records off the bytes at hand: it is a framer, whose state
is the read protection.
-/

namespace RustClash

namespace Reality

/-- A stream with nothing but bytes at hand. -/
abbrev holding (read : Option RecordProtection) (inbound : Bytes) : TlsRecordStream Unit :=
  { TlsRecordStream.new () with inbound, read }

/-- The frame that an answer of `tryReadBuffered` is. -/
def frameOf : Except ProxyError (Option Record) × TlsRecordStream Unit →
    Except ProxyError (Option (Record × Option RecordProtection × Bytes))
  | (.error e, _) => .error e
  | (.ok none, _) => .ok none
  | (.ok (some r), st) => .ok (some (r, st.read, st.inbound))

/-- What `tryReadBuffered` makes of the bytes `inbound` under `read`. -/
def cutRecord (read : Option RecordProtection) (inbound : Bytes) :
    Except ProxyError (Option (Record × Option RecordProtection × Bytes)) :=
  frameOf (holding read inbound).tryReadBuffered

end Reality

open Reality

namespace TlsRecordStream

variable {τ : Type}

/-- The protection alone decides, and nothing else changes. -/
theorem openRecord_eq (st : TlsRecordStream τ) (ty : ContentType) (header body : Bytes) :
    let r := (holding st.read []).openRecord ty header body
    st.openRecord ty header body = (r.1, { st with read := r.2.read }) := by
  rcases st with ⟨transport, inbound, outbound, outboundOff, outboundPlain, write, _ | read⟩
  · rfl
  · simp only [openRecord]
    split
    · rfl
    · split
      · rfl
      · rfl

theorem tryReadBuffered_eq (st : TlsRecordStream τ) :
    let r := (holding st.read st.inbound).tryReadBuffered
    st.tryReadBuffered = (r.1, { st with inbound := r.2.inbound, read := r.2.read }) := by
  simp only [tryReadBuffered]
  split
  · rfl
  · split
    · rfl
    · split
      · rfl
      · split
        · rfl
        · next ty _ =>
          generalize List.drop (headerLen + _) st.inbound = rest
          rw [openRecord_eq, openRecord_eq { holding st.read st.inbound with inbound := rest }]

theorem openRecord_ne_none (st : TlsRecordStream τ) (ty : ContentType) (header body : Bytes) :
    (st.openRecord ty header body).1 ≠ .ok none := by
  have hmap : ∀ x : Except ProxyError Record, x.map some ≠ .ok none := by
    rintro (e | r) h <;> cases h
  simp only [openRecord]
  split
  · exact nofun
  · split
    · exact nofun
    · split
      · exact nofun
      · exact hmap _

/-- Bytes that do not suffice stay as they are, and are fewer than a record may be long. -/
theorem tryReadBuffered_none {st st' : TlsRecordStream τ}
    (h : st.tryReadBuffered = (.ok none, st')) :
    st' = st ∧ st.inbound.length < headerLen + maxCiphertext := by
  simp only [tryReadBuffered] at h
  split at h
  · next hlen =>
    cases h
    exact ⟨rfl, Nat.lt_of_lt_of_le hlen (Nat.le_add_right _ _)⟩
  · split at h
    · cases h
    · next hbig =>
      split at h
      · next hbody =>
        cases h
        exact ⟨rfl, Nat.lt_of_lt_of_le hbody (Nat.add_le_add_left (Nat.not_lt.mp hbig) _)⟩
      · split at h
        · cases h
        · exact absurd (congrArg Prod.fst h) (openRecord_ne_none _ _ _ _)

/-- An answer stays the answer when more bytes are there. -/
theorem tryReadBuffered_grow (st : TlsRecordStream τ) {st' : TlsRecordStream τ}
    {r : Except ProxyError (Option Record)} (more : Bytes) (h : st.tryReadBuffered = (r, st')) (hr : r ≠ .ok none) :
    { st with inbound := st.inbound ++ more }.tryReadBuffered =
      (r, { st' with inbound := st'.inbound ++ more }) := by
  simp only [tryReadBuffered] at h ⊢
  split at h
  · cases h
    exact absurd rfl hr
  · next hlen =>
    rw [if_neg (by rw [List.length_append]; omega),
      List.take_append_of_le_length (Nat.not_lt.mp hlen)]
    split at h
    · next hbig =>
      cases h
      rw [if_pos hbig]
    · next hbig =>
      rw [if_neg hbig]
      split at h
      · cases h
        exact absurd rfl hr
      · next hbody =>
        rw [if_neg (by rw [List.length_append]; omega)]
        split at h
        · next hty =>
          cases h
          rfl
        · next ty hty =>
          rw [List.drop_append_of_le_length (Nat.not_lt.mp hbody),
            List.drop_append_of_le_length (Nat.not_lt.mp hlen),
            List.take_append_of_le_length (by rw [List.length_drop]; omega)]
          rw [openRecord_eq] at h ⊢
          cases h
          rfl

theorem innerRecord_refused {inner : Bytes} {e : ProxyError} (h : innerRecord inner = .error e) :
    e.code ≠ .connectionFailed := by
  simp only [innerRecord] at h
  split at h
  · cases h
    exact nofun
  · split at h
    · cases h
    · cases h
      exact nofun

theorem unprotect_refused {p : RecordProtection} {sealed header : Bytes} {e : ProxyError}
    (h : (p.unprotect sealed header).1 = .error e) : e.code ≠ .connectionFailed := by
  simp only [RecordProtection.unprotect] at h
  split at h
  · cases h
  · cases h
    exact nofun

theorem openRecord_refused {st : TlsRecordStream τ} {ty : ContentType} {header body : Bytes}
    {e : ProxyError} (h : (st.openRecord ty header body).1 = .error e) :
    e.code ≠ .connectionFailed := by
  simp only [openRecord] at h
  split at h
  · cases h
  · next p hread =>
    split at h
    · cases h
    · split at h
      · cases h
        exact nofun
      · cases hopened : (p.unprotect body header).1 with
        | error e' =>
          simp only [hopened, bind, Except.bind, Except.map] at h
          cases h
          exact unprotect_refused hopened
        | ok inner =>
          cases hrecord : innerRecord inner with
          | error e' =>
            simp only [hopened, bind, Except.bind, Except.map, hrecord] at h
            cases h
            exact innerRecord_refused hrecord
          | ok r =>
            simp only [hopened, bind, Except.bind, Except.map, hrecord] at h
            cases h

theorem tryReadBuffered_refused {st : TlsRecordStream τ} {e : ProxyError}
    (h : st.tryReadBuffered.1 = .error e) : e.code ≠ .connectionFailed := by
  simp only [tryReadBuffered] at h
  split at h
  · cases h
  · split at h
    · cases h
      exact nofun
    · split at h
      · cases h
      · split at h
        · cases h
          exact nofun
        · exact openRecord_refused h

/-- What a record is made of: an encrypted one of what its body opens to. -/
inductive Opened (header body : Bytes) :
    Option RecordProtection → Record → Option RecordProtection → Prop
| clear {ty : ContentType} : Opened header body none ⟨ty, body⟩ none
| changeCipherSpec {p : RecordProtection} :
  Opened header body (some p) ⟨.changeCipherSpec, body⟩ (some p)
| unsealed {p : RecordProtection} {inner : Bytes} {r : Record} :
  (p.unprotect body header).1 = .ok inner ->
  innerRecord inner = .ok r ->
  Opened header body (some p) r (some (p.unprotect body header).2)

theorem openRecord_opened {st st' : TlsRecordStream τ} {ty : ContentType} {header body : Bytes}
    {r : Record} (h : st.openRecord ty header body = (.ok (some r), st')) :
    Opened header body st.read r st'.read ∧ st'.inbound = st.inbound := by
  simp only [openRecord] at h
  split at h
  · next hread =>
    cases h
    rw [hread]
    exact ⟨.clear, rfl⟩
  · next p hread =>
    rw [hread]
    split at h
    · next hty =>
      cases h
      rw [hread, hty]
      exact ⟨.changeCipherSpec, rfl⟩
    · split at h
      · cases h
      · obtain ⟨hopened, rfl⟩ := Prod.mk.injEq _ _ _ _ ▸ h
        cases hinner : (p.unprotect body header).1 with
        | error e =>
          rw [hinner] at hopened
          cases hopened
        | ok inner =>
          rw [hinner] at hopened
          cases hrecord : innerRecord inner with
          | error e =>
            simp only [bind, Except.bind, hrecord] at hopened
            cases hopened
          | ok r' =>
            simp only [bind, Except.bind, hrecord] at hopened
            cases hopened
            exact ⟨.unsealed hinner hrecord, rfl⟩

/-- A record comes off the front with its header and its body. -/
theorem tryReadBuffered_taken {st st' : TlsRecordStream τ} {r : Record}
    (h : st.tryReadBuffered = (.ok (some r), st')) :
    ∃ header body, header.length = headerLen ∧ st.inbound = header ++ body ++ st'.inbound ∧
      Opened header body st.read r st'.read := by
  simp only [tryReadBuffered] at h
  split at h
  · cases h
  · next hlen =>
    split at h
    · cases h
    · split at h
      · cases h
      · split at h
        · cases h
        · obtain ⟨hopened, hinbound⟩ := openRecord_opened h
          refine ⟨_, _, ?_, ?_, hopened⟩
          · rw [List.length_take]
            omega
          · rw [hinbound, List.append_assoc, ← List.drop_drop, List.take_append_drop,
              List.take_append_drop]

end TlsRecordStream

namespace Reality

theorem cutRecord_eq {read : Option RecordProtection} {inbound : Bytes}
    {out : Except ProxyError (Option Record) × TlsRecordStream Unit}
    (h : (holding read inbound).tryReadBuffered = out) :
    cutRecord read inbound = frameOf out := by
  rw [cutRecord, h]

/-- The framer of the record layer. -/
def recordFramer : Framer (Option RecordProtection) UInt8 Record ProxyError where
  cut := cutRecord
  waits _ := rfl
  grows {read read' inbound inbound' r} more h := by
    rcases htry : (holding read inbound).tryReadBuffered with ⟨out, st⟩
    rw [cutRecord_eq htry] at h
    rcases out with e | _ | r' <;> cases h
    exact cutRecord_eq ((holding read inbound).tryReadBuffered_grow more htry nofun)
  fails {read inbound e} more h := by
    rcases htry : (holding read inbound).tryReadBuffered with ⟨out, st⟩
    rw [cutRecord_eq htry] at h
    rcases out with e' | _ | r' <;> cases h
    exact cutRecord_eq ((holding read inbound).tryReadBuffered_grow more htry nofun)

/-- Bytes that wait for more are fewer than a record may be long. -/
theorem cutRecord_waits {read : Option RecordProtection} {inbound : Bytes}
    (h : recordFramer.cut read inbound = .ok none) :
    inbound.length < headerLen + maxCiphertext := by
  rcases htry : (holding read inbound).tryReadBuffered with ⟨out, st⟩
  rw [show recordFramer.cut read inbound = _ from cutRecord_eq htry] at h
  rcases out with e | _ | r <;> cases h
  exact (TlsRecordStream.tryReadBuffered_none htry).2

/-- No refusal of a record has the code of a connection that failed. -/
theorem cutRecord_refused {read : Option RecordProtection} {inbound : Bytes} {e : ProxyError}
    (h : recordFramer.cut read inbound = .error e) : e.code ≠ .connectionFailed := by
  rcases htry : (holding read inbound).tryReadBuffered with ⟨out, st⟩
  rw [show recordFramer.cut read inbound = _ from cutRecord_eq htry] at h
  rcases out with e' | _ | r <;> cases h
  exact TlsRecordStream.tryReadBuffered_refused (congrArg Prod.fst htry)

/-- A record comes off the front with its header and its body. -/
theorem cutRecord_taken {read read' : Option RecordProtection} {inbound rest : Bytes} {r : Record}
    (h : recordFramer.cut read inbound = .ok (some (r, read', rest))) :
    ∃ header body, header.length = headerLen ∧ inbound = header ++ body ++ rest ∧
      TlsRecordStream.Opened header body read r read' := by
  rcases htry : (holding read inbound).tryReadBuffered with ⟨out, st⟩
  rw [show recordFramer.cut read inbound = _ from cutRecord_eq htry] at h
  rcases out with e' | _ | r' <;> cases h
  exact TlsRecordStream.tryReadBuffered_taken htry

/-- No record is empty on the wire. -/
theorem cutRecord_shorter {read read' : Option RecordProtection} {inbound rest : Bytes}
    {r : Record} (h : recordFramer.cut read inbound = .ok (some (r, read', rest))) :
    rest.length < inbound.length := by
  obtain ⟨header, body, hlen, rfl, -⟩ := cutRecord_taken h
  simp only [List.length_append, hlen, headerLen]
  omega

end Reality

namespace TlsRecordStream

variable {τ : Type}

/-- The outcomes of `tryReadBuffered`, in terms of the framer. -/
inductive Tried (st : TlsRecordStream τ) :
    Except ProxyError (Option Record) × TlsRecordStream τ → Prop
| waits :
  recordFramer.cut st.read st.inbound = .ok none ->
  Tried st (.ok none, st)
| record {r : Record} {read : Option RecordProtection} {inbound : Bytes} :
  recordFramer.cut st.read st.inbound = .ok (some (r, read, inbound)) ->
  Tried st (.ok (some r), { st with read, inbound })
| error {e : ProxyError} {read : Option RecordProtection} {inbound : Bytes} :
  recordFramer.cut st.read st.inbound = .error e ->
  Tried st (.error e, { st with read, inbound })

theorem tryReadBuffered_tried (st : TlsRecordStream τ) : Tried st st.tryReadBuffered := by
  rcases htry : (holding st.read st.inbound).tryReadBuffered with ⟨r, st'⟩
  have heq := st.tryReadBuffered_eq
  have hcut := cutRecord_eq htry
  simp only [htry] at heq
  rcases r with e | _ | r
  · rw [heq]
    exact .error hcut
  · rw [heq, (tryReadBuffered_none htry).1]
    exact .waits hcut
  · rw [heq]
    exact .record hcut

end TlsRecordStream

end RustClash
