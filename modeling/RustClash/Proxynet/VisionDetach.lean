import RustClash.Lib.Lts
import RustClash.Proxynet.Reality
import RustClash.Proxynet.VisionWrite
import RustClash.Proxynet.Vless

/-!
# Splicing at a direct frame

`finish_framing` hands the bytes it still holds to `vision_detach` of its session,
the VLESS layer, which adds its own and hands them down.  A REALITY stream answers
with a stream that starts with them; every other layer keeps the default, which
drops them.  `direct_spliced_iff` says what that comes to: with REALITY below, the
reader gets what the four buffers hold and then the transport, whatever is in
which; with another layer below it loses what it and the VLESS layer hold.

Writing is not touched: every call of the stream is served by calls of the
session, a write by writes (`calls_served`).
-/

namespace RustClash

/-- The layer under VLESS.  REALITY detaches; the other layers keep the default of
the trait. -/
inductive Layer (τ υ : Type) where
  | reality (s : RealityTlsStream τ)
  | other (s : υ)

namespace Layer

variable {τ υ : Type}

instance [AsyncRead τ] [AsyncRead υ] : AsyncRead (Layer τ υ) where
  pollRead
    | .reality s, cap =>
        let (r, s) := pollRead s cap
        (r, .reality s)
    | .other s, cap =>
        let (r, s) := pollRead s cap
        (r, .other s)

instance [AsyncWrite τ] [AsyncWrite υ] : AsyncWrite (Layer τ υ) where
  pollWrite
    | .reality s, buf =>
        let (r, s) := pollWrite s buf
        (r, .reality s)
    | .other s, buf =>
        let (r, s) := pollWrite s buf
        (r, .other s)
  pollFlush
    | .reality s =>
        let (r, s) := pollFlush s
        (r, .reality s)
    | .other s =>
        let (r, s) := pollFlush s
        (r, .other s)

instance [AsyncRead τ] [AsyncWrite τ] [AsyncRead υ] [AsyncWrite υ] : AsyncIo (Layer τ υ) where
  visionDetach
    | .reality s, leftover =>
        let (raw, s) := visionDetach s leftover
        (raw, .reality s)
    | .other s, _ => (none, .other s)
  pollReadShared
    | .reality s, cap =>
        let (r, s) := pollReadShared s cap
        (r, .reality s)
    | .other s, _ => (.pending, .other s)

theorem visionDetach_reality [AsyncRead τ] [AsyncWrite τ] [AsyncRead υ] [AsyncWrite υ]
    (s : RealityTlsStream τ) (leftover : Bytes) :
    visionDetach (.reality s : Layer τ υ) leftover =
      ((visionDetach s leftover).1, .reality (visionDetach s leftover).2) := rfl

theorem visionDetach_other [AsyncRead τ] [AsyncWrite τ] [AsyncRead υ] [AsyncWrite υ]
    (s : υ) (leftover : Bytes) :
    visionDetach (.other s : Layer τ υ) leftover = (none, .other s) := rfl

/-- The code's `vision_detach` answers with a stream. -/
def Detaches : Layer τ υ → Prop
  | .reality _ => True
  | .other _ => False

/-- What the layer has read and not delivered. -/
def held : Layer τ υ → Bytes
  | .reality s => s.pending.drop s.pendingOff ++ s.records.inbound
  | .other _ => []

section

variable [AsyncRead τ] [AsyncWrite τ] [ReadLaw τ] [AsyncRead υ] [AsyncWrite υ] [ReadLaw υ]

/-- What comes after the bytes that are held: the bytes of the transport under
REALITY, or what another layer yields. -/
def Follows : Layer τ υ → Bytes → End IoError → Prop
  | .reality s, rest, o => ReadLaw.spec.Yields s.records.transport rest o
  | .other s, rest, o => ReadLaw.spec.Yields s rest o

/-- The reads of the layers that do not detach are specified. -/
instance : ReadLaw (Layer τ υ) where
  spec :=
    { Yields := fun
        | .reality _, _, _ => False
        | .other s, items, o => ReadLaw.spec.Yields s items o
      stalls := fun
        | .reality _ => 0
        | .other s => ReadLaw.spec.stalls s
      leaves := by
        rintro (s | s) items o cap hy hcap
        · exact hy.elim
        · exact (ReadLaw.spec.leaves hy hcap).handOn (fun _ _ h => h) rfl rfl }
  steady := by
    rintro (s | s) items o cap s' d hy hcap hr hd
    · exact hy.elim
    · rcases hr' : pollRead s cap with ⟨r, t⟩
      change (let (r, s) := pollRead s cap; (r, Layer.other s)) = _ at hr
      rw [hr'] at hr
      cases hr
      exact ReadLaw.steady hy hcap hr' hd

/-- The shared transport is that of REALITY. -/
instance : SharedLaw (Layer τ υ) where
  spec :=
    { Yields := fun
        | .reality s, items, o => SharedLaw.spec.Yields s items o
        | .other _, _, _ => False
      stalls := fun
        | .reality s => SharedLaw.spec.stalls s
        | .other _ => 0
      leaves := by
        rintro (s | s) items o cap hy hcap
        · exact (SharedLaw.spec.leaves hy hcap).handOn (fun _ _ h => h) rfl rfl
        · exact hy.elim }

end

end Layer

namespace VisionStream

open Vision

/-! ## The calls that serve a call -/

/-- A call of a stream. -/
inductive Call where
  | read (cap : Nat)
  | write (buf : Bytes)
  | flush

/-- A call of the session of a stream, or of the transport it shares. -/
inductive SessionCall where
  | read (cap : Nat)
  | readShared (cap : Nat)
  | detach (leftover : Bytes)
  | write (buf : Bytes)
  | flush

/-- Reads are served by reads and by detaching, writes by writes, and a flush by
writes and flushes. -/
inductive Call.Makes : Call → SessionCall → Prop where
  | read (cap cap' : Nat) : Makes (.read cap) (.read cap')
  | readShared (cap cap' : Nat) : Makes (.read cap) (.readShared cap')
  | detach (cap : Nat) (leftover : Bytes) : Makes (.read cap) (.detach leftover)
  | write (buf buf' : Bytes) : Makes (.write buf) (.write buf')
  | flushWrite (buf : Bytes) : Makes .flush (.write buf)
  | flush : Makes .flush .flush

section

variable {σ : Type} [AsyncIo σ]

def call (st : VisionStream σ) : Call → VisionStream σ
  | .read cap => (pollRead st cap).2
  | .write buf => (pollWrite st buf).2
  | .flush => (pollFlush st).2

def sessionCall (s : σ) : SessionCall → σ
  | .read cap => (pollRead s cap).2
  | .readShared cap => (pollReadShared s cap).2
  | .detach leftover => (visionDetach s leftover).2
  | .write buf => (pollWrite s buf).2
  | .flush => (pollFlush s).2

/-- A session goes from one state to the other by calls that `c` may make. -/
def Served (c : Call) (s s' : σ) : Prop :=
  ∃ scs : List SessionCall, (∀ sc ∈ scs, c.Makes sc) ∧ s' = scs.foldl sessionCall s

namespace Served

variable {c : Call} {s s' s'' : σ}

theorem refl (c : Call) (s : σ) : Served c s s := ⟨[], fun _ h => (by cases h), rfl⟩

theorem single {sc : SessionCall} (h : c.Makes sc) (s : σ) : Served c s (sessionCall s sc) :=
  ⟨[sc], by simpa using h, rfl⟩

theorem trans (h : Served c s s') (h' : Served c s' s'') : Served c s s'' := by
  obtain ⟨scs, hm, rfl⟩ := h
  obtain ⟨scs', hm', rfl⟩ := h'
  refine ⟨scs ++ scs', fun sc hsc => ?_, (List.foldl_append ..).symm⟩
  exact (List.mem_append.mp hsc).elim (hm sc) (hm' sc)

/-- What every call keeps is kept. -/
theorem keeps {I : σ → Prop} (hI : ∀ s sc, I s → I (sessionCall s sc)) (h : Served c s s')
    (hs : I s) : I s' := by
  obtain ⟨scs, -, rfl⟩ := h
  exact foldl_invariant hI hs scs

end Served

/-- The state that a pass leaves. -/
def Pass.next {cap : Nat} : Pass σ cap → VisionStream σ
  | .inl st => st
  | .inr (_, st) => st

variable {cap n : Nat} (st : VisionStream σ)

theorem fillFromSession_served :
    Served (.read n) st.session st.fillFromSession.2.session := by
  have hread : Served (.read n) st.session
      (pollRead st.session (min 2048 (st.buffer.compact 1).room)).2 := .single (.read _ _) _
  simp only [fillFromSession]
  split
  · exact .refl _ _
  · split <;> (next hr => rw [hr] at hread; exact hread)

theorem finishFraming_served : Served (.read n) st.session st.finishFraming.session := by
  unfold finishFraming
  split
  · have hdetach : Served (.read n) st.session (visionDetach st.session st.buffer.data).2 :=
      .single (.detach _ _) _
    simp only
    split <;> (next hr => rw [hr] at hdetach; exact hdetach)
  · exact .refl _ _

theorem passRaw_served : Served (.read n) st.session (st.passRaw cap).next.session := by
  simp only [passRaw]
  split
  · exact .refl _ _
  · split
    · next src hsrc =>
        show Served _ _ (src.pollRead st.session cap).2.2
        rcases src.pollRead_session st.session cap with h | h
        · rw [h]
          exact .refl _ _
        · rw [h]
          exact .single (.readShared n cap) _
    · exact .single (.read n cap) _

theorem pass_served : Served (.read n) st.session (st.pass cap).next.session := by
  have hfill := fillFromSession_served (n := n) st
  simp only [pass]
  split
  · exact passRaw_served st
  · simp only [passUndecided]
    rcases tryDecide_cases st with ⟨-, he⟩ | ⟨-, -, he⟩ | ⟨-, -, he⟩
    · rw [he]
      exact .refl _ _
    · rw [he]
      simp only
      split <;> (next hf => rw [hf] at hfill; exact hfill)
    · rw [he]
      exact .refl _ _
  · split
    · simp only [passHeader]
      split
      · exact finishFraming_served st
      · split
        · split
          · next hf =>
              rw [hf] at hfill
              split <;> exact hfill
          · next hf => rw [hf] at hfill; exact hfill
          · next hf => rw [hf] at hfill; exact hfill
          · next hf => rw [hf] at hfill; exact hfill
        · have hheader : st.readFrameHeader.2.session = st.session := by
            simp only [readFrameHeader]
            split
            · rfl
            · split
              · rfl
              · split <;> rfl
          split <;> (next hr => rw [hr] at hheader; exact hheader ▸ .refl _ _)
    · simp only [passBody]
      split
      · split <;> (next hf => rw [hf] at hfill; exact hfill)
      · split <;> exact .refl _ _

theorem pollRead_served : Served (.read n) st.session (pollRead st cap).2.session := by
  refine Loop.rule (l := readLoop σ cap)
    (P := fun st r => Served (.read n) st.session r.2.session) ?_ ?_ st
  · intro st st' r hb ih
    change st.pass cap = .inl st' at hb
    have h : Served (.read n) st.session (st.pass cap).next.session := pass_served st
    rw [hb] at h
    exact h.trans ih
  · intro st r hb
    change st.pass cap = .inr r at hb
    have h : Served (.read n) st.session (st.pass cap).next.session := pass_served st
    rwa [hb] at h

theorem pollWritePending_served {c : Call} (hc : ∀ buf, c.Makes (.write buf)) :
    Served c st.session st.pollWritePending.2.session := by
  obtain ⟨bufs, hbufs⟩ := drain_writes pollWrite writeZero st.writeBuf st.writeOff st.session
  refine ⟨bufs.map .write, fun sc hsc => ?_, ?_⟩
  · obtain ⟨buf, -, rfl⟩ := List.mem_map.mp hsc
    exact hc buf
  · rw [List.foldl_map]
    exact hbufs

theorem pollFinish_served {c : Call} (hc : ∀ buf, c.Makes (.write buf)) :
    Served c st.session st.pollFinish.2.session := by
  have h := pollWritePending_served st hc
  simp only [pollFinish]
  split <;> (next hp => rw [hp] at h; exact h)

omit [AsyncIo σ] in
theorem stageUplink_session (buf : Bytes) : (st.stageUplink buf).session = st.session := by
  unfold stageUplink
  simp only
  split <;> rfl

theorem pollWrite_served (buf : Bytes) :
    Served (.write buf) st.session (pollWrite st buf).2.session := by
  have hraw : ∀ st : VisionStream σ,
      Served (.write buf) st.session (st.pollWriteRaw buf).2.session :=
    fun st => .single (.write buf buf) _
  simp only [pollWrite]
  split
  · exact pollFinish_served st (.write buf)
  · split
    · exact .refl _ _
    · split
      · exact hraw st
      · rw [← stageUplink_session st buf]
        generalize st.stageUplink buf = st'
        split
        · exact hraw st'
        · exact pollFinish_served st' (.write buf)

theorem pollFlush_served : Served .flush st.session (pollFlush st).2.session := by
  have h := pollWritePending_served st .flushWrite
  simp only [pollFlush]
  generalize st.pollWritePending = r at h ⊢
  rcases r with ⟨_ | e | ⟨⟩, st'⟩
  · exact h
  · exact h
  · exact h.trans (.single .flush _)

theorem call_served (c : Call) : Served c st.session (st.call c).session := by
  cases c with
  | read cap => exact pollRead_served st
  | write buf => exact pollWrite_served st buf
  | flush => exact pollFlush_served st

end

/-- Each call of a run is served: the states are those of the session in between. -/
inductive Serves {σ : Type} [AsyncIo σ] : List Call → σ → σ → Prop where
  | nil (s : σ) : Serves [] s s
  | cons {c : Call} {calls : List Call} {s s' s'' : σ} :
      Served c s s' → Serves calls s' s'' → Serves (c :: calls) s s''

theorem calls_served {σ : Type} [AsyncIo σ] (calls : List Call) (st : VisionStream σ) :
    Serves calls st.session (calls.foldl call st).session := by
  induction calls generalizing st with
  | nil => exact .nil _
  | cons c calls ih => exact .cons (call_served st c) (ih _)


/-! ## Streams before the splice -/

section

variable {σ : Type} [AsyncIo σ] {cap : Nat} {st : VisionStream (VlessResponseStream σ)}

/-- A stream that is not spliced yet: nothing but the session is read, and nothing has
come from it before the response header was read. -/
structure Unspliced (st : VisionStream (VlessResponseStream σ)) : Prop where
  source : st.mode ≠ .raw → st.readSource = none
  headerRead : st.session.headerRead = false → st.mode ≠ .framed ∧ st.buffer.data = []

omit [AsyncIo σ] in
theorem unspliced_new (inner : σ) (host : String) (port : UInt16) (uuid : Octets uuidSize)
    (draws : Nat → Nat) : Unspliced (new (VlessResponseStream.new inner host port) uuid draws) :=
  ⟨fun _ => rfl, fun _ => ⟨Mode.noConfusion, rfl⟩⟩

/-- No call of the VLESS layer forgets its header. -/
theorem sessionCall_headerRead (s : VlessResponseStream σ) (sc : SessionCall)
    (h : s.headerRead = true) : (sessionCall s sc).headerRead = true := by
  cases sc with
  | read cap => exact (s.pollRead_header cap).1 h
  | readShared cap => exact h
  | detach leftover => exact h
  | write buf => exact h
  | flush => exact h

/-- Filling touches neither the mode nor the source, and brings nothing in before the
header is read. -/
theorem fillFromSession_unspliced (h : Unspliced st) (hmode : st.mode ≠ .framed) :
    Unspliced st.fillFromSession.2 := by
  have hread := st.session.pollRead_header (min 2048 (st.buffer.compact 1).room)
  simp only [fillFromSession]
  split
  · exact ⟨h.source, fun hr => ⟨hmode, by simpa using (h.headerRead hr).2⟩⟩
  · generalize pollRead st.session (min 2048 (st.buffer.compact 1).room) = r at hread ⊢
    have hkeep : r.2.headerRead = false → st.buffer.data = [] := fun hr =>
      (h.headerRead (Bool.eq_false_iff.mpr fun ht => by simp [hread.1 ht] at hr)).2
    rcases r with ⟨_ | e | d, session⟩
    · exact ⟨h.source, fun hr => ⟨hmode, by simpa using hkeep hr⟩⟩
    · exact ⟨h.source, fun hr => ⟨hmode, by simpa using hkeep hr⟩⟩
    · refine ⟨h.source, fun hr => ?_⟩
      have ht : session.headerRead = true := hread.2 d rfl
      cases ht.symm.trans hr

theorem passRaw_unspliced (h : Unspliced st) (hmode : st.mode = .raw) :
    Unspliced (st.passRaw cap).next := by
  have hserved : Served (.read cap) st.session (st.passRaw cap).next.session := passRaw_served st
  have hbuf : (st.passRaw cap).next.mode = .raw ∧
      (st.buffer.data = [] → (st.passRaw cap).next.buffer.data = []) := by
    simp only [passRaw]
    split
    · exact ⟨hmode, fun hnil => by simp [Pass.next, hnil]⟩
    · split <;> exact ⟨hmode, id⟩
  refine ⟨fun hm => absurd hbuf.1 hm, fun hr => ⟨?_, hbuf.2 (h.headerRead ?_).2⟩⟩
  · rw [hbuf.1]
    exact Mode.noConfusion
  · exact Bool.eq_false_iff.mpr fun ht => by
      cases (hserved.keeps sessionCall_headerRead ht).symm.trans hr

theorem passUndecided_unspliced (h : Unspliced st) (hmode : st.mode = .undecided) :
    Unspliced (st.passUndecided cap).next := by
  have hraw : st.mode ≠ .raw := by rw [hmode]; exact Mode.noConfusion
  have hfill := fillFromSession_unspliced h (by rw [hmode]; exact Mode.noConfusion)
  simp only [passUndecided]
  rcases tryDecide_cases st with ⟨-, he⟩ | ⟨-, -, he⟩ | ⟨-, hlen, he⟩
  · rw [he]
    exact ⟨fun hm => absurd rfl hm, fun hr => ⟨Mode.noConfusion, (h.headerRead hr).2⟩⟩
  · rw [he]
    simp only
    split
    · next hf =>
        rw [hf] at hfill
        exact ⟨fun hm => absurd rfl hm, fun hr => ⟨Mode.noConfusion, (hfill.headerRead hr).2⟩⟩
    · next hf => rw [hf] at hfill; exact hfill
    · next hf => rw [hf] at hfill; exact hfill
    · next hf => rw [hf] at hfill; exact hfill
  · rw [he]
    refine ⟨fun _ => h.source hraw, fun hr => ?_⟩
    rw [buffered, Window.length, (h.headerRead hr).2] at hlen
    exact absurd hlen (by decide)

theorem fillFromSession_source {σ : Type} [AsyncRead σ] (st : VisionStream σ) :
    st.fillFromSession.2.readSource = st.readSource := by
  simp only [fillFromSession]
  split
  · rfl
  · split <;> rfl

theorem passHeader_source {σ : Type} [AsyncIo σ] {cap : Nat} (st : VisionStream σ) :
    (st.passHeader cap).next.mode = .raw ∨
      (st.passHeader cap).next.readSource = st.readSource := by
  have hfill := fillFromSession_source st
  simp only [passHeader]
  split
  · exact Or.inl (finishFraming_mode st)
  · refine Or.inr ?_
    split
    · split
      · next hf =>
          rw [hf] at hfill
          split <;> exact hfill
      · next hf => rw [hf] at hfill; exact hfill
      · next hf => rw [hf] at hfill; exact hfill
      · next hf => rw [hf] at hfill; exact hfill
    · have hheader : st.readFrameHeader.2.readSource = st.readSource := by
        simp only [readFrameHeader]
        split
        · rfl
        · split
          · rfl
          · split <;> rfl
      split <;> (next hr => rw [hr] at hheader; exact hheader)

theorem passBody_source {σ : Type} [AsyncIo σ] {cap : Nat} (st : VisionStream σ) :
    (st.passBody cap).next.readSource = st.readSource := by
  have hfill := fillFromSession_source st
  simp only [passBody]
  split
  · split <;> (next hf => rw [hf] at hfill; exact hfill)
  · split <;> rfl

theorem pass_unspliced (h : Unspliced st) : Unspliced (st.pass cap).next := by
  have hall : Served (.read cap) st.session (st.pass cap).next.session := pass_served st
  simp only [pass]
  split
  · next hmode => exact passRaw_unspliced h hmode
  · next hmode => exact passUndecided_unspliced h hmode
  · next hmode =>
      have hread : st.session.headerRead = true := by
        by_contra hr
        exact (h.headerRead (Bool.eq_false_iff.mpr hr)).1 hmode
      have hsource := h.source (by rw [hmode]; exact Mode.noConfusion)
      split
      · next hbody =>
          have hserved := hall.keeps sessionCall_headerRead hread
          simp only [pass, hmode, hbody, and_self, if_true] at hserved
          refine ⟨fun hm => ?_, fun hr => by cases hserved.symm.trans hr⟩
          exact ((passHeader_source st).resolve_left hm).trans hsource
      · next hbody =>
          have hserved := hall.keeps sessionCall_headerRead hread
          simp only [pass, hmode, if_neg hbody] at hserved
          exact ⟨fun _ => (passBody_source st).trans hsource,
            fun hr => by cases hserved.symm.trans hr⟩

theorem call_unspliced (h : Unspliced st) (c : Call) : Unspliced (st.call c) := by
  have hreader : ∀ {st' : VisionStream (VlessResponseStream σ)}, st'.reader = st.reader →
      (st.session.headerRead = true → st'.session.headerRead = true) → Unspliced st' := by
    intro st' hr hkeep
    simp only [reader, Prod.mk.injEq] at hr
    obtain ⟨-, hsource, hbuf, hmode⟩ := hr
    refine ⟨fun hm => hsource.trans (h.source (hmode ▸ hm)), fun hf => ?_⟩
    rw [hbuf, hmode]
    exact h.headerRead (Bool.eq_false_iff.mpr fun ht => by cases (hkeep ht).symm.trans hf)
  have hserved := (call_served st c).keeps sessionCall_headerRead
  cases c with
  | read cap =>
      refine Loop.rule (l := readLoop _ cap) (P := fun st r => Unspliced st → Unspliced r.2)
        ?_ ?_ st h
      · intro st st' r hb ih h
        change st.pass cap = .inl st' at hb
        have h' : Unspliced (st.pass cap).next := pass_unspliced h
        rw [hb] at h'
        exact ih h'
      · intro st r hb h
        change st.pass cap = .inr r at hb
        have h' : Unspliced (st.pass cap).next := pass_unspliced h
        rwa [hb] at h'
  | write buf => exact hreader (pollWrite_reader st buf) hserved
  | flush => exact hreader (pollFlush_reader st) hserved

theorem calls_unspliced (h : Unspliced st) (calls : List Call) : Unspliced (calls.foldl call st) :=
  foldl_invariant (I := Unspliced) (fun _ c h => call_unspliced h c) h calls

end

/-! ## Reading from a detached stream -/

section

variable {σ : Type} [AsyncIo σ] [SharedLaw σ]

/-- What a stream that reads from a detached one has yet to deliver. -/
structure Splices (st : VisionStream σ) (items : Bytes) (o : End IoError) : Prop where
  mode : st.mode = .raw
  remains : ∃ src rest, st.readSource = some src ∧ SharedLaw.spec.Yields st.session rest o ∧
    items = st.buffer.data ++ (src.remaining ++ rest)

def spliceStalls (st : VisionStream σ) : Nat := SharedLaw.spec.stalls st.session

theorem passRaw_splices {cap : Nat} {st : VisionStream σ} {items : Bytes} {o : End IoError}
    (h : Splices st items o) (hcap : 0 < cap) :
    PassLeaves Splices spliceStalls st items o (st.passRaw cap) := by
  obtain ⟨hmode, src, rest, hsource, hs, rfl⟩ := h
  unfold passRaw
  split
  · next hb =>
      exact leaves_fill (List.length_pos_iff.mp hb) hcap
        ⟨hmode, src, rest, hsource, hs, rfl⟩ (Nat.le_refl _)
  · next hb =>
      rw [hsource, buffer_nil hb, List.nil_append]
      refine (Detached.readSpec.leaves (s := (src, st.session)) ⟨rest, hs, rfl⟩ hcap).handOn
        ?_ rfl rfl
      rintro items o ⟨rest', hs', rfl⟩
      exact ⟨hmode, _, rest', rfl, hs', by rw [buffer_nil hb, List.nil_append]⟩

/-- A spliced stream delivers its buffer, then the prefix, then the transport. -/
def spliceSpec : ReadSpec (pollRead : ReadFn (VisionStream σ) UInt8 IoError) :=
  ReadSpec.ofLoop (readLoop σ) Splices spliceStalls <| by
    intro st items o cap h hcap
    show PassLeaves Splices spliceStalls st items o (st.pass cap)
    simp only [pass, h.mode]
    exact passRaw_splices h hcap

end

/-! ## A completed direct frame -/

section

variable {τ υ : Type}

/-- A stream that has come to the end of a direct frame. -/
structure AtDirect (st : VisionStream (VlessResponseStream (Layer τ υ))) : Prop where
  mode : st.mode = .framed
  command : st.command = cmdDirect
  content : st.remainingContent = 0
  padding : st.remainingPadding = 0
  source : st.readSource = none
  headerRead : st.session.headerRead = true

/-- What the layers have read beyond the frame, the innermost last. -/
def remainder (st : VisionStream (VlessResponseStream (Layer τ υ))) : Bytes :=
  st.buffer.data ++ (st.session.pending ++ st.session.inner.held)

variable [AsyncRead τ] [AsyncWrite τ] [AsyncRead υ] [AsyncWrite υ]
  {st : VisionStream (VlessResponseStream (Layer τ υ))} {rest : Bytes} {o : End IoError}

/-- Every run that comes to the end of a direct frame is in such a state. -/
theorem atDirect_of_calls {layer : Layer τ υ} {host : String} {port : UInt16}
    {uuid : Octets uuidSize} {draws : Nat → Nat} {calls : List Call}
    (hst : calls.foldl call (new (VlessResponseStream.new layer host port) uuid draws) = st)
    (hmode : st.mode = .framed) (hcommand : st.command = cmdDirect)
    (hcontent : st.remainingContent = 0) (hpadding : st.remainingPadding = 0) : AtDirect st := by
  have h : Unspliced st := hst ▸ calls_unspliced (unspliced_new layer host port uuid draws) calls
  refine ⟨hmode, hcommand, hcontent, hpadding, h.source ?_, ?_⟩
  · rw [hmode]
    exact Mode.noConfusion
  · by_contra hr
    exact (h.headerRead (Bool.eq_false_iff.mpr hr)).1 hmode

/-- The next read finishes the framing first. -/
theorem AtDirect.pollRead_eq (h : AtDirect st) (cap : Nat) :
    pollRead st cap = pollRead st.finishFraming cap := by
  refine Loop.run_inl (l := readLoop _ cap) ?_
  show st.pass cap = _
  simp only [pass, h.mode, passHeader]
  rw [if_pos ⟨h.content, h.padding⟩, if_pos (Or.inr h.command)]

variable [ReadLaw τ] [ReadLaw υ]

/-- REALITY detaches, with everything the layers hold in front. -/
theorem AtDirect.splices {s : RealityTlsStream τ} (h : AtDirect st)
    (hlayer : st.session.inner = .reality s) (hrest : st.session.inner.Follows rest o) :
    Splices st.finishFraming (remainder st ++ rest) o := by
  obtain ⟨hraw, htransport⟩ := s.visionDetach_spec (st.buffer.data ++ st.session.pending)
  rw [hlayer] at hrest
  have hdetach : visionDetach st.session st.buffer.data =
      (some (.wrapIfNeeded (st.buffer.data ++ st.session.pending ++ s.pending.drop s.pendingOff ++
        s.records.inbound)), { st.session with
          pending := []
          inner := .reality (visionDetach s (st.buffer.data ++ st.session.pending)).2 }) := by
    rw [VlessResponseStream.visionDetach_eq, hlayer, Layer.visionDetach_reality, hraw]
  simp only [finishFraming]
  rw [if_pos h.command]
  simp only [hdetach]
  refine ⟨rfl, _, rest, rfl, ?_, ?_⟩
  · show ReadLaw.spec.Yields _ rest o
    rw [htransport]
    exact hrest
  · simp [remainder, hlayer, Layer.held, buffered, Window.length]

/-- Another layer drops what the stream and the VLESS layer hold, and reading goes on
with it. -/
theorem AtDirect.drops {s : υ} (h : AtDirect st) (hlayer : st.session.inner = .other s)
    (hrest : st.session.inner.Follows rest o) : Yields st.finishFraming rest o := by
  rw [hlayer] at hrest
  have hdetach : visionDetach st.session st.buffer.data =
      (none, { st.session with pending := [] }) := by
    rw [VlessResponseStream.visionDetach_eq, hlayer, Layer.visionDetach_other, ← hlayer]
  simp only [finishFraming]
  rw [if_pos h.command]
  simp only [hdetach]
  refine ⟨h.source, fun hmode => (by cases hmode), rest, o, ⟨rest, o, ?_, ?_⟩, ?_⟩
  · simp only
    rw [hlayer]
    exact hrest
  · simp [VlessResponseStream.decoded, h.headerRead]
  · simp [decoded, buffered, Window.length]

/-! ## What a direct frame comes to -/

theorem AtDirect.delivers_reality {s : RealityTlsStream τ} (h : AtDirect st)
    (hlayer : st.session.inner = .reality s) (hrest : st.session.inner.Follows rest o) :
    Delivers pollRead st (remainder st ++ rest) o :=
  (spliceSpec.delivers (h.splices hlayer hrest)).congr fun cap => (h.pollRead_eq cap).symm

theorem AtDirect.delivers_other {s : υ} (h : AtDirect st) (hlayer : st.session.inner = .other s)
    (hrest : st.session.inner.Follows rest o) : Delivers pollRead st rest o :=
  (readSpec.delivers (h.drops hlayer hrest)).congr fun cap => (h.pollRead_eq cap).symm

/-- At the end of a direct frame, with whatever the layers hold: the reader gets what
the stream, the VLESS layer and REALITY hold, in that order, and then what follows,
exactly if the layer under VLESS detaches, or neither the stream nor the VLESS layer
holds anything.  Later calls are served as ever, writes by writes to the session. -/
theorem direct_spliced_iff (h : AtDirect st) (hrest : st.session.inner.Follows rest o) :
    (Delivers pollRead st (remainder st ++ rest) o ∧
        ∀ calls, Serves calls st.session (calls.foldl call st).session) ↔
      st.session.inner.Detaches ∨ st.buffer.data = [] ∧ st.session.pending = [] := by
  refine (and_iff_left fun calls => calls_served calls st).trans ?_
  rcases hlayer : st.session.inner with s | s
  · exact iff_of_true (h.delivers_reality hlayer hrest) (Or.inl trivial)
  · have hother := h.delivers_other hlayer hrest
    have hheld : remainder st = st.buffer.data ++ st.session.pending := by
      rw [remainder, hlayer, Layer.held, List.append_nil]
    constructor
    · intro hd
      have hnil : remainder st = [] := List.append_left_eq_self.mp (hd.unique hother).1
      exact Or.inr (List.append_eq_nil_iff.mp (hheld.symm.trans hnil))
    · rintro (hdet | ⟨hbuf, hpend⟩)
      · exact hdet.elim
      · rw [hheld, hbuf, hpend]
        exact hother

/-- One byte in each of the four buffers, and one on the transport. -/
theorem direct_spliced_four :
    let records : TlsRecordStream Transport :=
      { TlsRecordStream.new (Transport.serving [.data 5 []] .eof) with inbound := [4] }
    let session : VlessResponseStream (Layer Transport Transport) :=
      { VlessResponseStream.new (.reality (.new records [9, 3])) "a.b" 443 with
        headerRead := true
        pending := [2] }
    let st := { new session ⟨List.replicate 16 7, rfl⟩ fun _ => 0 with
      mode := .framed
      command := cmdDirect
      buffer := ⟨20, [1], by decide⟩ }
    Delivers pollRead st [1, 2, 9, 3, 4, 5] .eof := by
  intro records session st
  have hat : AtDirect st := ⟨rfl, rfl, rfl, rfl, rfl, rfl⟩
  have hrest : st.session.inner.Follows [5] .eof :=
    Transport.serving_yields [.data 5 []] .eof
  exact ((direct_spliced_iff hat hrest).mpr (Or.inl trivial)).1

/-- Over a layer that does not detach, two bytes that came with a direct frame and its
one byte of content are lost. -/
theorem direct_drops :
    let server : Bytes := [0, 0] ++ List.replicate 16 7 ++ [2, 0, 1, 0, 0, 65] ++ [104, 105]
    let session : VlessResponseStream (Layer Transport Transport) :=
      .new (.other (Transport.serving (arrive server []) .eof)) "a.b" 443
    let st := (new session ⟨List.replicate 16 7, rfl⟩ fun _ => 0).call (.read 8)
    AtDirect st ∧ st.session.inner.Follows [] .eof ∧ remainder st = [104, 105] ∧
      ¬ Delivers pollRead st (remainder st ++ []) .eof := by
  intro server session st
  have hremainder : remainder st = [104, 105] := by decide +kernel
  have hended : (readAll pollRead [8] st).ended = some .eof := by decide +kernel
  have hitems : (readAll pollRead [8] st).items = [] := by decide +kernel
  have hinner : (match st.session.inner with
      | .reality _ => none
      | .other t => some (t.reads, t.readEnd)) = some ([], .eof) := by decide +kernel
  refine ⟨⟨by decide +kernel, by decide +kernel, by decide +kernel, by decide +kernel,
    by decide +kernel, by decide +kernel⟩, ?_, hremainder, fun h => ?_⟩
  · rcases hl : st.session.inner with s | t
    · rw [hl] at hinner
      cases hinner
    · rw [hl] at hinner
      obtain ⟨hreads, hend⟩ : t.reads = [] ∧ t.readEnd = .eof := by simpa using hinner
      exact (⟨by rw [hreads]; rfl, hend.symm⟩ : Transport.readSpec.Yields t [] .eof)
  · have := (h.at_end [8] .eof (by decide) hended).1
    rw [hremainder, hitems] at this
    cases this

end

end VisionStream

end RustClash
