import RustClash.Lib.Lts
import RustClash.Proxynet.VisionRead

/-!
# What a Vision writer puts on the wire

A writer sends the user id and frames, one for each write it reports, and after
the first end frame the bytes as they are.  `Idle` and `Staged` say where a
writer stands: everything it has framed is with the session, or one more frame
is on its way.  Every write and every flush keeps one of the two
(`pollWrite_uplink`, `pollFlush_uplink`), so every run does, whatever the session
accepts when; and what is on the wire decodes to the bytes reported.
-/

namespace RustClash

namespace Vision

/-! ## Frames on the wire -/

structure Frame where
  command : UInt8
  content : Bytes
  padding : Nat

namespace Frame

def bytes (f : Frame) : Bytes :=
  f.command :: toBe16 f.content.length ++ toBe16 f.padding ++ f.content ++
    List.replicate f.padding 0

def size (f : Frame) : Nat := headerSize + f.content.length + f.padding

theorem length_bytes (f : Frame) : f.bytes.length = f.size := by
  simp only [bytes, size, headerSize, List.length_append, List.length_cons, length_toBe16,
    List.length_replicate]

/-- A frame that a reader accepts, and that carries something. -/
structure Fits (f : Frame) : Prop where
  content : f.content ≠ []
  size : f.size ≤ maxFrame

end Frame

def contents (frames : List Frame) : Bytes := frames.flatMap Frame.content

/-- Frames and the bytes after them; the user id comes with the first frame. -/
def wire (uuid : Octets uuidSize) (frames : List Frame) (raw : Bytes) : Bytes :=
  (if frames.isEmpty then [] else uuid.bytes) ++ frames.flatMap Frame.bytes ++ raw

/-- Frames with more to come. -/
def Open (frames : List Frame) : Prop := ∀ f ∈ frames, f.command = cmdContinue

/-- Frames up to an end frame. -/
def Ended (frames : List Frame) : Prop :=
  ∃ init last, frames = init ++ [last] ∧ Open init ∧ last.command = cmdEnd

/-- Frames that go over the wire: each is accepted, and the first also with the
user id before it. -/
structure Sendable (frames : List Frame) : Prop where
  fits : ∀ f ∈ frames, f.Fits
  first : ∀ f, frames.head? = some f → uuidSize + f.size ≤ maxFrame

@[simp] theorem contents_append (xs ys : List Frame) :
    contents (xs ++ ys) = contents xs ++ contents ys := by
  simp [contents]

theorem Open.append {xs ys : List Frame} (hx : Open xs) (hy : Open ys) : Open (xs ++ ys) := by
  intro f hf
  rcases List.mem_append.mp hf with h | h
  · exact hx f h
  · exact hy f h

/-! ## What they decode to -/

/-- A whole frame starts the decoding of what its command says comes after it. -/
theorem decodeFrames_frame {f : Frame} (h : f.Fits) (rest : Bytes) (o : End IoError) :
    decodeFrames 0 (f.bytes ++ rest) o = (decodeNext f.command 0 rest o).after f.content := by
  have hsize := h.size
  have hpos : 0 < f.content.length := List.length_pos_iff.mpr h.content
  simp only [Frame.size, maxFrame, headerSize] at hsize
  have hc := ofBe16_toBe16 (n := f.content.length) (by omega)
  have hp := ofBe16_toBe16 (n := f.padding) (by omega)
  have hbytes : f.bytes ++ rest = f.command :: UInt8.ofNat (f.content.length / 256) ::
      UInt8.ofNat f.content.length :: UInt8.ofNat (f.padding / 256) :: UInt8.ofNat f.padding ::
      (f.content ++ (List.replicate f.padding 0 ++ rest)) := by
    simp [Frame.bytes, toBe16]
  rw [hbytes, decodeFrames_header]
  · rw [hc, hp, if_neg (by omega), decodeBody_content (Nat.le_refl _), Nat.sub_self]
    have hpadding : decodeBody f.command 0 f.padding 0 (List.replicate f.padding 0 ++ rest) o = _ :=
      decodeBody_padding (by simp)
    rw [hpadding, List.length_replicate, Nat.sub_self, decodeBody_done]
  · rw [hc, hp]
    simp only [maxFrame, headerSize]
    omega
  · rw [hc]
    omega

theorem decodeFrames_open {frames : List Frame} (hfits : ∀ f ∈ frames, f.Fits)
    (hopen : Open frames) (rest : Bytes) (o : End IoError) :
    decodeFrames 0 (frames.flatMap Frame.bytes ++ rest) o =
      (decodeFrames 0 rest o).after (contents frames) := by
  induction frames with
  | nil => rfl
  | cons f frames ih =>
      obtain ⟨hf, hfs⟩ := List.forall_mem_cons.mp hfits
      obtain ⟨hcmd, hopen⟩ := List.forall_mem_cons.mp hopen
      rw [List.flatMap_cons, List.append_assoc, decodeFrames_frame hf, decodeNext, hcmd,
        if_neg (by decide), if_neg (by decide), ih hfs hopen, ← Decoded.after_append]
      rfl

/-- What is sent decodes to the contents and the raw bytes after them. -/
theorem decode_wire (uuid : Octets uuidSize) {frames : List Frame} {raw : Bytes}
    (h : Sendable frames) (hraw : Open frames ∧ raw = [] ∨ Ended frames) :
    decode uuid (wire uuid frames raw) .eof = ⟨contents frames ++ raw, .ended .eof⟩ := by
  rcases frames with _ | ⟨f, frames⟩
  · obtain ⟨-, rfl⟩ : Open [] ∧ raw = [] := by
      refine hraw.resolve_right ?_
      rintro ⟨init, last, he, -⟩
      simp at he
    rw [decode]
    split
    · next hp => exact absurd hp.2 (by simp [wire, uuidSize, headerSize])
    · rfl
  · have hfits := h.fits
    have hlen : uuidSize + headerSize ≤ (wire uuid (f :: frames) raw).length := by
      simp only [wire, List.isEmpty_cons, Bool.false_eq_true, if_false, List.length_append,
        List.flatMap_cons, Frame.length_bytes, Frame.size, uuid.size]
      omega
    have hwire : wire uuid (f :: frames) raw =
        uuid.bytes ++ ((f :: frames).flatMap Frame.bytes ++ raw) := by
      rw [wire, List.append_assoc]
      rfl
    rw [decode, if_pos ⟨⟨_, hwire.symm⟩, hlen⟩, hwire, List.drop_left' uuid.size]
    rcases hraw with ⟨hopen, rfl⟩ | ⟨init, last, he, hopen, hend⟩
    · rw [decodeFrames_open hfits hopen, decodeFrames_nil]
      rfl
    · rw [he] at hfits ⊢
      have hinit : ∀ f ∈ init, f.Fits := fun f hf => hfits f (List.mem_append_left _ hf)
      have hlast : last.Fits := hfits last (List.mem_append_right _ List.mem_cons_self)
      rw [List.flatMap_append, List.append_assoc, decodeFrames_open hinit hopen,
        List.flatMap_singleton, decodeFrames_frame hlast, decodeNext, if_pos hend]
      simp [Decoded.after, contents]

end Vision

open Vision

namespace VisionStream

/-! ## Writing leaves the reader alone -/

section

variable {σ : Type}

/-- What only reading changes. -/
def reader (st : VisionStream σ) :
    Octets uuidSize × Option Detached × Window UInt8 maxFrame × Mode :=
  (st.uuid, st.readSource, st.buffer, st.mode)

theorem stageUplink_reader (st : VisionStream σ) (buf : Bytes) :
    (st.stageUplink buf).reader = st.reader := by
  unfold stageUplink
  simp only
  split <;> rfl

variable [AsyncWrite σ]

theorem pollFinish_reader (st : VisionStream σ) : st.pollFinish.2.reader = st.reader := by
  have h : st.pollWritePending.2.reader = st.reader := rfl
  simp only [pollFinish]
  generalize st.pollWritePending = r at h ⊢
  rcases r with ⟨_ | e | ⟨⟩, st'⟩ <;> exact h

theorem pollWrite_reader (st : VisionStream σ) (buf : Bytes) :
    (pollWrite st buf).2.reader = st.reader := by
  have hraw : ∀ st : VisionStream σ, (st.pollWriteRaw buf).2.reader = st.reader := fun _ => rfl
  simp only [pollWrite]
  split
  · exact pollFinish_reader st
  · split
    · rfl
    · split
      · exact hraw st
      · rw [← stageUplink_reader st buf]
        generalize st.stageUplink buf = st'
        split
        · exact hraw st'
        · exact pollFinish_reader st'

theorem pollFlush_reader (st : VisionStream σ) : (pollFlush st).2.reader = st.reader := by
  have h : st.pollWritePending.2.reader = st.reader := rfl
  simp only [pollFlush]
  generalize st.pollWritePending = r at h ⊢
  rcases r with ⟨_ | e | ⟨⟩, st'⟩ <;> exact h

end

/-! ## Where a writer stands -/

variable {σ : Type} [AsyncWrite σ] [WriteLaw σ]

/-- What the session has accepted. -/
def accepted (st : VisionStream σ) : Bytes := WriteLaw.spec.accepted st.session

/-- Nothing is staged: the session has all frames and the raw bytes after them. -/
structure Idle (st : VisionStream σ) (frames : List Frame) (raw : Bytes) : Prop where
  sendable : Sendable frames
  nothing : st.writeBuf = []
  off : st.writeOff = 0
  accepted : st.accepted = wire st.uuid frames raw
  uuidSent : st.uuidSent = !frames.isEmpty
  framing : st.uplinkRaw = false → Open frames ∧ raw = []
  ended : st.uplinkRaw = true → Ended frames

/-- The frame `f` is staged: the session has the frames before it, and of `f` what
comes before the write offset. -/
structure Staged (st : VisionStream σ) (frames : List Frame) (f : Frame) : Prop where
  sendable : Sendable (frames ++ [f])
  open_ : Open frames
  command : f.command = cmdContinue ∨ f.command = cmdEnd
  something : st.writeBuf ≠ []
  off : st.writeOff ≤ st.writeBuf.length
  accepted : st.accepted ++ st.writeBuf.drop st.writeOff = wire st.uuid (frames ++ [f]) []
  plain : st.writePlain = f.content.length
  pendingEnd : st.pendingEnd = (f.command == cmdEnd)
  uplinkRaw : st.uplinkRaw = false

variable {st : VisionStream σ} {frames : List Frame} {f : Frame} {raw : Bytes}

/-- Draining a staged frame keeps it staged. -/
theorem pollWritePending_staged (h : Staged st frames f) :
    Staged st.pollWritePending.2 frames f ∧
      (st.pollWritePending.1 = .ready (.ok ()) →
        st.pollWritePending.2.writeOff = st.pollWritePending.2.writeBuf.length) := by
  have hd := drain_spec (WriteLaw.spec (σ := σ)) writeZero h.off st.session
  simp only [pollWritePending]
  generalize drain pollWrite writeZero st.writeBuf st.writeOff st.session = r at hd ⊢
  obtain ⟨r, off, session⟩ := r
  refine ⟨⟨h.sendable, h.open_, h.command, h.something, hd.off_bound, ?_, h.plain, h.pendingEnd,
    h.uplinkRaw⟩, hd.done⟩
  exact hd.accepted.symm.trans h.accepted

/-- With nothing staged there is nothing to drain. -/
theorem pollWritePending_idle (h : Idle st frames raw) :
    Idle st.pollWritePending.2 frames raw := by
  have hoff : st.writeOff ≤ st.writeBuf.length := by
    rw [h.off]
    exact Nat.zero_le _
  have hd := drain_spec (WriteLaw.spec (σ := σ)) writeZero hoff st.session
  simp only [pollWritePending]
  generalize drain pollWrite writeZero st.writeBuf st.writeOff st.session = r at hd ⊢
  obtain ⟨r, off, session⟩ := r
  have hoff := hd.off_bound
  have hacc := hd.accepted
  simp only [h.nothing, List.length_nil, Nat.le_zero, List.drop_nil, List.append_nil] at hoff hacc
  exact ⟨h.sendable, h.nothing, hoff, hacc.symm.trans h.accepted, h.uuidSent, h.framing, h.ended⟩

/-- A staged frame that is drained is reported with its content. -/
theorem finishUplinkFrame_idle (h : Staged st frames f)
    (hoff : st.writeOff = st.writeBuf.length) :
    Idle st.finishUplinkFrame.2 (frames ++ [f]) [] ∧
      st.finishUplinkFrame.1 = f.content.length := by
  refine ⟨⟨h.sendable, rfl, rfl, ?_, ?_, ?_, ?_⟩, h.plain⟩
  · have := h.accepted
    rwa [hoff, List.drop_length, List.append_nil] at this
  · simp [finishUplinkFrame]
  · intro hraw
    have hcmd : f.command ≠ cmdEnd := by
      simpa [finishUplinkFrame, h.uplinkRaw, h.pendingEnd] using hraw
    refine ⟨h.open_.append ?_, rfl⟩
    intro g hg
    rw [List.mem_singleton.mp hg]
    exact h.command.resolve_right hcmd
  · intro hraw
    have hcmd : f.command = cmdEnd := by
      simpa [finishUplinkFrame, h.uplinkRaw, h.pendingEnd] using hraw
    exact ⟨frames, f, rfl, h.open_, hcmd⟩

/-- Raw bytes go to the session as they are. -/
theorem pollWriteRaw_idle (h : Idle st frames raw) (hraw : st.uplinkRaw = true) (buf : Bytes) :
    Idle (st.pollWriteRaw buf).2 frames (raw ++ buf.take (st.pollWriteRaw buf).1.count) := by
  refine ⟨h.sendable, h.nothing, h.off, ?_, h.uuidSent, ?_, h.ended⟩
  · have := WriteLaw.spec.accepts st.session buf
    simp only [pollWriteRaw, accepted]
    rw [this]
    rw [show WriteLaw.spec.accepted st.session = wire st.uuid frames raw from h.accepted]
    simp [wire]
  · intro hframing
    cases hframing.symm.trans hraw

theorem uuidOver_eq (h : Idle st frames raw) :
    st.uuidOver = if frames.isEmpty then uuidSize else 0 := by
  simp only [uuidOver]
  rw [h.uuidSent]
  cases frames.isEmpty <;> rfl

theorem commandOf_cases (chunk : Bytes) :
    commandOf chunk = cmdContinue ∨ commandOf chunk = cmdEnd := by
  simp only [commandOf]
  split
  · exact Or.inr rfl
  · exact Or.inl rfl

/-- The content limit leaves room for the header, the user id and any padding. -/
theorem maxContent_eq (h : Idle st frames raw) :
    st.maxContent + st.uuidOver + 905 = maxFrame ∧ st.uuidOver ≤ uuidSize := by
  have hover : st.uuidOver ≤ uuidSize := by
    rw [uuidOver_eq h]
    split
    · exact Nat.le_refl _
    · exact Nat.zero_le _
  have hM : maxFrame = 8192 := rfl
  have hH : headerSize = 5 := rfl
  have hU : uuidSize = 16 := rfl
  simp only [maxContent]
  split
  · omega
  · omega

omit [AsyncWrite σ] [WriteLaw σ] in
theorem padFrame_eq {content : Bytes} (command : UInt8)
    (hlen : content.length ≤ maxFrame - (headerSize + st.uuidOver)) :
    ∃ padding, padding ≤ maxFrame - st.uuidOver - headerSize - content.length ∧
      st.padFrame content command =
        some ((if st.uuidSent then [] else st.uuid.bytes) ++ Frame.bytes ⟨command, content, padding⟩) := by
  refine ⟨paddingLen (st.draws 0) content.length st.uuidOver, Nat.min_le_right _ _, ?_⟩
  simp only [padFrame]
  rw [if_neg (Nat.not_lt.mpr hlen)]
  simp [Frame.bytes]

/-- What a writer with nothing staged takes of a write becomes a frame that fits. -/
theorem stageUplink_staged (h : Idle st frames raw) (hraw : st.uplinkRaw = false) {buf : Bytes}
    (hbuf : buf ≠ []) :
    ∃ f, Staged (st.stageUplink buf) frames f ∧ f.content <+: buf := by
  obtain ⟨hopen, rfl⟩ := h.framing hraw
  obtain ⟨hmax, hover⟩ := maxContent_eq h
  have hM : maxFrame = 8192 := rfl
  have hH : headerSize = 5 := rfl
  have hU : uuidSize = 16 := rfl
  have hlen : (buf.take st.maxContent).length ≤ st.maxContent := List.length_take_le _ _
  have hpre : buf.take st.maxContent <+: buf := List.take_prefix _ _
  have hne : buf.take st.maxContent ≠ [] := by
    rw [← List.length_pos_iff, List.length_take]
    have := List.length_pos_iff.mpr hbuf
    omega
  unfold stageUplink
  simp only
  generalize buf.take st.maxContent = chunk at hlen hpre hne ⊢
  obtain ⟨padding, hpadding, hframe⟩ := @padFrame_eq _ st chunk (commandOf chunk) (by omega)
  rw [hframe]
  generalize hf : Frame.mk (commandOf chunk) chunk padding = f
  have hfits : st.uuidOver + f.size ≤ maxFrame := by
    rw [← hf, Frame.size]
    simp only
    omega
  refine ⟨f, ?_, by rw [← hf]; exact hpre⟩
  have hsendable : Sendable (frames ++ [f]) := by
    constructor
    · intro g hg
      rcases List.mem_append.mp hg with hold | hnew
      · exact h.sendable.fits g hold
      · rw [List.mem_singleton.mp hnew]
        exact ⟨by rw [← hf]; exact hne, by omega⟩
    · intro g hg
      cases frames with
      | nil =>
          cases hg
          rwa [uuidOver_eq h] at hfits
      | cons g' frames => exact h.sendable.first g hg
  have hsent : wire st.uuid (frames ++ [f]) [] =
      wire st.uuid frames [] ++ ((if st.uuidSent then [] else st.uuid.bytes) ++ f.bytes) := by
    rw [h.uuidSent]
    cases frames <;> simp [wire]
  exact {
    sendable := hsendable
    open_ := hopen
    command := by rw [← hf]; exact commandOf_cases chunk
    something := by simp [Frame.bytes]
    off := Nat.zero_le _
    accepted := by
      rw [hsent, List.drop_zero]
      exact congrArg (· ++ _) h.accepted
    plain := by rw [← hf]
    pendingEnd := by rw [← hf]
    uplinkRaw := hraw }

/-! ### Writes and flushes -/

/-- Where a writer stands that has reported the bytes `reported`, the caller of
which may have to present `outstanding` again. -/
inductive Uplink (st : VisionStream σ) (outstanding : Option Bytes) (reported : Bytes) : Prop where
  | idle (frames : List Frame) (raw : Bytes) :
      Idle st frames raw → contents frames ++ raw = reported → Uplink st outstanding reported
  | staged (frames : List Frame) (f : Frame) (buf : Bytes) :
      Staged st frames f → contents frames = reported →
      outstanding = some buf → f.content <+: buf → Uplink st outstanding reported

/-- Where the answer to a write of `buf` leaves a writer. -/
inductive Answers (reported buf : Bytes) : Poll (IoResult Nat) × VisionStream σ → Prop where
  | count (n : Nat) (st : VisionStream σ) :
      n ≤ buf.length → Uplink st none (reported ++ buf.take n) →
      Answers reported buf (.ready (.ok n), st)
  | error (e : IoError) (st : VisionStream σ) :
      Uplink st (some buf) reported → Answers reported buf (.ready (.error e), st)
  | pending (st : VisionStream σ) :
      Uplink st (some buf) reported → Answers reported buf (.pending, st)

theorem pollFinish_uplink {reported buf : Bytes} (h : Staged st frames f)
    (hrep : contents frames = reported) (hbuf : f.content <+: buf) :
    Answers reported buf st.pollFinish := by
  obtain ⟨hstaged, hdone⟩ := pollWritePending_staged h
  simp only [pollFinish]
  generalize st.pollWritePending = r at hstaged hdone ⊢
  rcases r with ⟨_ | e | ⟨⟩, st'⟩
  · exact .pending _ (.staged frames f buf hstaged hrep rfl hbuf)
  · exact .error _ _ (.staged frames f buf hstaged hrep rfl hbuf)
  · obtain ⟨hidle, hn⟩ := finishUplinkFrame_idle hstaged (hdone rfl)
    simp only at hidle hn ⊢
    rw [hn]
    refine .count _ _ hbuf.length_le (.idle _ _ hidle ?_)
    rw [List.append_nil, contents_append, hrep, ← List.prefix_iff_eq_take.mp hbuf]
    simp [contents]

theorem pollWriteRaw_uplink {reported : Bytes} (h : Idle st frames raw)
    (hraw : st.uplinkRaw = true) (hrep : contents frames ++ raw = reported) (buf : Bytes) :
    Answers reported buf (st.pollWriteRaw buf) := by
  have hidle := pollWriteRaw_idle h hraw buf
  have hle : (st.pollWriteRaw buf).1.count ≤ buf.length := WriteLaw.spec.count_le st.session buf
  generalize st.pollWriteRaw buf = r at hidle hle ⊢
  rcases r with ⟨_ | e | n, st'⟩
  · exact .pending _ (.idle _ _ hidle (by simpa using hrep))
  · exact .error _ _ (.idle _ _ hidle (by simpa using hrep))
  · exact .count _ _ hle (.idle _ _ hidle (by rw [← List.append_assoc, hrep]; rfl))

/-- A write reports what went into a frame, or is to be presented again. -/
theorem pollWrite_uplink {outstanding : Option Bytes} {reported buf : Bytes}
    (h : Uplink st outstanding reported) (hagain : ∀ b, outstanding = some b → buf = b) :
    Answers reported buf (pollWrite st buf) := by
  simp only [pollWrite]
  cases h with
  | staged frames f b hstaged hrep hout hpre =>
      rw [hagain b hout, if_pos (by simpa using hstaged.something)]
      exact pollFinish_uplink hstaged hrep hpre
  | idle frames raw hidle hrep =>
      rw [if_neg (by simp [hidle.nothing])]
      by_cases hnil : buf.isEmpty
      · rw [if_pos hnil]
        exact .count _ _ (Nat.zero_le _) (.idle _ _ hidle (by simpa using hrep))
      · rw [if_neg hnil]
        cases hraw : st.uplinkRaw with
        | true =>
            rw [if_pos rfl]
            exact pollWriteRaw_uplink hidle hraw hrep buf
        | false =>
            have hne : buf ≠ [] := by simpa using hnil
            obtain ⟨f, hstaged, hpre⟩ := stageUplink_staged hidle hraw hne
            obtain ⟨-, rfl⟩ := hidle.framing hraw
            rw [if_neg Bool.false_ne_true, hstaged.uplinkRaw, if_neg Bool.false_ne_true]
            exact pollFinish_uplink hstaged (by simpa using hrep) hpre

/-- Flushing drains, and reports nothing. -/
theorem pollFlush_uplink {outstanding : Option Bytes} {reported : Bytes}
    (h : Uplink st outstanding reported) : Uplink (pollFlush st).2 outstanding reported := by
  have hpending : Uplink st.pollWritePending.2 outstanding reported := by
    cases h with
    | idle frames raw hidle hrep => exact .idle _ _ (pollWritePending_idle hidle) hrep
    | staged frames f buf hstaged hrep hout hpre =>
        exact .staged frames f buf (pollWritePending_staged hstaged).1 hrep hout hpre
  simp only [pollFlush]
  generalize st.pollWritePending = r at hpending ⊢
  rcases r with ⟨_ | e | ⟨⟩, st'⟩
  · exact hpending
  · exact hpending
  · have hflush := WriteLaw.flush_accepted st'.session
    cases hpending with
    | idle frames raw hidle hrep =>
        exact .idle frames raw { hidle with accepted := hflush.trans hidle.accepted } hrep
    | staged frames f buf hstaged hrep hout hpre =>
        refine .staged frames f buf { hstaged with accepted := ?_ } hrep hout hpre
        exact (congrArg (· ++ _) hflush).trans hstaged.accepted

/-! ## Runs of a writer -/

/-- A writer over a transport with its caller: the bytes reported written, the sum
of the counts, and the buffer that was not reported yet. -/
structure Writer where
  stream : VisionStream Transport
  reported : Bytes
  total : Nat
  outstanding : Option Bytes

inductive WriteOp where
  | write (buf : Bytes)
  | flush

/-- A write that is not reported is presented again; flushes may come in between. -/
def Writer.step (w : Writer) : WriteOp → Option Writer
  | .write buf =>
      if w.outstanding.all (· == buf) then
        some (match pollWrite w.stream buf with
          | (.ready (.ok n), stream) => ⟨stream, w.reported ++ buf.take n, w.total + n, none⟩
          | (_, stream) => { w with stream, outstanding := some buf })
      else none
  | .flush => some { w with stream := (pollFlush w.stream).2 }

def Writer.Steps (w : Writer) (op : WriteOp) (w' : Writer) : Prop := w.step op = some w'

/-- A new stream over a transport that accepts writes as the script says. -/
def Writer.start (uuid : Octets uuidSize) (draws : Nat → Nat) (writes : List WriteEvent) : Writer :=
  ⟨new (Transport.accepting writes) uuid draws, [], 0, none⟩

def Writer.written (w : Writer) : Bytes := w.stream.session.written

/-- The part of the staged frame that the transport has yet to accept. -/
def Writer.unsent (w : Writer) : Bytes := w.stream.writeBuf.drop w.stream.writeOff

structure Writer.WF (w : Writer) (uuid : Octets uuidSize) : Prop where
  uuid : w.stream.uuid = uuid
  uplink : Uplink w.stream w.outstanding w.reported
  total : w.total = w.reported.length

theorem Writer.WF.start (uuid : Octets uuidSize) (draws : Nat → Nat) (writes : List WriteEvent) :
    (Writer.start uuid draws writes).WF uuid where
  uuid := rfl
  uplink := by
    refine .idle [] [] ⟨⟨fun f hf => ?_, fun f hf => ?_⟩, rfl, rfl, rfl, rfl, fun _ => ⟨?_, rfl⟩,
      fun hraw => ?_⟩ rfl
    · cases hf
    · cases hf
    · intro f hf
      cases hf
    · cases hraw
  total := rfl

theorem Writer.WF.step {w w' : Writer} {uuid : Octets uuidSize} {op : WriteOp} (h : w.WF uuid)
    (hs : w.Steps op w') : w'.WF uuid := by
  cases op with
  | flush =>
      cases hs
      exact ⟨(congrArg Prod.fst (pollFlush_reader w.stream)).trans h.uuid, pollFlush_uplink h.uplink, h.total⟩
  | write buf =>
      simp only [Writer.Steps, Writer.step] at hs
      split at hs
      · next hagain =>
          have huuid := (congrArg Prod.fst (pollWrite_reader w.stream buf)).trans h.uuid
          have hsame : ∀ b, w.outstanding = some b → buf = b := by
            intro b hb
            rw [hb] at hagain
            exact (by simpa using hagain : b = buf).symm
          have hans := pollWrite_uplink h.uplink hsame
          cases hs
          generalize pollWrite w.stream buf = r at huuid hans ⊢
          cases hans with
          | count n st hn hup =>
              refine ⟨huuid, hup, ?_⟩
              simp only
              rw [h.total, List.length_append, List.length_take, Nat.min_eq_left hn]
          | error e st hup => exact ⟨huuid, hup, h.total⟩
          | pending st hup => exact ⟨huuid, hup, h.total⟩
      · cases hs

/-- At any point of any run of writes and flushes, with whatever the transport
accepts when and whatever padding is drawn: what the transport has, and what is
left of a staged frame, is the user id and frames that a reader accepts, up to
the first end frame and then raw bytes; their content is what was reported
written and what the staged frame holds of the write that has yet to be reported;
and a stream with the same user id reads just that back.  When every write has
been reported, nothing is staged. -/
theorem writer_wire {uuid : Octets uuidSize} {draws : Nat → Nat} {writes : List WriteEvent}
    {ops : List WriteOp} {w : Writer} (h : Run Writer.Steps (Writer.start uuid draws writes) ops w) :
    ∃ frames raw staged,
      Sendable frames ∧ (Open frames ∧ raw = [] ∨ Ended frames) ∧
      w.written ++ w.unsent = wire uuid frames raw ∧
      contents frames ++ raw = w.reported ++ staged ∧
      w.total = w.reported.length ∧
      (w.outstanding = none → w.unsent = [] ∧ staged = []) ∧
      ∀ reads draws', unread reads = w.written ++ w.unsent →
        Delivers pollRead (new (Transport.serving reads .eof) uuid draws')
          (w.reported ++ staged) .eof := by
  have hwf : w.WF uuid := h.invariant (I := fun w : Writer => w.WF uuid)
    (fun hwf hs => hwf.step hs) (Writer.WF.start uuid draws writes)
  obtain ⟨huuid, hup, htotal⟩ := hwf
  suffices hwire : ∃ frames raw staged, Sendable frames ∧ (Open frames ∧ raw = [] ∨ Ended frames) ∧
      w.written ++ w.unsent = wire uuid frames raw ∧
      contents frames ++ raw = w.reported ++ staged ∧
      (w.outstanding = none → w.unsent = [] ∧ staged = []) by
    obtain ⟨frames, raw, staged, hsend, hraw, hon, hcontents, hnone⟩ := hwire
    refine ⟨frames, raw, staged, hsend, hraw, hon, hcontents, htotal, hnone, ?_⟩
    intro reads draws' hreads
    refine delivers_decode uuid draws' reads ?_
    rw [hreads, hon, decode_wire uuid hsend hraw, hcontents]
  cases hup with
  | idle frames raw hidle hrep =>
      have hunsent : w.unsent = [] := by rw [Writer.unsent, hidle.nothing, List.drop_nil]
      refine ⟨frames, raw, [], hidle.sendable, ?_, ?_, by rw [hrep, List.append_nil],
        fun _ => ⟨hunsent, rfl⟩⟩
      · cases hraw : w.stream.uplinkRaw with
        | false => exact Or.inl (hidle.framing hraw)
        | true => exact Or.inr (hidle.ended hraw)
      · rw [hunsent, List.append_nil, ← huuid]
        exact hidle.accepted
  | staged frames f buf hstaged hrep hout hpre =>
      refine ⟨frames ++ [f], [], f.content, hstaged.sendable, ?_, ?_, ?_, ?_⟩
      · rcases hstaged.command with hcont | hend
        · refine Or.inl ⟨hstaged.open_.append ?_, rfl⟩
          intro g hg
          rw [List.mem_singleton.mp hg]
          exact hcont
        · exact Or.inr ⟨frames, f, rfl, hstaged.open_, hend⟩
      · rw [← huuid]
        exact hstaged.accepted
      · rw [List.append_nil, contents_append, hrep]
        simp [contents]
      · intro hnone
        cases hout.symm.trans hnone

/-- Two bytes of a TLS application record: pending, drained in part by a flush, then
reported, and two more after the end frame. -/
theorem writer_wire_record :
    let uuid : Octets uuidSize := ⟨List.replicate 16 7, rfl⟩
    ∃ w, Run Writer.Steps (Writer.start uuid (fun _ => 3) [.pending, .accept 11])
        [.write [0x17, 3], .flush, .write [0x17, 3], .write [5, 6]] w ∧
      ∃ frames raw staged,
        Sendable frames ∧ (Open frames ∧ raw = [] ∨ Ended frames) ∧
        w.written ++ w.unsent = wire uuid frames raw ∧
        contents frames ++ raw = w.reported ++ staged ∧
        w.total = w.reported.length ∧
        (w.outstanding = none → w.unsent = [] ∧ staged = []) ∧
        ∀ reads draws', unread reads = w.written ++ w.unsent →
          Delivers pollRead (new (Transport.serving reads .eof) uuid draws')
            (w.reported ++ staged) .eof := by
  intro uuid
  have heval : (([.write [0x17, 3], .flush, .write [0x17, 3], .write [5, 6]] : List WriteOp).foldlM
      Writer.step (Writer.start uuid (fun _ => 3) [.pending, .accept 11])).isSome := by
    decide +kernel
  obtain ⟨w, hw⟩ := Option.isSome_iff_exists.mp heval
  exact ⟨w, run_of_foldlM hw, writer_wire (run_of_foldlM hw)⟩

end VisionStream

end RustClash
