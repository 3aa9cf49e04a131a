import RustClash.Lib.Layers
import RustClash.Proxynet.HttpObfsWrite
import RustClash.Proxynet.Reality
import RustClash.Proxynet.RecordWrite
import RustClash.Proxynet.SsWrite
import RustClash.Proxynet.TlsObfsWire
import RustClash.Proxynet.VisionDetach
import RustClash.Proxynet.VisionWrite
import RustClash.Proxynet.Vless
import RustClash.Proxynet.Vmess.StreamWrite
import RustClash.Proxynet.WebSocket

/-!
# Stacks of streams

A dial puts streams on one another, and what is written at the top goes through all of them.  Each
is a layer: over any sink it is a sink that has handed on what it reported.  So a stack of them in
any order is one too, and a relay that never flushes leaves nothing behind in it.
-/

namespace RustClash

open Vision

/-! ## Streams as layers -/

section

variable {Over : Type → Type} (io : ∀ σ : Type, AsyncWrite σ → AsyncWrite (Over σ))

/-- A stream that may lie over any other. -/
def streamLayer (below : ∀ {σ : Type}, Over σ → σ) (Fresh : ∀ {σ : Type}, Over σ → Prop)
    (Carries : List Bytes → Bytes → Prop) : SinkLayer UInt8 IoError where
  Over := Over
  below := below
  write w f := (io _ ⟨w, f⟩).pollWrite
  flush w f := (io _ ⟨w, f⟩).pollFlush
  Fresh := Fresh
  Carries := Carries

variable {io}

def streamLaw {below : ∀ {σ : Type}, Over σ → σ} {Fresh : ∀ {σ : Type}, Over σ → Prop}
    {Carries : List Bytes → Bytes → Prop}
    (spec : ∀ {σ : Type} [AsyncWrite σ],
      SinkSpec (pollWrite : WriteFn σ UInt8 IoError) pollFlush →
      SinkSpec (io σ inferInstance).pollWrite (io σ inferInstance).pollFlush)
    (fresh : ∀ {σ : Type} [AsyncWrite σ]
      (inner : SinkSpec (pollWrite : WriteFn σ UInt8 IoError) pollFlush) {st : Over σ},
      Fresh st → inner.Reports (below st) none [] → (spec inner).Reports st none [])
    (carries : ∀ {σ : Type} [AsyncWrite σ]
      (inner : SinkSpec (pollWrite : WriteFn σ UInt8 IoError) pollFlush) {st : Over σ}
      {pieces : List Bytes}, (spec inner).Reports st none pieces →
      ∃ items, inner.Reports (below st) none items ∧ Carries pieces items.flatten) :
    (streamLayer io below Fresh Carries).Law where
  spec {_ w f} inner := let _ : AsyncWrite _ := ⟨w, f⟩; spec inner
  fresh {_ w f} inner _ hfresh hbelow := let _ : AsyncWrite _ := ⟨w, f⟩; fresh inner hfresh hbelow
  carries {_ w f} inner _ _ h := let _ : AsyncWrite _ := ⟨w, f⟩; carries inner h

end

/-! ## Vision -/

namespace VisionStream

/-- The same stream over another session. -/
def withSession {σ τ : Type} (st : VisionStream σ) (session : τ) : VisionStream τ :=
  { st with session }

theorem uuidOver_withSession {σ τ : Type} (st : VisionStream σ) (session : τ) :
    (st.withSession session).uuidOver = st.uuidOver := rfl

theorem padFrame_withSession {σ τ : Type} (st : VisionStream σ) (session : τ) (content : Bytes)
    (command : UInt8) :
    (st.withSession session).padFrame content command = st.padFrame content command := by
  rw [padFrame, padFrame, uuidOver_withSession]
  rfl

theorem maxContent_withSession {σ τ : Type} (st : VisionStream σ) (session : τ) :
    (st.withSession session).maxContent = st.maxContent := by
  rw [maxContent, maxContent, uuidOver_withSession]

/-- The session plays no part in staging. -/
theorem stageUplink_withSession {σ τ : Type} (st : VisionStream σ) (session : τ) (buf : Bytes) :
    (st.withSession session).stageUplink buf = (st.stageUplink buf).withSession session := by
  unfold stageUplink
  dsimp only
  rw [maxContent_withSession, padFrame_withSession]
  generalize st.padFrame (buf.take st.maxContent) (commandOf (buf.take st.maxContent)) = frame
  generalize commandOf (buf.take st.maxContent) = command
  generalize buf.take st.maxContent = chunk
  cases frame with
  | none => rfl
  | some frame => rfl

/-- A frame that is staged is new. -/
theorem stageUplink_off {σ : Type} {st : VisionStream σ} {buf : Bytes}
    (h : (st.stageUplink buf).uplinkRaw = false) : (st.stageUplink buf).writeOff = 0 := by
  unfold stageUplink at h ⊢
  dsimp only at h ⊢
  split at h
  · rfl
  · cases h

variable {σ : Type} [AsyncWrite σ] {spec : SinkSpec (pollWrite : WriteFn σ UInt8 IoError) pollFlush}
  {uuid : Octets uuidSize} {st : VisionStream σ} {frames : List Frame} {f : Frame}
  {out : Option Bytes} {pieces : List Bytes} {buf : Bytes}

/-- Nothing is staged, and the session has the frames. -/
structure Framing (spec : SinkSpec (pollWrite : WriteFn σ UInt8 IoError) pollFlush)
    (uuid : Octets uuidSize) (st : VisionStream σ) (frames : List Frame) : Prop where
  user : st.uuid = uuid
  sendable : Sendable frames
  open_ : Open frames
  nothing : st.writeBuf = []
  off : st.writeOff = 0
  uuidSent : st.uuidSent = !frames.isEmpty
  uplinkRaw : st.uplinkRaw = false
  held : spec.Holding [] st.session (wire uuid frames [])

/-- The frame `f` is on its way. -/
structure Draining (spec : SinkSpec (pollWrite : WriteFn σ UInt8 IoError) pollFlush)
    (uuid : Octets uuidSize) (st : VisionStream σ) (frames : List Frame) (f : Frame) : Prop where
  user : st.uuid = uuid
  sendable : Sendable (frames ++ [f])
  open_ : Open frames
  command : f.command = cmdContinue ∨ f.command = cmdEnd
  something : st.writeBuf ≠ []
  off : st.writeOff ≤ st.writeBuf.length
  plain : st.writePlain = f.content.length
  pendingEnd : st.pendingEnd = (f.command == cmdEnd)
  uplinkRaw : st.uplinkRaw = false
  held : spec.Holding (st.writeBuf.drop st.writeOff) st.session (wire uuid (frames ++ [f]) [])

/-- The session has the frames and the raw bytes after them, and waits for `out`. -/
structure Passing (spec : SinkSpec (pollWrite : WriteFn σ UInt8 IoError) pollFlush)
    (uuid : Octets uuidSize) (st : VisionStream σ) (frames : List Frame) (raw : Bytes)
    (out : Option Bytes) : Prop where
  sendable : Sendable frames
  ended : Ended frames
  nothing : st.writeBuf = []
  off : st.writeOff = 0
  uplinkRaw : st.uplinkRaw = true
  reports : ∃ inner, spec.Reports st.session out inner ∧ inner.flatten = wire uuid frames raw

/-- Where a writer stands that has reported `pieces`. -/
inductive Uplinks (spec : SinkSpec (pollWrite : WriteFn σ UInt8 IoError) pollFlush)
    (uuid : Octets uuidSize) (st : VisionStream σ) : Option Bytes → List Bytes → Prop
| framing {frames : List Frame} {pieces : List Bytes} :
  Framing spec uuid st frames ->
  contents frames = pieces.flatten ->
  Uplinks spec uuid st none pieces
| draining {frames : List Frame} {f : Frame} {pieces : List Bytes} {buf : Bytes} :
  Draining spec uuid st frames f ->
  contents frames = pieces.flatten ->
  f.content <+: buf ->
  Uplinks spec uuid st (some buf) pieces
| passing {frames : List Frame} {raw : Bytes} {out : Option Bytes} {pieces : List Bytes} :
  Passing spec uuid st frames raw out ->
  contents frames ++ raw = pieces.flatten ->
  Uplinks spec uuid st out pieces

/-- What is taken of a write becomes a frame, as it would over a transport. -/
theorem Framing.stage (h : Framing spec uuid st frames) (hbuf : buf ≠ []) :
    ∃ f, Draining spec uuid (st.stageUplink buf) frames f ∧ f.content <+: buf := by
  let t : Transport := ⟨[], .eof, [], wire uuid frames []⟩
  have hidle : Idle (st.withSession t) frames [] := by
    refine ⟨h.sendable, h.nothing, h.off, ?_, h.uuidSent, fun _ => ⟨h.open_, rfl⟩, ?_⟩
    · rw [show (st.withSession t).uuid = uuid from h.user]
      rfl
    · intro hraw
      cases h.uplinkRaw.symm.trans hraw
  obtain ⟨f, hstaged, hcontent⟩ := stageUplink_staged hidle h.uplinkRaw hbuf
  rw [stageUplink_withSession] at hstaged
  have hsession := stageUplink_session st buf
  have hoff := @stageUplink_off _ st buf
  have huser : (st.stageUplink buf).uuid = uuid := by
    have hreader := stageUplink_reader st buf
    simp only [reader, Prod.mk.injEq] at hreader
    exact hreader.1.trans h.user
  generalize st.stageUplink buf = st' at hstaged hsession hoff huser
  have hoff := hoff hstaged.uplinkRaw
  have hwire : wire uuid frames [] ++ st'.writeBuf = wire uuid (frames ++ [f]) [] := by
    have haccepted := hstaged.accepted
    rw [show (st'.withSession t).writeOff = 0 from hoff, List.drop_zero,
      show (st'.withSession t).uuid = uuid from huser] at haccepted
    exact haccepted
  refine ⟨f, ⟨huser, hstaged.sendable, h.open_, hstaged.command, hstaged.something, hstaged.off,
    hstaged.plain, hstaged.pendingEnd, hstaged.uplinkRaw, ?_⟩, hcontent⟩
  rw [hoff, List.drop_zero, hsession, ← hwire]
  exact h.held.restart _

/-- Draining a staged frame keeps it staged. -/
theorem Draining.pending (h : Draining spec uuid st frames f) :
    Draining spec uuid st.pollWritePending.2 frames f ∧
      (st.pollWritePending.1 = .ready (.ok ()) →
        st.pollWritePending.2.writeOff = st.pollWritePending.2.writeBuf.length) := by
  have hdrain := h.held.drain h.off writeZero
  simp only [pollWritePending]
  generalize drain pollWrite writeZero st.writeBuf st.writeOff st.session = r at hdrain ⊢
  obtain ⟨r, off, session⟩ := r
  exact ⟨⟨h.user, h.sendable, h.open_, h.command, h.something, hdrain.off_bound, h.plain,
    h.pendingEnd, h.uplinkRaw, hdrain.held⟩, hdrain.done⟩

/-- A frame that is drained is reported, and the last one ends the framing. -/
theorem Draining.finish (h : Draining spec uuid st frames f)
    (hcontent : contents frames = pieces.flatten) (hfront : f.content <+: buf)
    (hdone : st.writeOff = st.writeBuf.length) :
    Uplinks spec uuid st.finishUplinkFrame.2 none
      (report pieces (buf.take st.finishUplinkFrame.1)) := by
  have hheld := h.held
  rw [hdone, List.drop_length] at hheld
  have hreported : contents (frames ++ [f]) =
      (report pieces (buf.take st.finishUplinkFrame.1)).flatten := by
    rw [flatten_report, contents_append, hcontent, show st.finishUplinkFrame.1 = _ from h.plain,
      ← List.prefix_iff_eq_take.mp hfront]
    simp [contents]
  rcases h.command with hcommand | hcommand
  · have hframing : Framing spec uuid st.finishUplinkFrame.2 (frames ++ [f]) := by
      refine ⟨h.user, h.sendable, h.open_.append fun g hg => ?_, rfl, rfl, ?_, ?_, hheld⟩
      · rw [List.mem_singleton.mp hg]
        exact hcommand
      · simp [finishUplinkFrame]
      · simp [finishUplinkFrame, h.uplinkRaw, h.pendingEnd, hcommand, cmdContinue, cmdEnd]
    exact .framing hframing hreported
  · obtain ⟨inner, hreports, hflat⟩ := hheld.done
    have hpassing : Passing spec uuid st.finishUplinkFrame.2 (frames ++ [f]) [] none := by
      refine ⟨h.sendable, ⟨frames, f, rfl, h.open_, hcommand⟩, rfl, rfl, ?_, inner, hreports, hflat⟩
      simp [finishUplinkFrame, h.pendingEnd, hcommand]
    exact .passing hpassing ((List.append_nil _).trans hreported)

theorem Draining.answered (h : Draining spec uuid st frames f)
    (hcontent : contents frames = pieces.flatten) (hfront : f.content <+: buf) :
    Answered (Uplinks spec uuid) pieces buf st.pollFinish := by
  obtain ⟨hstaged, hdone⟩ := h.pending
  simp only [pollFinish]
  generalize st.pollWritePending = r at hstaged hdone
  rcases r with ⟨_ | e | ⟨⟩, st'⟩
  · exact .pending _ (.draining hstaged hcontent hfront)
  · exact .error _ _ (.draining hstaged hcontent hfront)
  · refine .count _ _ ?_ (hstaged.finish hcontent hfront (hdone rfl))
    exact Nat.le_trans (Nat.le_of_eq hstaged.plain) hfront.length_le

/-- Behind the last frame a write goes to the session as it is. -/
theorem Passing.answered {raw : Bytes} (h : Passing spec uuid st frames raw out)
    (hcontent : contents frames ++ raw = pieces.flatten) (hne : buf ≠ [])
    (hagain : ∀ b, out = some b → buf = b) :
    Answered (Uplinks spec uuid) pieces buf (st.pollWriteRaw buf) := by
  obtain ⟨inner, hreports, hflat⟩ := h.reports
  have hans := spec.write hreports hne hagain
  simp only [pollWriteRaw]
  generalize pollWrite st.session buf = r at hans
  have hstays : ∀ {session : σ}, spec.Reports session (some buf) inner →
      Uplinks spec uuid ({ st with session } : VisionStream σ) (some buf) pieces := fun hr =>
    .passing ⟨h.sendable, h.ended, h.nothing, h.off, h.uplinkRaw, inner, hr, hflat⟩ hcontent
  cases hans with
  | count n session hn hr =>
    have hpassing : Passing spec uuid { st with session } frames (raw ++ buf.take n) none := by
      refine ⟨h.sendable, h.ended, h.nothing, h.off, h.uplinkRaw, _, hr, ?_⟩
      simp only [flatten_report, hflat, wire, List.append_assoc]
    refine .count _ _ hn (.passing hpassing ?_)
    rw [flatten_report, ← List.append_assoc, hcontent]
  | error e session hr => exact .error _ _ (hstays hr)
  | pending session hr => exact .pending _ (hstays hr)

theorem pollWrite_answered (h : Uplinks spec uuid st out pieces) (hne : buf ≠ [])
    (hagain : ∀ b, out = some b → buf = b) :
    Answered (Uplinks spec uuid) pieces buf (pollWrite st buf) := by
  have hsome : ¬ (buf.isEmpty = true) := by simpa using hne
  simp only [pollWrite]
  cases h with
  | draining hstaged hcontent hprefix =>
    cases hagain _ rfl
    rw [if_pos (by simpa using hstaged.something)]
    exact hstaged.answered hcontent hprefix
  | framing hframing hcontent =>
    obtain ⟨f, hstaged, hprefix⟩ := hframing.stage hne
    rw [if_neg (by simp [hframing.nothing]), if_neg hsome, if_neg (by simp [hframing.uplinkRaw]),
      if_neg (by simp [hstaged.uplinkRaw])]
    exact hstaged.answered hcontent hprefix
  | passing hpassing hcontent =>
    rw [if_neg (by simp [hpassing.nothing]), if_neg hsome, if_pos hpassing.uplinkRaw]
    exact hpassing.answered hcontent hne hagain

/-- With nothing staged, a drain does nothing. -/
theorem pollWritePending_nothing (hnothing : st.writeBuf = []) (hoff : st.writeOff = 0) :
    st.pollWritePending = (.ready (.ok ()), st) := by
  have hdrain : drain pollWrite writeZero st.writeBuf st.writeOff st.session =
      (.ready (.ok ()), st.writeOff, st.session) := by
    rw [hnothing, hoff]
    exact Loop.run_inr rfl
  rw [pollWritePending, hdrain]

theorem pollFlush_uplinks (h : Uplinks spec uuid st out pieces) :
    Uplinks spec uuid (pollFlush st).2 out pieces := by
  simp only [pollFlush]
  cases h with
  | framing h hcontent =>
    rw [pollWritePending_nothing h.nothing h.off]
    exact .framing { h with held := h.held.flushed } hcontent
  | passing h hcontent =>
    rw [pollWritePending_nothing h.nothing h.off]
    obtain ⟨inner, hreports, hflat⟩ := h.reports
    exact .passing { h with reports := ⟨inner, spec.flush hreports, hflat⟩ } hcontent
  | draining h hcontent hprefix =>
    obtain ⟨hstaged, -⟩ := h.pending
    generalize st.pollWritePending = r at hstaged
    rcases r with ⟨_ | e | ⟨⟩, st'⟩
    · exact .draining hstaged hcontent hprefix
    · exact .draining hstaged hcontent hprefix
    · exact .draining { hstaged with held := hstaged.held.flushed } hcontent hprefix

/-- A Vision stream over a sink is a sink. -/
def sinkSpec (spec : SinkSpec (pollWrite : WriteFn σ UInt8 IoError) pollFlush)
    (uuid : Octets uuidSize) :
    SinkSpec (pollWrite : WriteFn (VisionStream σ) UInt8 IoError) pollFlush where
  Reports := Uplinks spec uuid
  write := pollWrite_answered
  flush := pollFlush_uplinks

theorem uplinks_new (uuid : Octets uuidSize) (draws : Nat → Nat) {session : σ}
    (h : spec.Reports session none []) : Uplinks spec uuid (new session uuid draws) none [] := by
  have hsendable : Sendable [] := ⟨fun _ hf => (by cases hf), fun _ hf => (by cases hf)⟩
  have hframing : Framing spec uuid (new session uuid draws) [] :=
    ⟨rfl, hsendable, fun _ hf => (by cases hf), rfl, rfl, rfl, rfl, .start h []⟩
  exact .framing hframing rfl

/-- What the session has decodes to what was reported. -/
theorem Uplinks.carried (h : Uplinks spec uuid st none pieces) :
    ∃ items, spec.Reports st.session none items ∧
      decode uuid items.flatten .eof = ⟨pieces.flatten, .ended .eof⟩ := by
  cases h with
  | framing hframing hcontent =>
    obtain ⟨items, hreports, hflat⟩ := hframing.held.done
    refine ⟨items, hreports, ?_⟩
    rw [hflat, decode_wire uuid hframing.sendable (.inl ⟨hframing.open_, rfl⟩), List.append_nil,
      hcontent]
  | passing hpassing hcontent =>
    obtain ⟨items, hreports, hflat⟩ := hpassing.reports
    refine ⟨items, hreports, ?_⟩
    rw [hflat, decode_wire uuid hpassing.sendable (.inr hpassing.ended), hcontent]

/-- What the session has decodes to what is reported. -/
def layer (uuid : Octets uuidSize) : SinkLayer UInt8 IoError :=
  streamLayer (fun _ _ => VisionStream.instAsyncWrite) session
    (fun st => ∃ draws, st = .new st.session uuid draws)
    fun pieces items => decode uuid items .eof = ⟨pieces.flatten, .ended .eof⟩

def law (uuid : Octets uuidSize) : (layer uuid).Law :=
  streamLaw (fun inner => sinkSpec inner uuid)
    (by
      rintro σ _ inner st ⟨draws, hst⟩ hbelow
      exact hst ▸ uplinks_new uuid draws hbelow)
    fun _ _ _ h => h.carried

end VisionStream

/-! ## WebSocket -/

/-- A stream behind a prefix writes as the stream does. -/
def PrefixedStream.sinkSpec {σ : Type} [AsyncWrite σ]
    (spec : SinkSpec (pollWrite : WriteFn σ UInt8 IoError) pollFlush) :
    SinkSpec (pollWrite : WriteFn (PrefixedStream σ) UInt8 IoError) pollFlush where
  Reports st := spec.Reports st.inner
  write := by
    intro st out pieces buf h hne hagain
    have hans := spec.write h hne hagain
    simp only [pollWrite]
    generalize AsyncWrite.pollWrite st.inner buf = r at hans
    cases hans with
    | count n s hn hr => exact .count n _ hn hr
    | error e s hr => exact .error e _ hr
    | pending s hr => exact .pending _ hr
  flush h := spec.flush h

namespace WebSocketStream

open WebSocket

/-- The frames of the pieces from the `k`th on; each has its own four bytes of the generator. -/
def framesFrom (rng : Nat → UInt8) : Nat → List Bytes → Bytes
  | _, [] => []
  | k, piece :: pieces =>
      encodeClientBinaryFrame (maskKey fun n => rng (n + 4 * k)) piece ++
        framesFrom rng (k + 1) pieces

theorem framesFrom_append (rng : Nat → UInt8) (k : Nat) (pieces : List Bytes) (piece : Bytes) :
    framesFrom rng k (pieces ++ [piece]) = framesFrom rng k pieces ++
      encodeClientBinaryFrame (maskKey fun n => rng (n + 4 * (k + pieces.length))) piece := by
  induction pieces generalizing k with
  | nil => exact List.append_nil _
  | cons p pieces ih =>
    rw [List.cons_append, framesFrom, ih, framesFrom, List.append_assoc, List.length_cons,
      Nat.add_assoc, Nat.add_comm 1]

variable {σ : Type} [AsyncWrite σ] {spec : SinkSpec (pollWrite : WriteFn σ UInt8 IoError) pollFlush}
  {rng : Nat → UInt8} {st : WebSocketStream σ} {out : Option Bytes} {pieces : List Bytes}
  {buf : Bytes}

/-- Every frame is with the stream below. -/
structure Idle (spec : SinkSpec (pollWrite : WriteFn σ UInt8 IoError) pollFlush)
    (rng : Nat → UInt8) (st : WebSocketStream σ) (pieces : List Bytes) : Prop where
  nothing : st.writeBuf = []
  drawn : st.rng = fun n => rng (n + 4 * pieces.length)
  held : (PrefixedStream.sinkSpec spec).Holding [] st.inner (framesFrom rng 0 pieces)

/-- The frame of the last piece is on its way. -/
structure Staged (spec : SinkSpec (pollWrite : WriteFn σ UInt8 IoError) pollFlush)
    (rng : Nat → UInt8) (st : WebSocketStream σ) (pieces : List Bytes) (piece : Bytes) : Prop where
  something : st.writeBuf ≠ []
  pos : st.writePos ≤ st.writeBuf.length
  payload : st.writePayload = piece.length
  drawn : st.rng = fun n => rng (n + 4 * (pieces.length + 1))
  held : (PrefixedStream.sinkSpec spec).Holding (st.writeBuf.drop st.writePos) st.inner
    (framesFrom rng 0 (pieces ++ [piece]))

/-- Where a writer stands that has reported `pieces`. -/
inductive Masked (spec : SinkSpec (pollWrite : WriteFn σ UInt8 IoError) pollFlush)
    (rng : Nat → UInt8) (st : WebSocketStream σ) : Option Bytes → List Bytes → Prop
| idle {pieces : List Bytes} :
  Idle spec rng st pieces ->
  Masked spec rng st none pieces
| staged {buf : Bytes} {pieces : List Bytes} :
  Staged spec rng st pieces buf ->
  Masked spec rng st (some buf) pieces

/-- The staged frame after `stage`. -/
theorem Masked.stage (h : Masked spec rng st out pieces) (hagain : ∀ b, out = some b → buf = b) :
    Staged spec rng (st.stage buf) pieces buf := by
  cases h with
  | staged h =>
    cases hagain _ rfl
    rw [stage, if_neg (by simpa using h.something)]
    exact h
  | idle h =>
    rw [stage, if_pos (by simp [h.nothing])]
    refine ⟨List.cons_ne_nil _ _, Nat.zero_le _, rfl, ?_, ?_⟩
    · rw [h.drawn]
      funext n
      exact congrArg rng (by omega)
    · rw [h.drawn, framesFrom_append, List.drop_zero, Nat.zero_add]
      exact h.held.restart _

theorem pollWrite_answered (h : Masked spec rng st out pieces) (hne : buf ≠ [])
    (hagain : ∀ b, out = some b → buf = b) :
    Answered (Masked spec rng) pieces buf (pollWrite st buf) := by
  have hstaged := h.stage hagain
  have hdrain := hstaged.held.drain hstaged.pos writeZero
  simp only [pollWrite]
  rw [if_neg (by simp [hne])]
  generalize st.stage buf = st' at hstaged hdrain
  generalize drain AsyncWrite.pollWrite writeZero st'.writeBuf st'.writePos st'.inner = r at hdrain
  obtain ⟨r, pos, inner⟩ := r
  have hstays : Masked spec rng ({ st' with writePos := pos, inner } : WebSocketStream σ) (some buf)
      pieces :=
    .staged ⟨hstaged.something, hdrain.off_bound, hstaged.payload, hstaged.drawn, hdrain.held⟩
  rcases r with _ | e | ⟨⟩
  · exact .pending _ hstays
  · exact .error _ _ hstays
  · have hheld := hdrain.held
    rw [hdrain.done rfl, List.drop_length] at hheld
    refine .count _ _ (Nat.le_of_eq hstaged.payload) ?_
    rw [hstaged.payload, List.take_length, report_of_ne _ hne]
    refine .idle ⟨rfl, ?_, hheld⟩
    rw [List.length_append, List.length_singleton]
    exact hstaged.drawn

theorem pollFlush_masked (h : Masked spec rng st out pieces) :
    Masked spec rng (pollFlush st).2 out pieces := by
  cases h with
  | idle h => exact .idle { h with held := h.held.flushed }
  | staged h => exact .staged { h with held := h.held.flushed }

/-- A WebSocket stream over a sink is a sink. -/
def sinkSpec (spec : SinkSpec (pollWrite : WriteFn σ UInt8 IoError) pollFlush) (rng : Nat → UInt8) :
    SinkSpec (pollWrite : WriteFn (WebSocketStream σ) UInt8 IoError) pollFlush where
  Reports := Masked spec rng
  write := pollWrite_answered
  flush := pollFlush_masked

theorem masked_new (rng : Nat → UInt8) (leftover : Bytes) {inner : σ}
    (h : spec.Reports inner none []) : Masked spec rng (new inner leftover rng) none [] :=
  .idle ⟨rfl, rfl, SinkSpec.Holding.start h []⟩

theorem Masked.carried (h : Masked spec rng st none pieces) :
    ∃ items, spec.Reports st.inner.inner none items ∧ items.flatten = framesFrom rng 0 pieces := by
  cases h with
  | idle h => exact h.held.done

def layer (rng : Nat → UInt8) : SinkLayer UInt8 IoError :=
  streamLayer (fun _ _ => WebSocketStream.instAsyncWrite) (fun st => st.inner.inner)
    (fun st => ∃ leftover, st = .new st.inner.inner leftover rng)
    fun pieces items => items = framesFrom rng 0 pieces

def law (rng : Nat → UInt8) : (layer rng).Law :=
  streamLaw (fun inner => sinkSpec inner rng)
    (by
      rintro σ _ inner st ⟨leftover, hst⟩ hbelow
      exact hst ▸ masked_new rng leftover hbelow)
    fun _ _ _ h => h.carried

end WebSocketStream

/-! ## The other streams -/

open Ss Vmess Reality

section

variable {σ : Type} [AsyncWrite σ] {spec : SinkSpec (pollWrite : WriteFn σ UInt8 IoError) pollFlush}
  {pieces : List Bytes}

/-- The VLESS response stream writes as the stream below it does. -/
def VlessResponseStream.sinkSpec
    (spec : SinkSpec (pollWrite : WriteFn σ UInt8 IoError) pollFlush) :
    SinkSpec (pollWrite : WriteFn (VlessResponseStream σ) UInt8 IoError) pollFlush where
  Reports st := spec.Reports st.inner
  write := by
    intro st out pieces buf h hne hagain
    have hans := spec.write h hne hagain
    simp only [pollWrite]
    generalize AsyncWrite.pollWrite st.inner buf = r at hans
    cases hans with
    | count n s hn hr => exact .count n _ hn hr
    | error e s hr => exact .error e _ hr
    | pending s hr => exact .pending _ hr
  flush h := spec.flush h

/-- A REALITY stream writes as its records do. -/
def RealityTlsStream.sinkSpec (spec : SinkSpec (pollWrite : WriteFn σ UInt8 IoError) pollFlush)
    (key : WriteKey) :
    SinkSpec (pollWrite : WriteFn (RealityTlsStream σ) UInt8 IoError) pollFlush where
  Reports st := TlsRecordStream.Sealing spec [] ⟨some key, []⟩ st.records
  write := by
    intro st out pieces buf h hne hagain
    have hans := TlsRecordStream.pollWriteApp_answered h hne hagain
    simp only [pollWrite]
    generalize st.records.pollWriteApp buf = r at hans
    cases hans with
    | count n s hn hr => exact .count n _ hn hr
    | error e s hr => exact .error e _ hr
    | pending s hr => exact .pending _ hr
  flush h := TlsRecordStream.pollFlushApp_sealing h

theorem TlsRecordStream.Sealing.carried {e : Epoch} {st : TlsRecordStream σ}
    (h : Sealing spec [] e st none pieces) :
    ∃ items, spec.Reports st.transport none items ∧ items.flatten = (e.addData pieces).wire := by
  cases h with
  | idle h => exact h.held.done
  | staged hout => cases hout

/-- A stream that a handshake has left, with nothing sent under its key. -/
theorem TlsRecordStream.sealing_fresh {key : WriteKey} {st : TlsRecordStream σ}
    (houtbound : st.outbound = []) (hoff : st.outboundOff = 0)
    (hwrite : st.write = Epoch.protection ⟨some key, []⟩) (h : spec.Reports st.transport none []) :
    Sealing spec [] ⟨some key, []⟩ st none [] :=
  .idle ⟨fun _ hp => (by cases hp), houtbound, hoff, hwrite, SinkSpec.Holding.start h []⟩

theorem ShadowedStream.Sealing.carried {p : SsPrimitives} {st : ShadowedStream p σ}
    {kind : SsCipher} {password : String} {salt : Bytes}
    (h : Sealing spec salt (keyed p kind password salt) st none pieces) :
    ∃ items, spec.Reports st.inner none items ∧
      items.flatten = sealed p kind password salt pieces := by
  cases h with
  | fresh h => exact h.held.done
  | idle _ hne h =>
    obtain ⟨items, hreports, hflat⟩ := h.held.done
    exact ⟨items, hreports, hflat.trans (if_neg hne).symm⟩

theorem ShadowedStream.sealing_withCipher (p : SsPrimitives) (kind : SsCipher) (password : String)
    (rng : Nat → UInt8) {inner : σ} (h : spec.Reports inner none []) :
    Sealing spec (saltOf kind rng) (keyed p kind password (saltOf kind rng))
      (withCipher p inner kind password rng) none [] :=
  .fresh ⟨rfl, rfl, rfl, nonceAt_zero, SinkSpec.Holding.start h []⟩

theorem VmessWriteHalf.Sealing.carried {p : Primitives} {enc : BodyAead} {ctr : Counters}
    {st : VmessWriteHalf p σ} (h : Sealing spec enc ctr st none pieces) :
    ∃ items, spec.Reports st.inner none items ∧ items.flatten = ctr.chunks p enc pieces := by
  cases h with
  | idle _ h => exact h.held.done

theorem VmessWriteHalf.sealing_withCipher (p : Primitives) (sess : ClientSession) (enc : BodyAead)
    (rng : Nat → UInt8) {inner : σ} (h : spec.Reports inner none []) :
    Sealing spec enc (withCipher p inner sess enc rng).counters (withCipher p inner sess enc rng)
      none [] := by
  refine .idle rfl ⟨rfl, rfl, rfl, ?_, SinkSpec.Holding.start h []⟩
  intro k piece hpiece
  cases hpiece

end

/-! ## The layers -/

/-- The streams that go on others, with what they draw and agree on. -/
inductive StreamKind where
  | vision (uuid : Octets uuidSize)
  | reality (key : WriteKey)
  | shadowed (kind : SsCipher) (password : String) (salt : Bytes)
  | vmess (sess : ClientSession) (enc : BodyAead) (rng : Nat → UInt8)
  | webSocket (rng : Nat → UInt8)
  | vlessResponse

namespace StreamKind

variable (p : SsPrimitives)

/-- What is below the stream when `pieces` were reported above it. -/
def layer : StreamKind → SinkLayer UInt8 IoError
  | .vision uuid => VisionStream.layer uuid
  | .reality key =>
      streamLayer (fun _ _ => RealityTlsStream.instAsyncWrite) (fun st => st.records.transport)
        (fun st => st.records.outbound = [] ∧ st.records.outboundOff = 0 ∧
          st.records.write = Epoch.protection ⟨some key, []⟩)
        fun pieces items => items = (Epoch.addData ⟨some key, []⟩ pieces).wire
  | .shadowed kind password salt =>
      streamLayer (fun _ _ => ShadowedStream.instAsyncWrite) (fun st => st.inner)
        (fun st => ∃ rng, st = .withCipher p st.inner kind password rng ∧
          ShadowedStream.saltOf kind rng = salt)
        fun pieces items => items = ShadowedStream.sealed p kind password salt pieces
  | .vmess sess enc rng =>
      streamLayer (fun _ _ => VmessWriteHalf.instAsyncWrite) (fun st => st.inner)
        (fun st => st = .withCipher p.toPrimitives st.inner sess enc rng)
        fun pieces items => items = (VmessWriteHalf.withCipher p.toPrimitives () sess enc
          rng).counters.chunks p.toPrimitives enc pieces
  | .webSocket rng => WebSocketStream.layer rng
  | .vlessResponse =>
      streamLayer (fun _ _ => VlessResponseStream.instAsyncWrite) (fun st => st.inner)
        (fun _ => True) fun pieces items => items = pieces.flatten

variable {p}

/-- Over any sink each of them has handed on what it reported. -/
def law (hp : p.Lawful) : (kind : StreamKind) → (kind.layer p).Law
  | .vision uuid => VisionStream.law uuid
  | .reality key =>
      streamLaw (fun inner => RealityTlsStream.sinkSpec inner key)
        (by
          rintro σ _ inner st ⟨houtbound, hoff, hwrite⟩ hbelow
          exact TlsRecordStream.sealing_fresh houtbound hoff hwrite hbelow)
        fun _ _ _ h => TlsRecordStream.Sealing.carried h
  | .shadowed kind password salt =>
      streamLaw (fun inner =>
          ShadowedStream.sinkSpec p inner salt (ShadowedStream.keyed p kind password salt)
            (ShadowedStream.keyed_lawful hp kind password salt))
        (by
          rintro σ _ inner st ⟨rng, hst, rfl⟩ hbelow
          exact hst ▸ ShadowedStream.sealing_withCipher p kind password rng hbelow)
        fun _ _ _ h => ShadowedStream.Sealing.carried h
  | .vmess sess enc rng =>
      streamLaw (fun inner => VmessWriteHalf.sinkSpec p.toPrimitives inner enc
          (VmessWriteHalf.withCipher p.toPrimitives () sess enc rng).counters)
        (by
          intro σ _ inner st hst hbelow
          exact hst ▸ VmessWriteHalf.sealing_withCipher p.toPrimitives sess enc rng hbelow)
        fun _ _ _ h => VmessWriteHalf.Sealing.carried h
  | .webSocket rng => WebSocketStream.law rng
  | .vlessResponse =>
      streamLaw VlessResponseStream.sinkSpec (fun _ _ _ hbelow => hbelow)
        fun _ _ pieces h => ⟨pieces, h, rfl⟩

end StreamKind

/-- The layers of a stack from the top down, each with what was written before it came. -/
def layers (p : SsPrimitives) (kinds : List (StreamKind × List Bytes)) : Stack UInt8 IoError :=
  kinds.map fun x => (x.1.layer p, x.2)

def layersLaw {p : SsPrimitives} (hp : p.Lawful) :
    (kinds : List (StreamKind × List Bytes)) → Stack.Law (layers p kinds)
  | [] => ⟨⟩
  | x :: kinds => (x.1.law hp, layersLaw hp kinds)

/-! ## What lies on the transport -/

/-- The streams that lie on the transport itself, and the transport. -/
inductive Bottom where
  | tcp
  | httpObfs (path host : String) (draws : HttpObfs.Draws)
  | tlsObfs (host : String) (draws : TlsObfs.HelloDraws)

namespace Bottom

variable (b : Base64)

def Stream : Bottom → Type
  | .tcp => Transport
  | .httpObfs .. => HttpObfsStream b Transport
  | .tlsObfs .. => TlsObfsWriteHalf Transport

instance : (base : Bottom) → AsyncWrite (base.Stream b)
  | .tcp => inferInstanceAs (AsyncWrite Transport)
  | .httpObfs .. => inferInstanceAs (AsyncWrite (HttpObfsStream b Transport))
  | .tlsObfs .. => inferInstanceAs (AsyncWrite (TlsObfsWriteHalf Transport))

def written : (base : Bottom) → base.Stream b → Bytes
  | .tcp, t => Transport.written t
  | .httpObfs .., st => Transport.written (HttpObfsStream.inner st)
  | .tlsObfs .., st => Transport.written (TlsObfsWriteHalf.inner st)

def spec : (base : Bottom) →
    SinkSpec (pollWrite : WriteFn (base.Stream b) UInt8 IoError) pollFlush
  | .tcp => (WriteLaw.spec.sink WriteLaw.flush_accepted [] :
      SinkSpec (pollWrite : WriteFn Transport UInt8 IoError) pollFlush)
  | .httpObfs path host draws =>
      (HttpObfsStream.opening b (WriteLaw.spec.sink WriteLaw.flush_accepted [])
        path host draws).sink
  | .tlsObfs host draws =>
      (TlsObfsWriteHalf.opening (WriteLaw.spec.sink WriteLaw.flush_accepted []) host draws).sink

/-- The bytes on the transport that carry pieces. -/
def Carries : Bottom → List Bytes → Bytes → Prop
  | .tcp, pieces, bytes => bytes = pieces.flatten
  | .httpObfs path host draws, pieces, bytes => pieces = [] ∧ bytes = [] ∨
      ∃ first later : Bytes, pieces.flatten = first ++ later ∧
        bytes = HttpObfs.buildHttpRequest b path host first draws ++ later
  | .tlsObfs host draws, pieces, bytes => pieces = [] ∧ bytes = [] ∨
      ∃ first records bodies part body : Bytes, TlsObfs.Records records bodies ∧
        TlsObfs.Incomplete part body ∧
        pieces.flatten = first.take TlsObfs.maxPayload ++ (bodies ++ body) ∧
        bytes = TlsObfs.buildTlsClientHello (utf8 host) (first.take TlsObfs.maxPayload) draws ++
          (records ++ part)

variable {b}

theorem carried : (base : Bottom) → {st : base.Stream b} → {pieces : List Bytes} →
    (base.spec b).Reports st none pieces → base.Carries b pieces (base.written b st)
  | .tcp, _, _, h => h
  | .httpObfs path host draws, st, pieces, h => by
      rcases h with ⟨hfresh, -, rfl⟩ | ⟨first, h⟩
      · exact .inl ⟨rfl, hfresh.reports⟩
      · rcases HttpObfsStream.Sent.written h with ⟨hout, -⟩ | ⟨later, hwritten, hpieces⟩
        · cases hout
        · exact .inr ⟨first, later, hpieces, hwritten⟩
  | .tlsObfs host draws, st, pieces, h => by
      rcases h with ⟨hfresh, -, rfl⟩ | ⟨first, h⟩
      · exact .inl ⟨rfl, hfresh.reports⟩
      · rcases TlsObfsWriteHalf.Sent.written h with
          ⟨hout, -⟩ | ⟨records, bodies, part, body, hwritten, hrecords, hpart, hpieces⟩
        · cases hout
        · exact .inr ⟨first, records, bodies, part, body, hrecords, hpart, hpieces.symm, hwritten⟩

end Bottom

/-- Once the last write of a stack is reported, the transport has the encoding of all that was,
layer by layer, whatever it accepted when. -/
theorem stack_delivers {p : SsPrimitives} (hp : p.Lawful) (b : Base64) (base : Bottom)
    (kinds : List (StreamKind × List Bytes)) {s : Stack.Stream (base.Stream b) (layers p kinds)}
    (hs : Stack.Built pollWrite pollFlush (base.spec b) (layers p kinds) s)
    {done : List (SinkCall UInt8)}
    {c : Caller (Stack.Stream (base.Stream b) (layers p kinds)) UInt8}
    (h : Run (Calls (Stack.calls pollWrite pollFlush (layers p kinds)).1
      (Stack.calls pollWrite pollFlush (layers p kinds)).2) (.start s) done c)
    (hdone : c.outstanding = none) :
    ∃ items, base.Carries b items (base.written b (Stack.bottom (layers p kinds) c.sink)) ∧
      Stack.Carries (layers p kinds) c.pieces items.flatten := by
  obtain ⟨items, hreports, hcarries⟩ := Stack.delivers (layersLaw hp kinds) hs h hdone
  exact ⟨items, base.carried hreports, hcarries⟩

namespace SampleStack

/-- WebSocket, with one byte below before it came. -/
def lower : List (StreamKind × List Bytes) := [(.webSocket fun _ => 7, [[71]])]

/-- A VLESS response stream over it, with one byte below before it came. -/
def kinds : List (StreamKind × List Bytes) := (.vlessResponse, [[0]]) :: lower

abbrev Over (kinds : List (StreamKind × List Bytes)) :=
  Stack.Stream Transport (layers SsPrimitives.sums kinds)

/-- What becomes of a write. -/
def written (kinds : List (StreamKind × List Bytes)) (buf : Bytes)
    (c : Caller (Over kinds) UInt8) : Caller (Over kinds) UInt8 :=
  c.answered buf ((Stack.calls pollWrite pollFlush (layers SsPrimitives.sums kinds)).1 c.sink buf)

abbrev Writes (kinds : List (StreamKind × List Bytes)) (s : Over kinds)
    (done : List (SinkCall UInt8)) (c : Caller (Over kinds) UInt8) : Prop :=
  Run (Calls (Stack.calls pollWrite pollFlush (layers SsPrimitives.sums kinds)).1
    (Stack.calls pollWrite pollFlush (layers SsPrimitives.sums kinds)).2) (.start s) done c

def base64 : Base64 := ⟨fun _ => ""⟩

def transport : Transport := .accepting [.accept 1, .pending, .accept 3, .accept 100, .pending]

def socket : Over lower :=
  WebSocketStream.new (written [] [71] (.start transport)).sink [] fun _ => 7

def stream : Over kinds :=
  VlessResponseStream.new (written lower [0] (written lower [0] (.start socket))).sink "a" 1

/-- A write that the transport puts off once. -/
def last : Caller (Over kinds) UInt8 :=
  written kinds [23, 3, 3] (written kinds [23, 3, 3] (.start stream))

theorem reported : (written [] [71] (.start transport)).pieces = [[71]] ∧
    (written [] [71] (.start transport)).outstanding = none ∧
    (written lower [0] (.start socket)).outstanding = some [0] ∧
    (written lower [0] (written lower [0] (.start socket))).pieces = [[0]] ∧
    (written lower [0] (written lower [0] (.start socket))).outstanding = none ∧
    (written kinds [23, 3, 3] (.start stream)).outstanding = some [23, 3, 3] ∧
    last.outstanding = none := by
  decide +kernel

theorem whole {kinds : List (StreamKind × List Bytes)} {c : Caller (Over kinds) UInt8}
    {pieces : List Bytes} (hpieces : c.pieces = pieces) (hout : c.outstanding = none) :
    c = ⟨c.sink, pieces, none⟩ := by
  rw [← hpieces, ← hout]

/-- A write, and the same again if it was put off. -/
theorem writes_once {kinds : List (StreamKind × List Bytes)} {s : Over kinds} {buf : Bytes}
    (hne : buf ≠ []) : Writes kinds s [.write buf] (written kinds buf (.start s)) :=
  .single (.write _ _ hne fun _ h => by cases h)

theorem writes_twice {kinds : List (StreamKind × List Bytes)} {s : Over kinds} {buf : Bytes}
    (hne : buf ≠ []) (hout : (written kinds buf (.start s)).outstanding = some buf) :
    Writes kinds s ([.write buf] ++ [.write buf])
      (written kinds buf (written kinds buf (.start s))) :=
  .snoc (writes_once hne) (.write _ _ hne fun b hb => by cases hout.symm.trans hb; rfl)

theorem built : Stack.Built pollWrite pollFlush (Bottom.tcp.spec base64)
    (layers SsPrimitives.sums kinds) stream := by
  obtain ⟨hpieces, hout, hagain, hpieces', hout', -, -⟩ := reported
  have hbase : Stack.Built pollWrite pollFlush (Bottom.tcp.spec base64) [] transport := .base rfl
  have hfirst : Writes [] transport _ _ := writes_once (List.cons_ne_nil 71 [])
  rw [whole hpieces hout] at hfirst
  have hsocket : Stack.Built pollWrite pollFlush (Bottom.tcp.spec base64)
      (layers SsPrimitives.sums lower) socket := .layer hbase hfirst ⟨[], rfl⟩
  have hsecond := writes_twice (List.cons_ne_nil 0 []) hagain
  rw [whole hpieces' hout'] at hsecond
  exact .layer hsocket hsecond trivial

end SampleStack

theorem stack_delivers_webSocket : ∃ items, Bottom.tcp.Carries SampleStack.base64 items
      (Bottom.tcp.written SampleStack.base64
        (Stack.bottom (layers SsPrimitives.sums SampleStack.kinds) SampleStack.last.sink)) ∧
    Stack.Carries (layers SsPrimitives.sums SampleStack.kinds) SampleStack.last.pieces
      items.flatten :=
  stack_delivers SsPrimitives.sums_lawful SampleStack.base64 .tcp SampleStack.kinds
    SampleStack.built
    (SampleStack.writes_twice (List.cons_ne_nil 23 [3, 3]) SampleStack.reported.2.2.2.2.2.1)
    SampleStack.reported.2.2.2.2.2.2

end RustClash
