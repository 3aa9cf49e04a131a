import RustClash.Lib.ByteOrder
import RustClash.Lib.Loop
import RustClash.Lib.Window
import RustClash.Proxynet.Error

/-!
# The Vision flow

`VisionStream` frames the first bytes of a tunnel and leaves the rest alone.
Reading has three modes: it compares the first bytes with the user id, then
strips frames, and after the frame that says so passes bytes on as they come,
from the session or, after a direct frame, from the transport under it.  Writing
stages one frame at a time and drains it over as many polls as it takes.

`start` and `end` of the read buffer are the cursors of a `Window`.  The draws of
the padding lengths are a field: `thread_rng` is the source of what the stream
draws next.
-/

namespace RustClash

namespace Vision

def uuidSize : Nat := 16
def headerSize : Nat := 5
def cmdContinue : UInt8 := 0x00
def cmdEnd : UInt8 := 0x01
def cmdDirect : UInt8 := 0x02
def maxFrame : Nat := 8192
def maxPaddingOnly : Nat := 64
def tlsApp : UInt8 := 0x17

inductive Mode where
  | undecided
  | framed
  | raw
deriving DecidableEq, Repr

end Vision

open Vision

structure VisionStream (σ : Type) where
  session : σ
  readSource : Option Detached
  uuid : Octets uuidSize
  buffer : Window UInt8 maxFrame
  mode : Mode
  command : UInt8
  remainingContent : Nat
  remainingPadding : Nat
  paddingOnly : Nat
  uuidSent : Bool
  uplinkRaw : Bool
  writeBuf : Bytes
  writeOff : Nat
  writePlain : Nat
  pendingEnd : Bool
  draws : Nat → Nat

namespace VisionStream

variable {σ : Type}

def new (session : σ) (uuid : Octets uuidSize) (draws : Nat → Nat) : VisionStream σ where
  session := session
  readSource := none
  uuid := uuid
  buffer := .empty
  mode := .undecided
  command := cmdContinue
  remainingContent := 0
  remainingPadding := 0
  paddingOnly := 0
  uuidSent := false
  uplinkRaw := false
  writeBuf := []
  writeOff := 0
  writePlain := 0
  pendingEnd := false
  draws := draws

def buffered (st : VisionStream σ) : Nat := st.buffer.length

theorem buffer_nil {st : VisionStream σ} (h : ¬ 0 < st.buffered) : st.buffer.data = [] :=
  List.length_eq_zero_iff.mp (Nat.eq_zero_of_not_pos h)

/-! ## Reading -/

/-- Whether the mode is settled, and the state after the decision. -/
def tryDecide (st : VisionStream σ) : Bool × VisionStream σ :=
  let compared := min st.buffered uuidSize
  if 0 < compared ∧ st.buffer.data.take compared ≠ st.uuid.bytes.take compared then
    (true, { st with mode := .raw })
  else if st.buffered < uuidSize + headerSize then (false, st)
  else (true, { st with buffer := st.buffer.consume uuidSize, mode := .framed })

def tooLarge (content padding : Nat) : ProxyError :=
  ⟨.invalidResponse, s!"xtls-rprx-vision frame too large ({content}+{padding})."⟩

def noContent : ProxyError :=
  ⟨.invalidResponse,
    s!"The VLESS server sent {maxPaddingOnly} consecutive xtls-rprx-vision frames with no content."⟩

/-- The header fields, and the state that has taken them over. -/
def takeHeader (st : VisionStream σ) : VisionStream σ :=
  let h (i : Nat) : UInt8 := st.buffer.data.getD i 0
  { st with
    command := h 0
    remainingContent := ofBe16 (h 1) (h 2)
    remainingPadding := ofBe16 (h 3) (h 4) }

def readFrameHeader (st : VisionStream σ) : Except ProxyError Unit × VisionStream σ :=
  let st := st.takeHeader
  if maxFrame < st.remainingContent + st.remainingPadding + headerSize then
    (.error (tooLarge st.remainingContent st.remainingPadding), st)
  else
    let st := { st with buffer := st.buffer.consume headerSize }
    if 0 < st.remainingContent then (.ok (), { st with paddingOnly := 0 })
    else
      let st := { st with paddingOnly := st.paddingOnly + 1 }
      if maxPaddingOnly < st.paddingOnly then (.error noContent, st) else (.ok (), st)

def finishFraming [AsyncIo σ] (st : VisionStream σ) : VisionStream σ :=
  if st.command = cmdDirect then
    let extra := st.buffer.data
    let st := { st with buffer := st.buffer.consume st.buffered }
    match visionDetach st.session extra with
    | (some raw, session) => { st with session, readSource := some raw, mode := .raw }
    | (none, session) => { st with session, mode := .raw }
  else { st with mode := .raw }

/-- The number of bytes read into the buffer; `0` when the session is at its end
or the buffer is full. -/
def fillFromSession [AsyncRead σ] (st : VisionStream σ) : Poll (IoResult Nat) × VisionStream σ :=
  let buffer := st.buffer.compact 1
  if buffer.room = 0 then (.ready (.ok 0), { st with buffer })
  else
    match pollRead st.session (min 2048 buffer.room) with
    | (.ready (.ok d), session) =>
        (.ready (.ok d.items.length), { st with
          session
          buffer := buffer.push d.items (Nat.le_trans d.bound (Nat.min_le_right _ _)) })
    | (.ready (.error e), session) => (.ready (.error e), { st with session, buffer })
    | (.pending, session) => (.pending, { st with session, buffer })

def headerEof : IoError :=
  ⟨.unexpectedEof,
    "The VLESS server closed the connection inside an xtls-rprx-vision frame header, mid-response."⟩

def frameEof : IoError :=
  ⟨.unexpectedEof,
    "The VLESS server closed the connection inside an xtls-rprx-vision frame, mid-response."⟩

/-- What one pass of the loop of `poll_read` does. -/
abbrev Pass (σ : Type) (cap : Nat) :=
  VisionStream σ ⊕ (Answer UInt8 IoError cap × VisionStream σ)

section

variable [AsyncIo σ] (cap : Nat) (st : VisionStream σ)

def passRaw : Pass σ cap :=
  if 0 < st.buffered then
    .inr (.ready (.ok (.fill cap st.buffer.data)), { st with buffer := st.buffer.consume cap })
  else
    match st.readSource with
    | some src =>
        let (r, src, session) := src.pollRead st.session cap
        .inr (r, { st with readSource := some src, session })
    | none =>
        let (r, session) := pollRead st.session cap
        .inr (r, { st with session })

def passUndecided : Pass σ cap :=
  match st.tryDecide with
  | (true, st) => .inl st
  | (false, st) =>
      match st.fillFromSession with
      | (.ready (.ok 0), st) => .inl { st with mode := .raw }
      | (.ready (.ok (_ + 1)), st) => .inl st
      | (.ready (.error e), st) => .inr (.ready (.error e), st)
      | (.pending, st) => .inr (.pending, st)

/-- Between two frames. -/
def passHeader : Pass σ cap :=
  if st.command = cmdEnd ∨ st.command = cmdDirect then .inl st.finishFraming
  else if st.buffered < headerSize then
    match st.fillFromSession with
    | (.ready (.ok 0), st) =>
        if st.buffered = 0 then .inr (.ready (.ok (.empty cap)), st)
        else .inr (.ready (.error headerEof), st)
    | (.ready (.ok (_ + 1)), st) => .inl st
    | (.ready (.error e), st) => .inr (.ready (.error e), st)
    | (.pending, st) => .inr (.pending, st)
  else
    match st.readFrameHeader with
    | (.error e, st) => .inr (.ready (.error e.toIo), st)
    | (.ok (), st) => .inl st

/-- Inside a frame. -/
def passBody : Pass σ cap :=
  if st.buffered = 0 then
    match st.fillFromSession with
    | (.ready (.ok 0), st) => .inr (.ready (.error frameEof), st)
    | (.ready (.ok (_ + 1)), st) => .inl st
    | (.ready (.error e), st) => .inr (.ready (.error e), st)
    | (.pending, st) => .inr (.pending, st)
  else if 0 < st.remainingContent then
    let d : Filled UInt8 cap := .fill cap (st.buffer.data.take st.remainingContent)
    .inr (.ready (.ok d), { st with
      buffer := st.buffer.consume d.items.length
      remainingContent := st.remainingContent - d.items.length })
  else
    let skip := min st.remainingPadding st.buffered
    .inl { st with
      buffer := st.buffer.consume skip
      remainingPadding := st.remainingPadding - skip }

def pass : Pass σ cap :=
  match st.mode with
  | .raw => st.passRaw cap
  | .undecided => st.passUndecided cap
  | .framed =>
      if st.remainingContent = 0 ∧ st.remainingPadding = 0 then st.passHeader cap
      else st.passBody cap

end

/-! ### The loop of `poll_read` ends

A pass that goes round again has read a byte that was missing, dropped padding,
or read the header of a frame without content, which at most `maxPaddingOnly`
frames in a row may be. -/

/-- The passes of a frame without content, from its header on. -/
def paddingPasses : Nat := 20000

/-- How far a frame with the given bytes left is from its end and from the next
header, `buffered` bytes of it being there. -/
def frameMeasure (buffered content padding empties : Nat) : Nat :=
  if 0 < content then (if buffered = 0 then 2 else 1)
  else
    (maxPaddingOnly + 1 - empties) * paddingPasses + 3 +
      (if 0 < padding then 2 * padding + 10 + (if buffered = 0 then 1 else 0)
       else headerSize - buffered)

def measure (st : VisionStream σ) : Nat :=
  match st.mode with
  | .raw => 0
  | .framed => frameMeasure st.buffered st.remainingContent st.remainingPadding st.paddingOnly + 1
  | .undecided =>
      (maxPaddingOnly + 1 - st.paddingOnly) * paddingPasses + 2 * st.remainingPadding + 20 +
        (uuidSize + headerSize - st.buffered)

theorem frameMeasure_header (buffered empties : Nat) :
    frameMeasure buffered 0 0 empties =
      (maxPaddingOnly + 1 - empties) * paddingPasses + 3 + (headerSize - buffered) := by
  simp [frameMeasure]

theorem frameMeasure_content {content : Nat} (h : 0 < content) (buffered padding empties : Nat) :
    frameMeasure buffered content padding empties = if buffered = 0 then 2 else 1 := by
  rw [frameMeasure, if_pos h]

theorem frameMeasure_padding {padding : Nat} (h : 0 < padding) (buffered empties : Nat) :
    frameMeasure buffered 0 padding empties = (maxPaddingOnly + 1 - empties) * paddingPasses + 3 +
      (2 * padding + 10 + (if buffered = 0 then 1 else 0)) := by
  simp [frameMeasure, h]

theorem frameMeasure_le (buffered content padding empties : Nat) :
    frameMeasure buffered content padding empties ≤
      (maxPaddingOnly + 1 - empties) * paddingPasses + 2 * padding + 18 := by
  simp only [frameMeasure, headerSize]
  split
  · split <;> omega
  · split
    · split <;> omega
    · omega

theorem fillFromSession_frame [AsyncRead σ] (st : VisionStream σ) :
    st.fillFromSession.2.mode = st.mode ∧
      st.fillFromSession.2.remainingContent = st.remainingContent ∧
      st.fillFromSession.2.remainingPadding = st.remainingPadding ∧
      st.fillFromSession.2.paddingOnly = st.paddingOnly := by
  simp only [fillFromSession]
  split
  · exact ⟨rfl, rfl, rfl, rfl⟩
  · split <;> exact ⟨rfl, rfl, rfl, rfl⟩

theorem fillFromSession_buffered [AsyncRead σ] {st st' : VisionStream σ} {n : Nat}
    (h : st.fillFromSession = (.ready (.ok n), st')) : st'.buffered = st.buffered + n := by
  simp only [fillFromSession] at h
  split at h
  · cases h
    simp [buffered, Window.length]
  · split at h
    · cases h
      simp [buffered, Window.length]
    · cases h
    · cases h

/-- Filling reads at least one byte that was missing. -/
theorem fillFromSession_measure [AsyncRead σ] {st st' : VisionStream σ} {n : Nat}
    (h : st.fillFromSession = (.ready (.ok (n + 1)), st')) :
    st'.buffered = st.buffered + (n + 1) ∧ st'.mode = st.mode ∧
      st'.remainingContent = st.remainingContent ∧ st'.remainingPadding = st.remainingPadding ∧
      st'.paddingOnly = st.paddingOnly := by
  have hk := st.fillFromSession_frame
  rw [h] at hk
  exact ⟨fillFromSession_buffered h, hk⟩

/-- What `try_decide` found. -/
theorem tryDecide_cases (st : VisionStream σ) :
    (¬ st.buffer.data.take uuidSize <+: st.uuid.bytes ∧
        st.tryDecide = (true, { st with mode := .raw })) ∨
      (st.buffer.data.take uuidSize <+: st.uuid.bytes ∧ st.buffered < uuidSize + headerSize ∧
        st.tryDecide = (false, st)) ∨
      (st.buffer.data.take uuidSize <+: st.uuid.bytes ∧ uuidSize + headerSize ≤ st.buffered ∧
        st.tryDecide =
          (true, { st with buffer := st.buffer.consume uuidSize, mode := .framed })) := by
  have hiff : (0 < min st.buffered uuidSize ∧ st.buffer.data.take (min st.buffered uuidSize) ≠
      st.uuid.bytes.take (min st.buffered uuidSize)) ↔
      ¬ st.buffer.data.take uuidSize <+: st.uuid.bytes := by
    have hlen : (st.buffer.data.take uuidSize).length = min st.buffered uuidSize := by
      rw [List.length_take, Nat.min_comm]
      rfl
    have htake : st.buffer.data.take (min st.buffered uuidSize) = st.buffer.data.take uuidSize := by
      rw [Nat.min_comm]
      exact (List.take_eq_take_min).symm
    rw [List.prefix_iff_eq_take, hlen, htake]
    constructor
    · exact fun h => h.2
    · intro h
      refine ⟨Nat.pos_of_ne_zero fun h0 => h ?_, h⟩
      rw [h0, List.take_zero]
      exact List.length_eq_zero_iff.mp (hlen.trans h0)
  simp only [tryDecide]
  split
  · next h => exact Or.inl ⟨hiff.mp h, rfl⟩
  · next h =>
      have hp := not_not.mp (mt hiff.mpr h)
      split
      · next hlt => exact Or.inr (Or.inl ⟨hp, hlt, rfl⟩)
      · next hge => exact Or.inr (Or.inr ⟨hp, Nat.not_lt.mp hge, rfl⟩)

theorem tryDecide_false {st st' : VisionStream σ} (h : st.tryDecide = (false, st')) :
    st' = st ∧ st.buffered < uuidSize + headerSize := by
  rcases tryDecide_cases st with ⟨-, he⟩ | ⟨-, hlt, he⟩ | ⟨-, -, he⟩
  · cases he.symm.trans h
  · cases he.symm.trans h
    exact ⟨rfl, hlt⟩
  · cases he.symm.trans h

/-- A header that is accepted either announces content, or is one of the frames
without content that are still allowed. -/
theorem readFrameHeader_measure {st st' : VisionStream σ} (hmode : st.mode = .framed)
    (h : st.readFrameHeader = (.ok (), st')) :
    st'.measure < (maxPaddingOnly + 1 - st.paddingOnly) * paddingPasses + 3 +
      (headerSize - st.buffered) + 1 := by
  have hmode' : st.takeHeader.mode = .framed := hmode
  simp only [readFrameHeader] at h
  split at h
  · cases h
  · next hsmall =>
      split at h
      · next hc =>
          cases h
          simp only [measure, hmode']
          rw [frameMeasure_content hc]
          split <;> omega
      · next hc =>
          split at h
          · cases h
          · next he =>
              cases h
              have hle := frameMeasure_le (st.takeHeader.buffer.consume headerSize).length
                st.takeHeader.remainingContent st.takeHeader.remainingPadding
                (st.takeHeader.paddingOnly + 1)
              have hpo : st.takeHeader.paddingOnly = st.paddingOnly := rfl
              simp only [measure, buffered, hmode', hpo] at *
              simp only [maxFrame, maxPaddingOnly, headerSize, paddingPasses] at *
              omega

section

variable [AsyncIo σ] {cap : Nat} {st st' : VisionStream σ}

theorem finishFraming_mode (st : VisionStream σ) : st.finishFraming.mode = .raw := by
  unfold finishFraming
  split
  · simp only
    split <;> rfl
  · rfl

theorem passUndecided_decreases (hmode : st.mode = .undecided)
    (h : st.passUndecided cap = .inl st') : st'.measure < st.measure := by
  simp only [passUndecided] at h
  split at h
  · next st'' hd =>
      cases h
      rcases tryDecide_cases st with ⟨-, he⟩ | ⟨-, -, he⟩ | ⟨-, -, he⟩
      · cases he.symm.trans hd
        simp only [measure, hmode]
        omega
      · cases he.symm.trans hd
      · cases he.symm.trans hd
        have := frameMeasure_le (st.buffer.consume uuidSize).length st.remainingContent
          st.remainingPadding st.paddingOnly
        simp only [measure, hmode, buffered]
        omega
  · next st'' hd =>
      obtain ⟨rfl, hlt⟩ := tryDecide_false hd
      split at h
      · cases h
        simp only [measure, hmode]
        omega
      · next n st'' hf =>
          cases h
          obtain ⟨hb, hm, -, hp, he⟩ := fillFromSession_measure hf
          simp only [measure, hm, hmode, hp, he, hb]
          omega
      · cases h
      · cases h

theorem passHeader_decreases (hmode : st.mode = .framed)
    (hbody : st.remainingContent = 0 ∧ st.remainingPadding = 0)
    (h : st.passHeader cap = .inl st') : st'.measure < st.measure := by
  simp only [passHeader] at h
  split at h
  · cases h
    simp only [measure, finishFraming_mode, hmode]
    omega
  · split at h
    · next hlt =>
        split at h
        · split at h <;> cases h
        · next n st'' hf =>
            cases h
            obtain ⟨hb, hm, hc, hp, he⟩ := fillFromSession_measure hf
            simp only [measure, hm, hmode, hc, hp, he, hb, hbody, frameMeasure_header]
            omega
        · cases h
        · cases h
    · split at h
      · cases h
      · next st'' hr =>
          cases h
          rw [show st.measure = (maxPaddingOnly + 1 - st.paddingOnly) * paddingPasses + 3 +
            (headerSize - st.buffered) + 1 by
              simp only [measure, hmode, hbody, frameMeasure_header]]
          exact readFrameHeader_measure hmode hr

theorem passBody_decreases (hmode : st.mode = .framed)
    (hbody : ¬ (st.remainingContent = 0 ∧ st.remainingPadding = 0))
    (h : st.passBody cap = .inl st') : st'.measure < st.measure := by
  simp only [passBody] at h
  split at h
  · next hb0 =>
      split at h
      · cases h
      · next n st'' hf =>
          cases h
          obtain ⟨hb, hm, hc, hp, he⟩ := fillFromSession_measure hf
          simp only [measure, hm, hmode, hc, hp, he, hb, hb0]
          rcases Nat.eq_zero_or_pos st.remainingContent with hc0 | hcpos
          · have hpos : 0 < st.remainingPadding := by omega
            rw [hc0, frameMeasure_padding hpos, frameMeasure_padding hpos]
            simp
          · rw [frameMeasure_content hcpos, frameMeasure_content hcpos]
            simp
      · cases h
      · cases h
  · next hb0 =>
      split at h
      · cases h
      · next hc =>
          cases h
          have hc0 : st.remainingContent = 0 := by omega
          have hp : 0 < st.remainingPadding := by omega
          simp only [measure, hmode, hc0]
          rw [frameMeasure_padding hp]
          rcases Nat.eq_zero_or_pos (st.remainingPadding - min st.remainingPadding st.buffered) with
            hp0 | hp'
          · rw [hp0, frameMeasure_header, headerSize]
            omega
          · rw [frameMeasure_padding hp']
            split <;> omega

/-- One pass of the loop of `poll_read`, with the measure it decreases. -/
def readLoop (σ : Type) [AsyncIo σ] (cap : Nat) :
    Loop (VisionStream σ) (Answer UInt8 IoError cap × VisionStream σ) where
  body st := st.pass cap
  measure := measure
  decreases := by
    intro st st' h
    simp only [pass] at h
    split at h
    · simp only [passRaw] at h
      split at h
      · cases h
      · split at h <;> cases h
    · next hmode => exact passUndecided_decreases hmode h
    · next hmode =>
        split at h
        · next hbody => exact passHeader_decreases hmode hbody h
        · next hbody => exact passBody_decreases hmode hbody h

end

instance [AsyncIo σ] : AsyncRead (VisionStream σ) where
  pollRead st cap := (readLoop σ cap).run st

/-! ## Writing -/

/-- The bytes of the user id, which the first frame carries. -/
def uuidOver (st : VisionStream σ) : Nat := if st.uuidSent then 0 else uuidSize

/-- `draw` is what the generator gives for the range that is asked for. -/
def paddingLen (draw content uuidOver : Nat) : Nat :=
  let padding := if content < 900 then draw % 500 + 900 - content else draw % 256
  min padding (maxFrame - uuidOver - headerSize - content)

def padFrame (st : VisionStream σ) (content : Bytes) (command : UInt8) : Option Bytes :=
  if maxFrame - (headerSize + st.uuidOver) < content.length then none
  else
    let padding := paddingLen (st.draws 0) content.length st.uuidOver
    some ((if st.uuidSent then [] else st.uuid.bytes) ++ command :: toBe16 content.length ++
      toBe16 padding ++ content ++ List.replicate padding 0)

def maxContent (st : VisionStream σ) : Nat :=
  let maxContent := maxFrame - (headerSize + st.uuidOver + 900)
  if maxContent < 1 then maxFrame - headerSize - st.uuidOver - 1 else maxContent

/-- The command of the frame that carries `chunk`. -/
def commandOf (chunk : Bytes) : UInt8 := if chunk.head? = some tlsApp then cmdEnd else cmdContinue

def stageUplink (st : VisionStream σ) (buf : Bytes) : VisionStream σ :=
  let chunk := buf.take st.maxContent
  let command := commandOf chunk
  match st.padFrame chunk command with
  | some frame =>
      { st with
        writeBuf := frame
        writeOff := 0
        writePlain := chunk.length
        pendingEnd := command == cmdEnd
        draws := fun n => st.draws (n + 1) }
  | none => { st with uplinkRaw := true }

def finishUplinkFrame (st : VisionStream σ) : Nat × VisionStream σ :=
  (st.writePlain, { st with
    writeBuf := []
    writeOff := 0
    writePlain := 0
    uuidSent := true
    uplinkRaw := st.uplinkRaw || st.pendingEnd
    pendingEnd := false })

def writeZero : IoError := ⟨.writeZero, "xtls-rprx-vision write returned zero"⟩

section

variable [AsyncWrite σ]

def pollWritePending (st : VisionStream σ) : Poll (IoResult Unit) × VisionStream σ :=
  let (r, writeOff, session) := drain pollWrite writeZero st.writeBuf st.writeOff st.session
  (r, { st with writeOff, session })

/-- Drain the staged frame and report it. -/
def pollFinish (st : VisionStream σ) : Poll (IoResult Nat) × VisionStream σ :=
  match st.pollWritePending with
  | (.pending, st) => (.pending, st)
  | (.ready (.error e), st) => (.ready (.error e), st)
  | (.ready (.ok ()), st) => (.ready (.ok st.finishUplinkFrame.1), st.finishUplinkFrame.2)

def pollWriteRaw (st : VisionStream σ) (buf : Bytes) : Poll (IoResult Nat) × VisionStream σ :=
  let (r, session) := pollWrite st.session buf
  (r, { st with session })

instance : AsyncWrite (VisionStream σ) where
  pollWrite st buf :=
    if !st.writeBuf.isEmpty then st.pollFinish
    else if buf.isEmpty then (.ready (.ok 0), st)
    else if st.uplinkRaw then st.pollWriteRaw buf
    else
      let st := st.stageUplink buf
      if st.uplinkRaw then st.pollWriteRaw buf else st.pollFinish
  pollFlush st :=
    match st.pollWritePending with
    | (.pending, st) => (.pending, st)
    | (.ready (.error e), st) => (.ready (.error e), st)
    | (.ready (.ok ()), st) =>
        let (r, session) := pollFlush st.session
        (r, { st with session })

end

instance [AsyncIo σ] : AsyncIo (VisionStream σ) where

end VisionStream

end RustClash
