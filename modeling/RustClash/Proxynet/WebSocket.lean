import RustClash.Lib.ByteOrder
import RustClash.Net.Transport
import RustClash.Proxynet.Error
import RustClash.Proxynet.Primitives

/-!
# The WebSocket layer

`parseWsFrame` takes a frame off the front of the bytes at hand, or waits for more of
them.  `WebSocketStream` delivers the payloads of the frames it reads, and writes each
buffer in a frame of its own.  The keys of the frames that are written are drawn from
`rng`.
-/

namespace RustClash

namespace WebSocket

def maxEmptyFrames : Nat := 64

inductive WsEvent where
  | payload (p : Bytes)
  | skip
  | close
deriving DecidableEq

/-- The panic of an addition that overflows. -/
def overflow : IoError := .other "attempt to add with overflow"

def applyMask (mask payload : Bytes) : Bytes :=
  payload.mapIdx fun i b => b ^^^ mask.getD (i % 4) 0

/-- The length that a frame states, and where the field behind it is. -/
def frameLen (buf : Bytes) : Option (Nat × Nat) :=
  let len := (buf.getD 1 0 &&& 0x7F).toNat
  if len = 126 then
    if buf.length < 2 + 2 then none else some (ofBe16 (buf.getD 2 0) (buf.getD 3 0), 2 + 2)
  else if len = 127 then
    if buf.length < 2 + 8 then none else some (ofBe ((buf.drop 2).take 8), 2 + 8)
  else some (len, 2)

/-- The mask of a frame, and where its payload is. -/
def frameMask (buf : Bytes) (off : Nat) : Option (Option Bytes × Nat) :=
  if buf.getD 1 0 &&& 0x80 ≠ 0 then
    if buf.length < off + 4 then none else some (some ((buf.drop off).take 4), off + 4)
  else some (none, off)

def unmask (mask : Option Bytes) (payload : Bytes) : Bytes :=
  match mask with
  | some mask => applyMask mask payload
  | none => payload

def WsEvent.of (opcode : UInt8) (payload : Bytes) : WsEvent :=
  if opcode = 0x8 then .close
  else if opcode = 0x9 ∨ opcode = 0xA then .skip
  else .payload payload

def parseWsFrame (buf : Bytes) : IoResult (Option (Nat × WsEvent)) :=
  if buf.length < 2 then .ok none
  else
    match frameLen buf with
    | none => .ok none
    | some (len, off) =>
        match frameMask buf off with
        | none => .ok none
        | some (mask, off) =>
            if 2 ^ 64 ≤ off + len then .error overflow
            else if buf.length < off + len then .ok none
            else
              let payload := unmask mask ((buf.drop off).take len)
              .ok (some (off + len, .of (buf.getD 0 0 &&& 0x0F) payload))

def encodeClientBinaryFrame (mask : Octets 4) (payload : Bytes) : Bytes :=
  let n := payload.length
  let len :=
    if n < 126 then [0x80 ||| UInt8.ofNat n]
    else if n ≤ 65535 then (0x80 ||| 126) :: toBe16 n
    else (0x80 ||| 127) :: toBe 8 n
  0x82 :: (len ++ (mask.bytes ++ applyMask mask.bytes payload))

def maskKey (rng : Nat → UInt8) : Octets 4 := ⟨(List.range 4).map rng, rfl⟩

/-! ## Parsing -/

theorem frameLen_off {buf : Bytes} {len off : Nat} (h : frameLen buf = some (len, off)) : 2 ≤ off := by
  simp only [frameLen] at h
  split at h
  · split at h
    · cases h
    · cases h
      decide
  · split at h
    · split at h
      · cases h
      · cases h
        decide
    · cases h
      exact Nat.le_refl 2

theorem frameMask_off {buf : Bytes} {off off' : Nat} {mask : Option Bytes}
    (h : frameMask buf off = some (mask, off')) : off ≤ off' := by
  simp only [frameMask] at h
  split at h
  · split at h
    · cases h
    · cases h
      exact Nat.le_add_right _ _
  · cases h
    exact Nat.le_refl _

/-- A frame that is taken off has bytes, and they are at hand. -/
theorem parseWsFrame_consumes {buf : Bytes} {n : Nat} {ev : WsEvent}
    (h : parseWsFrame buf = .ok (some (n, ev))) : 2 ≤ n ∧ n ≤ buf.length := by
  simp only [parseWsFrame] at h
  split at h
  · cases h
  · split at h
    · cases h
    · next hlen =>
        split at h
        · cases h
        · next hmask =>
            split at h
            · cases h
            · split at h
              · cases h
              · next hge =>
                  cases h
                  have := frameLen_off hlen
                  have := frameMask_off hmask
                  exact ⟨by omega, Nat.not_lt.mp hge⟩

end WebSocket

open WebSocket

structure WebSocketStream (σ : Type) where
  inner : PrefixedStream σ
  rx : Bytes
  decoded : Bytes
  decodedPos : Nat
  emptyFrames : Nat
  writeBuf : Bytes
  writePos : Nat
  writePayload : Nat
  rng : Nat → UInt8

namespace WebSocketStream

variable {σ : Type}

def new (inner : σ) (leftover : Bytes) (rng : Nat → UInt8) : WebSocketStream σ where
  inner := ⟨leftover, 0, inner⟩
  rx := []
  decoded := []
  decodedPos := 0
  emptyFrames := 0
  writeBuf := []
  writePos := 0
  writePayload := 0
  rng := rng

def tooManyEmpty : IoError :=
  .other s!"The WebSocket peer sent {maxEmptyFrames} consecutive frames carrying no data."

def writeZero : IoError := ⟨.writeZero, "websocket write zero"⟩

/-! ## Reading -/

/-- Where the loop over the frames at hand stops. -/
inductive Framed where
  | waits
  | closed
  | failed (e : IoError)
  | decoded

def framePass (st : WebSocketStream σ) : WebSocketStream σ ⊕ (Framed × WebSocketStream σ) :=
  match parseWsFrame st.rx with
  | .error e => .inr (.failed e, st)
  | .ok none => .inr (.waits, st)
  | .ok (some (n, ev)) =>
      let st := { st with rx := st.rx.drop n }
      match ev with
      | .close => .inr (.closed, st)
      | .skip => .inl st
      | .payload p =>
          if p.isEmpty then
            let st := { st with emptyFrames := st.emptyFrames + 1 }
            if maxEmptyFrames < st.emptyFrames then .inr (.failed tooManyEmpty, st) else .inl st
          else .inr (.decoded, { st with
            emptyFrames := 0
            decoded := p
            decodedPos := 0 })

/-- A pass that goes round again, or has a payload, has taken a frame off the bytes at hand. -/
inductive Takes (st : WebSocketStream σ) : WebSocketStream σ ⊕ (Framed × WebSocketStream σ) → Prop
| again {st' : WebSocketStream σ} :
  st'.rx.length < st.rx.length ->
  st'.inner = st.inner ->
  Takes st (.inl st')
| stop {r : Framed} {st' : WebSocketStream σ} :
  (r = .decoded → st'.rx.length < st.rx.length) ->
  st'.rx.length ≤ st.rx.length ->
  st'.inner = st.inner ->
  Takes st (.inr (r, st'))

theorem framePass_takes (st : WebSocketStream σ) : Takes st st.framePass := by
  simp only [framePass]
  split
  · exact .stop nofun (Nat.le_refl _) rfl
  · exact .stop nofun (Nat.le_refl _) rfl
  · next n ev hparse =>
      obtain ⟨hpos, hle⟩ := parseWsFrame_consumes hparse
      have hlt : (st.rx.drop n).length < st.rx.length := by
        rw [List.length_drop]
        omega
      cases ev with
      | close => exact .stop nofun (Nat.le_of_lt hlt) rfl
      | skip => exact .again hlt rfl
      | payload p =>
          dsimp only
          split
          · split
            · exact .stop nofun (Nat.le_of_lt hlt) rfl
            · exact .again hlt rfl
          · exact .stop (fun _ => hlt) (Nat.le_of_lt hlt) rfl

def frameLoop (σ : Type) : Loop (WebSocketStream σ) (Framed × WebSocketStream σ) where
  body := framePass
  measure st := st.rx.length
  decreases := by
    intro st st' h
    have htakes := st.framePass_takes
    rw [h] at htakes
    cases htakes with
    | again hlt _ => exact hlt

def frames (st : WebSocketStream σ) : Framed × WebSocketStream σ := (frameLoop σ).run st

/-- As much of a payload as the buffer takes. -/
def takeDecoded (st : WebSocketStream σ) (cap : Nat) :
    Answer UInt8 IoError cap × WebSocketStream σ :=
  let n := min (st.decoded.length - st.decodedPos) cap
  (.ready (.ok (.fill cap (st.decoded.drop st.decodedPos))),
    if st.decodedPos + n = st.decoded.length then { st with
      decoded := []
      decodedPos := 0 }
    else { st with decodedPos := st.decodedPos + n })

/-- No frame is complete: read from the layer below. -/
def readMore [AsyncRead σ] (st : WebSocketStream σ) (cap : Nat) :
    WebSocketStream σ ⊕ (Answer UInt8 IoError cap × WebSocketStream σ) :=
  match pollRead st.inner 4096 with
  | (.pending, inner) => .inr (.pending, { st with inner })
  | (.ready (.error e), inner) => .inr (.ready (.error e), { st with inner })
  | (.ready (.ok d), inner) =>
      if d.items.isEmpty then .inr (.ready (.ok (.empty cap)), { st with inner })
      else .inl { st with
        inner
        rx := st.rx ++ d.items }

/-- One pass of the loop of `poll_read`. -/
def pass [AsyncRead σ] (st : WebSocketStream σ) (cap : Nat) :
    WebSocketStream σ ⊕ (Answer UInt8 IoError cap × WebSocketStream σ) :=
  if st.decodedPos < st.decoded.length then .inr (st.takeDecoded cap)
  else
    match st.frames with
    | (.failed e, st) => .inr (.ready (.error e), st)
    | (.closed, st) => .inr (.ready (.ok (.empty cap)), st)
    | (.decoded, st) => .inl st
    | (.waits, st) => st.readMore cap

/-- The bytes of the layer below that are still to be read. -/
def below (inner : PrefixedStream Transport) : Bytes := inner.remaining ++ unread inner.inner.reads

theorem below_read {inner inner' : PrefixedStream Transport} {n : Nat} {d : Filled UInt8 n}
    (hn : 0 < n) (hr : pollRead inner n = (.ready (.ok d), inner')) (hd : d.items ≠ []) :
    below inner = d.items ++ below inner' ∧ inner'.inner.readEnd = inner.inner.readEnd ∧
      stalls inner'.inner.reads ≤ stalls inner.inner.reads := by
  have hy : (PrefixedStream.readSpec Transport.readSpec).Yields inner (below inner)
      inner.inner.readEnd := ⟨_, ⟨rfl, rfl⟩, rfl⟩
  obtain ⟨rest, hitems, ⟨_, ⟨rfl, hend⟩, rfl⟩, hle⟩ := ReadSpec.data _ hy hn hr hd
  exact ⟨hitems, hend.symm, hle⟩

theorem frames_takes (st : WebSocketStream σ) : Takes st (.inr st.frames) := by
  refine Loop.rule (l := frameLoop σ) (P := fun st r => Takes st (.inr r)) ?_ ?_ st
  · intro st st' r hb ih
    have htakes := st.framePass_takes
    rw [show st.framePass = .inl st' from hb] at htakes
    cases htakes with
    | again hlt hinner =>
        cases ih with
        | stop hdecoded hle hinner' =>
            exact .stop (fun hr => Nat.lt_trans (hdecoded hr) hlt)
              (Nat.le_of_lt (Nat.lt_of_le_of_lt hle hlt)) (hinner'.trans hinner)
  · intro st r hb
    have htakes := st.framePass_takes
    rwa [show st.framePass = .inr r from hb] at htakes

/-- The loop of `poll_read`: a pass that goes round again has taken bytes off those at hand, or
moved some there from the layer below. -/
def readLoop (cap : Nat) :
    Loop (WebSocketStream Transport) (Answer UInt8 IoError cap × WebSocketStream Transport) where
  body st := st.pass cap
  measure st := 2 * (below st.inner).length + st.rx.length
  decreases := by
    intro st st' h
    simp only [pass] at h
    split at h
    · cases h
    · have hframes := st.frames_takes
      generalize st.frames = r at h hframes
      cases hframes with
      | @stop r st' hdecoded hle hinner =>
          rw [← hinner]
          cases r with
          | failed e => cases h
          | closed => cases h
          | decoded =>
              cases h
              have hlt := hdecoded rfl
              omega
          | waits =>
              simp only [readMore] at h
              split at h
              · cases h
              · cases h
              · next d inner hr =>
                  split at h
                  · cases h
                  · next hd =>
                      cases h
                      have hd : d.items ≠ [] := by simpa using hd
                      have hlen := List.length_pos_iff.mpr hd
                      obtain ⟨hbelow, -, -⟩ := below_read (by decide) hr hd
                      rw [hbelow]
                      simp only [List.length_append]
                      omega

instance : AsyncRead (WebSocketStream Transport) where
  pollRead st cap := (readLoop cap).run st

/-! ## Writing -/

/-- A frame is staged unless one is. -/
def stage (st : WebSocketStream σ) (buf : Bytes) : WebSocketStream σ :=
  if st.writeBuf.isEmpty then
    { st with
      writePayload := buf.length
      writeBuf := encodeClientBinaryFrame (maskKey st.rng) buf
      writePos := 0
      rng := fun n => st.rng (n + 4) }
  else st

instance [AsyncWrite σ] : AsyncWrite (WebSocketStream σ) where
  pollWrite st buf :=
    if buf.isEmpty ∧ st.writeBuf.isEmpty then (.ready (.ok 0), st)
    else
      let st := st.stage buf
      let (r, writePos, inner) := drain pollWrite writeZero st.writeBuf st.writePos st.inner
      match r with
      | .pending => (.pending, { st with writePos, inner })
      | .ready (.error e) => (.ready (.error e), { st with writePos, inner })
      | .ready (.ok ()) =>
          (.ready (.ok st.writePayload), { st with
            writeBuf := []
            writePos := 0
            writePayload := 0
            inner })
  pollFlush st :=
    let (r, inner) := pollFlush st.inner
    (r, { st with inner })

end WebSocketStream

end RustClash
