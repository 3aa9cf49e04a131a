import RustClash.Lib.CheckedLoop
import RustClash.Proxynet.WsDecode

/-!
# What a WebSocket peer can make a reader do

The parser and the reader once more, with every index, slice and sum checked.  A header in the
long form may state a length that does not fit behind it (`Overflows`): there the sum of the two
overflows, and this is the only fault of the parser.  A reader takes one frame after another, so
it faults if and only if its peer has sent such a header where a frame begins, or 2³² empty frames
in a row (`Breaks`).
-/

namespace RustClash

namespace WebSocket

open Checked

/-! ## The parser -/

def frameLenChecked (buf : Bytes) (b1 : UInt8) : Checked (Option (Nat × Nat)) := do
  let len := (b1 &&& 0x7F).toNat
  if len = 126 then
    if buf.length < 2 + 2 then pure none
    else
      let hi ← get buf 2
      let lo ← get buf 3
      pure (some (ofBe16 hi lo, 2 + 2))
  else if len = 127 then
    if buf.length < 2 + 8 then pure none
    else
      let field ← slice buf 2 (2 + 8)
      let n ← copy (List.replicate 8 0) 0 8 field
      pure (some (ofBe n, 2 + 8))
  else pure (some (len, 2))

def frameMaskChecked (buf : Bytes) (b1 : UInt8) (off : Nat) :
    Checked (Option (Option Bytes × Nat)) := do
  if b1 &&& 0x80 ≠ 0 then
    let stop ← add 64 off 4
    if buf.length < stop then pure none
    else
      let field ← slice buf off stop
      let mask ← copy (List.replicate 4 0) 0 4 field
      pure (some (some mask, stop))
  else pure (some (none, off))

/-- `*b ^= mask[i % 4]` for the bytes from the `i`-th on. -/
def unmaskFrom (mask : Bytes) (i : Nat) : Bytes → Checked Bytes
  | [] => pure []
  | b :: payload => do
      let m ← get mask (i % 4)
      let rest ← unmaskFrom mask (i + 1) payload
      pure ((b ^^^ m) :: rest)

def unmaskChecked (mask : Option Bytes) (payload : Bytes) : Checked Bytes :=
  match mask with
  | some mask => unmaskFrom mask 0 payload
  | none => pure payload

def parseWsFrameChecked (buf : Bytes) : Checked (Option (Nat × WsEvent)) := do
  if buf.length < 2 then pure none
  else
    let b0 ← get buf 0
    let b1 ← get buf 1
    match ← frameLenChecked buf b1 with
    | none => pure none
    | some (len, off) =>
        match ← frameMaskChecked buf b1 off with
        | none => pure none
        | some (mask, off) =>
            let stop ← add 64 off len
            if buf.length < stop then pure none
            else
              let payload ← slice buf off stop
              let payload ← unmaskChecked mask payload
              pure (some (stop, .of (b0 &&& 0x0F) payload))

/-- A complete header in the long form, whose length does not fit behind it. -/
def Overflows (buf : Bytes) : Prop :=
  (buf.getD 1 0 &&& 0x7F).toNat = 127 ∧
    let off := if buf.getD 1 0 &&& 0x80 ≠ 0 then 14 else 10
    off ≤ buf.length ∧ 2 ^ 64 ≤ off + ofBe ((buf.drop 2).take 8)

theorem frameLenChecked_eq (buf : Bytes) :
    frameLenChecked buf (buf.getD 1 0) = .ok (frameLen buf) := by
  simp only [frameLenChecked, frameLen]
  split
  · split
    · rfl
    · next h =>
        rw [get_ok (by omega) 0, get_ok (by omega) 0]
        rfl
  · split
    · split
      · rfl
      · next h =>
          have hlen : ((buf.take (2 + 8)).drop 2).length = 8 := by
            rw [List.length_drop, List.length_take]
            omega
          rw [slice_ok (by decide) (by omega), ok_bind, copy_ok (by rw [hlen]) (by decide), ok_bind,
            overwrite, List.take_zero, List.nil_append, Nat.zero_add, hlen, List.drop_take]
          simp only [Nat.add_sub_cancel_left, List.drop_replicate, Nat.sub_self,
            List.replicate_zero, List.append_nil]
          rfl
    · rfl

theorem frameMaskChecked_eq {buf : Bytes} {off : Nat} (hoff : off ≤ 10) :
    frameMaskChecked buf (buf.getD 1 0) off = .ok (frameMask buf off) := by
  simp only [frameMaskChecked, frameMask]
  split
  · rw [add_ok (by omega), ok_bind]
    split
    · rfl
    · next h =>
        have hlen : ((buf.take (off + 4)).drop off).length = 4 := by
          rw [List.length_drop, List.length_take]
          omega
        rw [slice_ok (by omega) (by omega), ok_bind, copy_ok (by rw [hlen]) (by decide), ok_bind,
          overwrite, List.take_zero, List.nil_append, Nat.zero_add, hlen, List.drop_take]
        simp only [Nat.add_sub_cancel_left, List.drop_replicate, Nat.sub_self, List.replicate_zero,
          List.append_nil]
        rfl
  · rfl

theorem unmaskFrom_eq {mask : Bytes} (hmask : mask.length = 4) (payload : Bytes) (i : Nat) :
    unmaskFrom mask i payload =
      .ok (payload.mapIdx fun j b => b ^^^ mask.getD ((i + j) % 4) 0) := by
  induction payload generalizing i with
  | nil => rfl
  | cons b payload ih =>
    rw [unmaskFrom, get_ok (by rw [hmask]; exact Nat.mod_lt _ (by decide)) 0, ok_bind, ih, ok_bind,
      List.mapIdx_cons]
    simp only [Nat.add_zero, Nat.add_assoc, Nat.add_comm 1]
    rfl

/-- A mask of four bytes, if there is one. -/
def MaskFits (mask : Option Bytes) : Prop := ∀ m, mask = some m → m.length = 4

theorem unmaskChecked_eq {mask : Option Bytes} (h : MaskFits mask) (payload : Bytes) :
    unmaskChecked mask payload = .ok (unmask mask payload) := by
  rcases mask with _ | mask
  · rfl
  · rw [unmaskChecked, unmaskFrom_eq (h mask rfl)]
    simp only [Nat.zero_add]
    rfl

theorem frameMask_fits {buf : Bytes} {off off' : Nat} {mask : Option Bytes}
    (h : frameMask buf off = some (mask, off')) : MaskFits mask ∧ off' ≤ off + 4 ∧
      (off' ≤ buf.length ∨ off' = off) := by
  simp only [frameMask] at h
  split at h
  · split at h
    · cases h
    · next hge =>
        cases h
        refine ⟨?_, Nat.le_refl _, .inl (Nat.not_lt.mp hge)⟩
        rintro m ⟨⟩
        rw [List.length_take, List.length_drop]
        omega
  · cases h
    exact ⟨by rintro m ⟨⟩, Nat.le_add_right _ _, .inr rfl⟩

theorem frameLen_off_le {buf : Bytes} {len off : Nat} (h : frameLen buf = some (len, off)) :
    off ≤ 10 := by
  simp only [frameLen] at h
  split at h
  · split at h
    · cases h
    · cases h
      decide
  · split at h
    · split at h
      · cases h
      · cases h
        decide
    · cases h
      decide

/-- The parser faults only where it adds the length to the offset. -/
theorem parseWsFrameChecked_eq (buf : Bytes) :
    parseWsFrameChecked buf = (parseWsFrame buf).mapError fun _ => .overflow := by
  simp only [parseWsFrameChecked, parseWsFrame]
  split
  · rfl
  · rw [get_ok (by omega) 0, get_ok (by omega) 0, ok_bind, ok_bind, frameLenChecked_eq, ok_bind]
    rcases hlen : frameLen buf with _ | ⟨len, off⟩
    · rfl
    · dsimp only
      rw [frameMaskChecked_eq (frameLen_off_le hlen), ok_bind]
      rcases hmask : frameMask buf off with _ | ⟨mask, off'⟩
      · rfl
      · obtain ⟨hfits, -, -⟩ := frameMask_fits hmask
        dsimp only
        by_cases hsum : 2 ^ 64 ≤ off' + len
        · rw [if_pos hsum, add, if_neg (Nat.not_lt.mpr hsum)]
          rfl
        · rw [if_neg hsum, add_ok (Nat.not_le.mp hsum), ok_bind]
          split
          · rfl
          · next hge =>
              rw [slice_ok (Nat.le_add_right _ _) (Nat.not_lt.mp hge), ok_bind,
                unmaskChecked_eq hfits, ok_bind, List.drop_take, Nat.add_sub_cancel_left]
              rfl

theorem overflow_form {buf : Bytes} {len off off' : Nat} {mask : Option Bytes}
    (hlen : frameLen buf = some (len, off)) (hmask : frameMask buf off = some (mask, off'))
    (h : 2 ^ 64 ≤ off' + len) : Overflows buf := by
  simp only [frameLen] at hlen
  split at hlen
  · split at hlen
    · cases hlen
    · cases hlen
      have hmost := (frameMask_fits hmask).2.1
      have hhi := (buf.getD 2 0).toNat_lt
      have hlo := (buf.getD 3 0).toNat_lt
      rw [ofBe16] at h
      omega
  · split at hlen
    · next h127 =>
        split at hlen
        · cases hlen
        · next hge =>
            cases hlen
            refine ⟨h127, ?_⟩
            simp only [frameMask] at hmask
            split at hmask
            · next hmasked =>
                split at hmask
                · cases hmask
                · next henough =>
                    cases hmask
                    rw [if_pos hmasked]
                    exact ⟨Nat.not_lt.mp henough, h⟩
            · next hplain =>
                cases hmask
                rw [if_neg hplain]
                exact ⟨Nat.not_lt.mp hge, h⟩
    · cases hlen
      have hmost := (frameMask_fits hmask).2.1
      have hbyte := (buf.getD 1 0 &&& 0x7F).toNat_lt
      omega

theorem form_overflow {buf : Bytes} (h : Overflows buf) : 2 ≤ buf.length ∧
    ∃ len off mask off', frameLen buf = some (len, off) ∧
      frameMask buf off = some (mask, off') ∧ 2 ^ 64 ≤ off' + len := by
  obtain ⟨h127, hoff, hsum⟩ := h
  have hbuf : 10 ≤ buf.length := by
    refine Nat.le_trans ?_ hoff
    split <;> decide
  have hlen : frameLen buf = some (ofBe ((buf.drop 2).take 8), 2 + 8) := by
    rw [frameLen, h127, if_neg (by decide), if_pos rfl, if_neg (by omega)]
  refine ⟨by omega, ofBe ((buf.drop 2).take 8), 2 + 8, ?_⟩
  by_cases hmasked : buf.getD 1 0 &&& 0x80 ≠ 0
  · rw [if_pos hmasked] at hoff hsum
    refine ⟨some ((buf.drop 10).take 4), 14, hlen, ?_, hsum⟩
    rw [frameMask, if_pos hmasked, if_neg (Nat.not_lt.mpr hoff)]
  · rw [if_neg hmasked] at hoff hsum
    refine ⟨none, 10, hlen, ?_, hsum⟩
    rw [frameMask, if_neg hmasked]

theorem parseWsFrame_error_iff {buf : Bytes} :
    (∃ e, parseWsFrame buf = .error e) ↔ Overflows buf := by
  constructor
  · rintro ⟨e, h⟩
    simp only [parseWsFrame] at h
    split at h
    · cases h
    · split at h
      · cases h
      · next hlen =>
          split at h
          · cases h
          · next hmask =>
              split at h
              · next hsum => exact overflow_form hlen hmask hsum
              · split at h <;> cases h
  · intro h
    obtain ⟨hbuf, len, off, mask, off', hlen, hmask, hsum⟩ := form_overflow h
    refine ⟨overflow, ?_⟩
    simp only [parseWsFrame, hlen, hmask]
    rw [if_neg (Nat.not_lt.mpr hbuf), if_pos hsum]

/-- The parser returns what it is to return, or it adds up a length that does not fit. -/
theorem parse_cases (buf : Bytes) :
    (Overflows buf ∧ parseWsFrameChecked buf = .error .overflow) ∨
      (¬ Overflows buf ∧ ∃ r, parseWsFrame buf = .ok r ∧ parseWsFrameChecked buf = .ok r) := by
  rw [parseWsFrameChecked_eq, ← parseWsFrame_error_iff]
  cases parseWsFrame buf with
  | error e => exact .inl ⟨⟨e, rfl⟩, rfl⟩
  | ok r => exact .inr ⟨by rintro ⟨e, ⟨⟩⟩, r, rfl, rfl⟩

/-- A frame that is taken off is at hand, with its payload. -/
theorem parse_contained {buf : Bytes} {n : Nat} {ev : WsEvent}
    (h : parseWsFrameChecked buf = .ok (some (n, ev))) : n ≤ buf.length ∧
      ∃ len off mask off', frameLen buf = some (len, off) ∧
        frameMask buf off = some (mask, off') ∧ n = off' + len := by
  rcases parse_cases buf with ⟨-, hp⟩ | ⟨-, r, hp, hc⟩
  · cases hp.symm.trans h
  · cases hc.symm.trans h
    refine ⟨(parseWsFrame_consumes hp).2, ?_⟩
    simp only [parseWsFrame] at hp
    split at hp
    · cases hp
    · split at hp
      · cases hp
      · next hlen =>
          split at hp
          · cases hp
          · next hmask =>
              split at hp
              · cases hp
              · split at hp
                · cases hp
                · cases hp
                  exact ⟨_, _, _, _, hlen, hmask, rfl⟩

/-- The payload of a frame is behind its header. -/
theorem parse_payload_le {buf p : Bytes} {n : Nat}
    (h : parseWsFrame buf = .ok (some (n, .payload p))) : p.length + 2 ≤ n := by
  simp only [parseWsFrame] at h
  split at h
  · cases h
  · split at h
    · cases h
    · next hlen =>
        split at h
        · cases h
        · next hmask =>
            have hoff := frameLen_off hlen
            have hoff' := frameMask_off hmask
            split at h
            · cases h
            · split at h
              · cases h
              · simp only [Except.ok.injEq, Option.some.injEq, Prod.mk.injEq] at h
                obtain ⟨rfl, hev⟩ := h
                rw [WsEvent.of] at hev
                split at hev
                · cases hev
                · split at hev
                  · cases hev
                  · cases hev
                    rw [length_unmask, List.length_take]
                    omega

/-! ## What a peer can send -/

/-- The count of empty frames in a row, behind a frame. -/
def WsEvent.count (n : Nat) : WsEvent → Nat
  | .payload [] => n + 1
  | .payload (_ :: _) => 0
  | .skip => n
  | .close => n

/-- Where a frame begins in the bytes there is a header that overflows, or the count of the empty
frames, `n` so far, does. -/
inductive Breaks : Nat → Bytes → Prop
| header {n : Nat} {bs : Bytes} :
  Overflows bs ->
  Breaks n bs
| count {n k : Nat} {bs : Bytes} :
  parseWsFrame bs = .ok (some (k, .payload [])) ->
  2 ^ 32 ≤ n + 1 ->
  Breaks n bs
| behind {n k : Nat} {bs : Bytes} {ev : WsEvent} :
  parseWsFrame bs = .ok (some (k, ev)) ->
  Breaks (ev.count n) (bs.drop k) ->
  Breaks n bs

variable {n k : Nat} {bs more : Bytes} {ev : WsEvent}

theorem not_breaks_none (h : parseWsFrame bs = .ok none) : ¬ Breaks n bs := by
  intro hb
  cases hb with
  | header ho =>
      obtain ⟨e, he⟩ := parseWsFrame_error_iff.mpr ho
      cases h.symm.trans he
  | count hp _ => cases h.symm.trans hp
  | behind hp _ => cases h.symm.trans hp

/-- Behind a frame that is counted without a fault. -/
theorem breaks_behind (h : parseWsFrame bs = .ok (some (k, ev)))
    (hcount : ev = .payload [] → n + 1 < 2 ^ 32) :
    Breaks n bs ↔ Breaks (ev.count n) (bs.drop k) := by
  constructor
  · intro hb
    cases hb with
    | header ho =>
        obtain ⟨e, he⟩ := parseWsFrame_error_iff.mpr ho
        cases h.symm.trans he
    | count hp hn =>
        cases h.symm.trans hp
        exact absurd (hcount rfl) (Nat.not_lt.mpr hn)
    | behind hp hb =>
        cases h.symm.trans hp
        exact hb
  · exact .behind h

theorem Breaks.append (h : Breaks n bs) (more : Bytes) : Breaks n (bs ++ more) := by
  induction h with
  | header ho =>
      obtain ⟨e, he⟩ := parseWsFrame_error_iff.mpr ho
      refine .header (parseWsFrame_error_iff.mp ⟨e, ?_⟩)
      rw [parseWsFrame_append (by rw [he]; intro h; cases h), he]
  | count hp hn =>
      exact .count (by rw [parseWsFrame_append (by rw [hp]; intro h; cases h), hp]) hn
  | behind hp _ ih =>
      refine .behind (by rw [parseWsFrame_append (by rw [hp]; intro h; cases h), hp]) ?_
      rw [List.drop_append_of_le_length (parseWsFrame_consumes hp).2]
      exact ih

end WebSocket

namespace WebSocketStream

open WebSocket Checked

/-! ## The reader -/

def framePassChecked {σ : Type} (st : WebSocketStream σ) :
    Checked (WebSocketStream σ ⊕ (Framed × WebSocketStream σ)) := do
  match ← parseWsFrameChecked st.rx with
  | none => pure (.inr (.waits, st))
  | some (n, ev) =>
      let rx ← drain st.rx n
      let st := { st with rx }
      match ev with
      | .close => pure (.inr (.closed, st))
      | .skip => pure (.inl st)
      | .payload p =>
          if p.isEmpty then
            let emptyFrames ← add 32 st.emptyFrames 1
            let st := { st with emptyFrames }
            if maxEmptyFrames < st.emptyFrames then pure (.inr (.failed tooManyEmpty, st))
            else pure (.inl st)
          else pure (.inr (.decoded, { st with
            emptyFrames := 0
            decoded := p
            decodedPos := 0 }))

/-- `put_slice` of a part into what is left of the caller's buffer. -/
def putSlice (cap : Nat) (part : Bytes) : Checked (Filled UInt8 cap) :=
  if part.length ≤ cap then .ok (.fill cap part) else .error .copy

/-- The sum is within the slice, so it is no length that overflows. -/
def takeDecodedChecked {σ : Type} (st : WebSocketStream σ) (cap : Nat) :
    Checked (Answer UInt8 IoError cap × WebSocketStream σ) := do
  let rest ← sub st.decoded.length st.decodedPos
  let n := min rest cap
  let part ← slice st.decoded st.decodedPos (st.decodedPos + n)
  let filled ← putSlice cap part
  let decodedPos := st.decodedPos + n
  pure (.ready (.ok filled),
    if decodedPos = st.decoded.length then { st with
      decoded := []
      decodedPos := 0 }
    else { st with decodedPos })

theorem takeDecodedChecked_eq {σ : Type} {st : WebSocketStream σ} (cap : Nat)
    (h : st.decodedPos < st.decoded.length) :
    st.takeDecodedChecked cap = .ok (st.takeDecoded cap) := by
  have hpart : (st.decoded.take (st.decodedPos + min (st.decoded.length - st.decodedPos) cap)).drop
      st.decodedPos = (st.decoded.drop st.decodedPos).take cap := by
    rw [List.drop_take, Nat.add_sub_cancel_left, Nat.min_comm, ← List.length_drop,
      ← List.take_eq_take_min]
  have hput : putSlice cap ((st.decoded.drop st.decodedPos).take cap) =
      .ok (.fill cap (st.decoded.drop st.decodedPos)) := by
    rw [putSlice, if_pos (List.length_take_le _ _), Filled.fill, Filled.fill]
    simp only [List.take_take, Nat.min_self]
  simp only [takeDecodedChecked, takeDecoded]
  rw [sub_ok (Nat.le_of_lt h), ok_bind, slice_ok (Nat.le_add_right _ _) (by omega), ok_bind, hpart,
    hput]
  rfl

section

variable {σ : Type} {st st' : WebSocketStream σ}

/-- What has been decoded and not delivered. -/
def ready (st : WebSocketStream σ) : Nat := st.decoded.length - st.decodedPos

/-- A frame has been taken off the bytes at hand. -/
structure Next (st : WebSocketStream σ) (k : Nat) (ev : WsEvent) (st' : WebSocketStream σ) :
    Prop where
  rx : st'.rx = st.rx.drop k
  count : st'.emptyFrames = ev.count st.emptyFrames
  inner : st'.inner = st.inner
  shrinks : st'.rx.length + st'.ready < st.rx.length + st.ready

/-- Where a pass leaves the reader that has taken a frame. -/
inductive Took (st : WebSocketStream σ) (k : Nat) (ev : WsEvent) :
    WebSocketStream σ ⊕ (Framed × WebSocketStream σ) → Prop
| again {st' : WebSocketStream σ} :
  Next st k ev st' ->
  Took st k ev (.inl st')
| stop {r : Framed} {st' : WebSocketStream σ} :
  r ≠ .waits ->
  Next st k ev st' ->
  Took st k ev (.inr (r, st'))

/-- A pass faults, waits, or takes a frame. -/
inductive FramePass (st : WebSocketStream σ) :
    Checked (WebSocketStream σ ⊕ (Framed × WebSocketStream σ)) → Prop
| fault {e : Fault} :
  Breaks st.emptyFrames st.rx ->
  FramePass st (.error e)
| waits :
  parseWsFrame st.rx = .ok none ->
  FramePass st (.ok (.inr (.waits, st)))
| took {k : Nat} {ev : WsEvent} {r : WebSocketStream σ ⊕ (Framed × WebSocketStream σ)} :
  parseWsFrame st.rx = .ok (some (k, ev)) ->
  (ev = .payload [] → st.emptyFrames + 1 < 2 ^ 32) ->
  Took st k ev r ->
  FramePass st (.ok r)

/-- A frame without a payload leaves what has been decoded. -/
theorem next_of_drop {k : Nat} {ev : WsEvent} (hk : 2 ≤ k) (hle : k ≤ st.rx.length)
    (emptyFrames : Nat) (hcount : emptyFrames = ev.count st.emptyFrames) :
    Next st k ev { st with rx := st.rx.drop k, emptyFrames } := by
  refine ⟨rfl, hcount, rfl, ?_⟩
  change (st.rx.drop k).length + st.ready < _
  rw [List.length_drop]
  omega

theorem next_of_payload {k : Nat} {b : UInt8} {p : Bytes} (hk : (b :: p).length + 2 ≤ k)
    (hle : k ≤ st.rx.length) : Next st k (.payload (b :: p)) { st with
      rx := st.rx.drop k
      emptyFrames := 0
      decoded := b :: p
      decodedPos := 0 } := by
  refine ⟨rfl, rfl, rfl, ?_⟩
  change (st.rx.drop k).length + ((b :: p).length - 0) < _
  rw [List.length_drop]
  omega

theorem framePassChecked_spec (st : WebSocketStream σ) :
    FramePass st st.framePassChecked ∧
      ∀ r, st.framePassChecked = .ok r → st.framePass = r := by
  rcases parse_cases st.rx with ⟨ho, hc⟩ | ⟨-, _ | ⟨k, ev⟩, hp, hc⟩
  · simp only [framePassChecked, hc, error_bind]
    exact ⟨.fault (.header ho), fun r h => (by cases h)⟩
  · simp only [framePassChecked, framePass, hc, hp, ok_bind]
    refine ⟨.waits hp, fun r h => ?_⟩
    cases h
    rfl
  · obtain ⟨hk, hle⟩ := parseWsFrame_consumes hp
    simp only [framePassChecked, framePass, hc, hp, ok_bind, drain_ok hle]
    cases ev with
    | close =>
        refine ⟨.took hp (by intro h; cases h)
          (.stop (by intro h; cases h) (next_of_drop hk hle _ rfl)), fun r h => ?_⟩
        cases h
        rfl
    | skip =>
        refine ⟨.took hp (by intro h; cases h) (.again (next_of_drop hk hle _ rfl)), fun r h => ?_⟩
        cases h
        rfl
    | payload p =>
        rcases p with _ | ⟨b, p⟩
        · simp only [List.isEmpty_nil, if_true]
          by_cases hcount : st.emptyFrames + 1 < 2 ^ 32
          · rw [add_ok hcount, ok_bind]
            have hnext : Next st k (.payload [])
                { st with rx := st.rx.drop k, emptyFrames := st.emptyFrames + 1 } :=
              next_of_drop hk hle _ rfl
            split
            · refine ⟨.took hp (fun _ => hcount) (.stop (by intro h; cases h) hnext), fun r h => ?_⟩
              cases h
              rfl
            · refine ⟨.took hp (fun _ => hcount) (.again hnext), fun r h => ?_⟩
              cases h
              rfl
          · rw [add, if_neg hcount, error_bind]
            exact ⟨.fault (.count hp (Nat.not_lt.mp hcount)), fun r h => (by cases h)⟩
        · simp only [List.isEmpty_cons, Bool.false_eq_true, if_false]
          refine ⟨.took hp (by intro h; cases h) (.stop (by intro h; cases h)
            (next_of_payload (parse_payload_le hp) hle)), fun r h => ?_⟩
          cases h
          rfl

end

/-! ## Over a transport -/

def framesChecked {σ : Type} (st : WebSocketStream σ) : Checked (Framed × WebSocketStream σ) :=
  ((frameLoop σ).checked framePassChecked fun st => (framePassChecked_spec st).2).run st

theorem framesChecked_same {σ : Type} {st : WebSocketStream σ} {r : Framed × WebSocketStream σ}
    (h : st.framesChecked = .ok r) : st.frames = r := Loop.checked_run h

def passChecked (st : WebSocketStream Transport) (cap : Nat) : Checked
    (WebSocketStream Transport ⊕ (Answer UInt8 IoError cap × WebSocketStream Transport)) := do
  if st.decodedPos < st.decoded.length then
    let r ← st.takeDecodedChecked cap
    pure (.inr r)
  else
    match ← st.framesChecked with
    | (.failed e, st) => pure (.inr (.ready (.error e), st))
    | (.closed, st) => pure (.inr (.ready (.ok (.empty cap)), st))
    | (.decoded, st) => pure (.inl st)
    | (.waits, st) => pure (st.readMore cap)

theorem passChecked_same (cap : Nat) (st : WebSocketStream Transport)
    (r : WebSocketStream Transport ⊕ (Answer UInt8 IoError cap × WebSocketStream Transport))
    (h : st.passChecked cap = .ok r) : st.pass cap = r := by
  simp only [passChecked] at h
  rw [pass]
  split at h
  · next hpos =>
      rw [takeDecodedChecked_eq cap hpos, ok_bind] at h
      rw [if_pos hpos]
      cases h
      rfl
  · next hpos =>
      rw [if_neg hpos]
      cases hframes : st.framesChecked with
      | error e =>
          rw [hframes, error_bind] at h
          cases h
      | ok x =>
          rw [hframes, ok_bind] at h
          rw [framesChecked_same hframes]
          obtain ⟨f, st'⟩ := x
          cases f <;> cases h <;> rfl

def pollReadChecked (st : WebSocketStream Transport) (cap : Nat) :
    Checked (Answer UInt8 IoError cap × WebSocketStream Transport) :=
  ((readLoop cap).checked (passChecked · cap) (passChecked_same cap)).run st

/-- Polls, one after another, whatever they answer. -/
def polls (st : WebSocketStream Transport) : List Nat → Checked (WebSocketStream Transport)
  | [] => pure st
  | cap :: caps => do
      let r ← st.pollReadChecked cap
      r.2.polls caps

variable {st st' : WebSocketStream Transport}

/-- What the peer has sent and the reader has not taken breaks it. -/
def Broken (st : WebSocketStream Transport) : Prop :=
  Breaks st.emptyFrames (st.rx ++ below st.inner)

/-- What a reader can still go on about. -/
def size (st : WebSocketStream Transport) : Nat :=
  2 * (below st.inner).length + st.rx.length + st.ready + st.stalls

/-- Where the loop over the frames at hand stops. -/
inductive Scan (st : WebSocketStream Transport) :
    Checked (Framed × WebSocketStream Transport) → Prop
| fault {e : Fault} :
  st.Broken ->
  Scan st (.error e)
| waits {st' : WebSocketStream Transport} :
  parseWsFrame st'.rx = .ok none ->
  (st'.Broken ↔ st.Broken) ->
  st'.size ≤ st.size ->
  Scan st (.ok (.waits, st'))
| stop {r : Framed} {st' : WebSocketStream Transport} :
  r ≠ .waits ->
  (st'.Broken ↔ st.Broken) ->
  st'.size < st.size ->
  Scan st (.ok (r, st'))

theorem Next.broken {k : Nat} {ev : WsEvent} (hp : parseWsFrame st.rx = .ok (some (k, ev)))
    (hcount : ev = .payload [] → st.emptyFrames + 1 < 2 ^ 32) (h : Next st k ev st') :
    (st'.Broken ↔ st.Broken) ∧ st'.size < st.size := by
  constructor
  · obtain ⟨hall, hdrop⟩ := parse_ahead hp
    rw [Broken, Broken, breaks_behind hall hcount, hdrop, h.rx, h.count, h.inner]
  · have := h.shrinks
    rw [size, size, WebSocketStream.stalls, WebSocketStream.stalls, h.inner]
    omega

theorem framesChecked_scan (st : WebSocketStream Transport) : Scan st st.framesChecked := by
  refine Loop.checked_rule _ (P := Scan) ?_ ?_ ?_ st
  · intro st st' r hb ih
    have hpass := (framePassChecked_spec st).1
    rw [hb] at hpass
    cases hpass with
    | took hp hcount htook =>
        cases htook with
        | again hnext =>
            obtain ⟨hbroken, hsize⟩ := hnext.broken hp hcount
            cases ih with
            | fault hb => exact .fault (hbroken.mp hb)
            | waits hnone hbroken' hsize' =>
                exact .waits hnone (hbroken'.trans hbroken)
                  (Nat.le_of_lt (Nat.lt_of_le_of_lt hsize' hsize))
            | stop hne hbroken' hsize' =>
                exact .stop hne (hbroken'.trans hbroken) (Nat.lt_trans hsize' hsize)
  · intro st r hb
    have hpass := (framePassChecked_spec st).1
    rw [hb] at hpass
    cases hpass with
    | waits hnone => exact .waits hnone Iff.rfl (Nat.le_refl _)
    | took hp hcount htook =>
        cases htook with
        | stop hne hnext =>
            obtain ⟨hbroken, hsize⟩ := hnext.broken hp hcount
            exact .stop hne hbroken hsize
  · intro st e hb
    have hpass := (framePassChecked_spec st).1
    rw [hb] at hpass
    cases hpass with
    | fault hbreaks => exact .fault (hbreaks.append _)

/-- Where a pass leaves the reader, or a poll. -/
inductive Polled (st : WebSocketStream Transport) (cap : Nat) : Checked
    (WebSocketStream Transport ⊕ (Answer UInt8 IoError cap × WebSocketStream Transport)) → Prop
| fault {e : Fault} :
  st.Broken ->
  Polled st cap (.error e)
| again {st' : WebSocketStream Transport} :
  (st'.Broken ↔ st.Broken) ->
  st'.size ≤ st.size ->
  Polled st cap (.ok (.inl st'))
| answered {a : Answer UInt8 IoError cap} {st' : WebSocketStream Transport} :
  (st'.Broken ↔ st.Broken) ->
  (st.Broken → 0 < cap → st'.size < st.size) ->
  Polled st cap (.ok (.inr (a, st')))

theorem takeDecoded_polled (cap : Nat) (h : st.decodedPos < st.decoded.length) :
    Polled st cap (.ok (.inr (st.takeDecoded cap))) := by
  simp only [takeDecoded]
  refine .answered ?_ ?_
  · split <;> exact Iff.rfl
  · intro _ hcap
    have hless : ∀ taken : WebSocketStream Transport, taken.inner = st.inner → taken.rx = st.rx →
        taken.ready < st.ready → taken.size < st.size := by
      intro taken hinner hrx hready
      rw [size, size, WebSocketStream.stalls, WebSocketStream.stalls, hinner, hrx]
      omega
    split
    · refine hless _ rfl rfl ?_
      change 0 - 0 < st.decoded.length - st.decodedPos
      omega
    · refine hless _ rfl rfl ?_
      change st.decoded.length - (st.decodedPos + _) < st.decoded.length - st.decodedPos
      omega

/-- The end of the layer below leaves nothing to break the reader. -/
theorem not_broken_end {rx : Bytes} (hnone : parseWsFrame rx = .ok none) (n : Nat)
    {inner : PrefixedStream Transport} (hbelow : below inner = []) :
    ¬ Breaks n (rx ++ below inner) := by
  rw [hbelow, List.append_nil]
  exact not_breaks_none hnone

theorem unread_end {t : Transport} (h : unread t.reads = []) (n : Nat) :
    unread (pollRead t n).2.reads = [] := by
  have hpolled := t.pollRead_polled n
  generalize pollRead t n = r at hpolled
  cases hpolled with
  | pending reads hreads =>
      rw [hreads] at h
      exact h
  | error e _ _ => exact h
  | eof _ _ => exact h
  | data l reads hl hreads =>
      rw [hreads, unread_arrive] at h
      exact absurd (List.append_eq_nil_iff.mp h).1 hl

/-- Where nothing is to be read, a poll leaves nothing to be read. -/
theorem below_end {inner inner' : PrefixedStream Transport} {n : Nat}
    {a : Answer UInt8 IoError n} (hnil : below inner = [])
    (h : pollRead inner n = (a, inner')) : below inner' = [] := by
  obtain ⟨hremaining, hunread⟩ := List.append_eq_nil_iff.mp hnil
  have hpos : ¬ inner.pos < inner.prefixBytes.length :=
    Nat.not_lt.mpr (List.drop_eq_nil_iff.mp hremaining)
  have hbelow : pollRead inner n =
      ((pollRead inner.inner n).1, { inner with inner := (pollRead inner.inner n).2 }) :=
    if_neg hpos
  rw [hbelow] at h
  cases h
  exact List.append_eq_nil_iff.mpr ⟨hremaining, unread_end hunread n⟩

theorem readMore_polled (cap : Nat) (hnone : parseWsFrame st.rx = .ok none) :
    Polled st cap (.ok (st.readMore cap)) := by
  have hy : (PrefixedStream.readSpec Transport.readSpec).Yields st.inner (below st.inner)
      st.inner.inner.readEnd := ⟨_, ⟨rfl, rfl⟩, rfl⟩
  have hleaves := (PrefixedStream.readSpec Transport.readSpec).leaves hy (by decide : 0 < 4096)
  -- At the end of the layer below neither the state nor the one that is left is broken.
  have hend : ∀ (a : Answer UInt8 IoError cap) (inner : PrefixedStream Transport),
      below st.inner = [] → below inner = [] →
        Polled st cap (.ok (.inr (a, { st with inner }))) := by
    intro a inner hbelow hbelow'
    have hwhole : ¬ st.Broken := not_broken_end hnone st.emptyFrames hbelow
    exact .answered (iff_of_false (not_broken_end hnone st.emptyFrames hbelow') hwhole)
      fun h => absurd h hwhole
  simp only [readMore]
  cases hr : pollRead st.inner 4096 with
  | mk a inner =>
      rw [hr] at hleaves
      rcases a with _ | e | d
      · obtain ⟨⟨_, ⟨rfl, -⟩, hbelow⟩, hlt⟩ := hleaves
        have hbelow : below inner = below st.inner := hbelow.symm
        have hlt : RustClash.stalls inner.inner.reads < RustClash.stalls st.inner.inner.reads := hlt
        refine .answered ?_ fun _ _ => ?_
        · rw [Broken, Broken, hbelow]
        · rw [size, size, WebSocketStream.stalls, WebSocketStream.stalls, hbelow]
          exact Nat.add_lt_add_left hlt _
      · exact hend _ _ hleaves.1 (below_end hleaves.1 hr)
      · dsimp only
        by_cases hd : d.items = []
        · have hbelow := ((leaves_eof_iff hd).mp hleaves).1
          rw [if_pos (by simpa using hd)]
          exact hend _ _ hbelow (below_end hbelow hr)
        · obtain ⟨hbelow, -, hstalls⟩ := below_read (by decide) hr hd
          rw [if_neg (by simpa using hd)]
          refine .again ?_ ?_
          · rw [Broken, Broken, hbelow, List.append_assoc]
          · rw [size, size, WebSocketStream.stalls, WebSocketStream.stalls, hbelow]
            simp only [List.length_append]
            change 2 * (below inner).length + _ + st.ready + _ ≤ _
            omega

theorem passChecked_polled (st : WebSocketStream Transport) (cap : Nat) :
    Polled st cap (st.passChecked cap) := by
  rw [passChecked]
  split
  · next hpos =>
      rw [takeDecodedChecked_eq cap hpos, ok_bind]
      exact takeDecoded_polled cap hpos
  · have hscan := framesChecked_scan st
    generalize st.framesChecked = x at hscan ⊢
    cases hscan with
    | fault hb => exact .fault hb
    | @waits st' hnone hbroken hsize =>
        have hmore := readMore_polled cap hnone
        rw [ok_bind]
        change Polled st cap (.ok (st'.readMore cap))
        generalize st'.readMore cap = r at hmore
        cases hmore with
        | again hbroken' hsize' =>
            exact .again (hbroken'.trans hbroken) (Nat.le_trans hsize' hsize)
        | answered hbroken' hsize' =>
            exact .answered (hbroken'.trans hbroken) fun hb hcap =>
              Nat.lt_of_lt_of_le (hsize' (hbroken.mpr hb) hcap) hsize
    | @stop r st' hne hbroken hsize =>
        rw [ok_bind]
        cases r with
        | waits => exact absurd rfl hne
        | closed => exact .answered hbroken fun _ _ => hsize
        | failed e => exact .answered hbroken fun _ _ => hsize
        | decoded => exact .again hbroken (Nat.le_of_lt hsize)

/-- A poll faults only of a broken reader, and leaves one that is broken if it was. -/
theorem pollReadChecked_spec (st : WebSocketStream Transport) (cap : Nat) :
    (∃ e, st.pollReadChecked cap = .error e ∧ st.Broken) ∨
      ∃ a st', st.pollReadChecked cap = .ok (a, st') ∧ (st'.Broken ↔ st.Broken) ∧
        (st.Broken → 0 < cap → st'.size < st.size) := by
  refine Loop.checked_rule _ (P := fun (st : WebSocketStream Transport)
    (x : Checked (Answer UInt8 IoError cap × WebSocketStream Transport)) =>
      (∃ e, x = .error e ∧ st.Broken) ∨ ∃ a st', x = .ok (a, st') ∧ (st'.Broken ↔ st.Broken) ∧
        (st.Broken → 0 < cap → st'.size < st.size)) ?_ ?_ ?_ st
  · intro st st' x hb ih
    have hpass := passChecked_polled st cap
    rw [hb] at hpass
    cases hpass with
    | again hbroken hsize =>
        rcases ih with ⟨e, he, hb'⟩ | ⟨a, st'', hx, hbroken', hsize'⟩
        · exact .inl ⟨e, he, hbroken.mp hb'⟩
        · exact .inr ⟨a, st'', hx, hbroken'.trans hbroken, fun hb hcap =>
            Nat.lt_of_lt_of_le (hsize' (hbroken.mpr hb) hcap) hsize⟩
  · intro st r hb
    have hpass := passChecked_polled st cap
    rw [hb] at hpass
    cases hpass with
    | answered hbroken hsize => exact .inr ⟨_, _, rfl, hbroken, hsize⟩
  · intro st e hb
    have hpass := passChecked_polled st cap
    rw [hb] at hpass
    cases hpass with
    | fault hb => exact .inl ⟨e, rfl, hb⟩

/-- Enough polls of a broken reader fault, and no polls of another. -/
theorem polls_run_iff (st : WebSocketStream Transport) :
    (∀ caps, Runs (st.polls caps)) ↔ ¬ st.Broken := by
  constructor
  · intro hall hb
    induction hn : st.size using Nat.strongRecOn generalizing st with
    | _ n ih =>
        rcases pollReadChecked_spec st 1 with ⟨e, he, -⟩ | ⟨a, st', hpoll, hbroken, hsize⟩
        · have hrun := hall [1]
          rw [polls, he] at hrun
          exact not_runs_error e hrun
        · refine ih st'.size (hn ▸ hsize hb Nat.one_pos) st' (fun caps => ?_) (hbroken.mpr hb) rfl
          have hrun := hall (1 :: caps)
          rw [polls, hpoll] at hrun
          exact hrun
  · intro hb caps
    induction caps generalizing st with
    | nil => exact runs_pure st
    | cons cap caps ih =>
      rcases pollReadChecked_spec st cap with ⟨e, -, hb'⟩ | ⟨a, st', hpoll, hbroken, -⟩
      · exact absurd hb' hb
      · rw [polls, hpoll]
        exact ih st' (mt hbroken.mp hb)

/-- The parser does not fault if and only if no complete header states a length that does not fit
behind it; a frame that it returns is at hand; and however the bytes come in, no poll of a reader
faults if and only if nothing that its peer sends breaks it. -/
theorem frames_taken_iff (buf leftover : Bytes) (reads : List ReadEvent)
    (readEnd : End IoError) (rng : Nat → UInt8) :
    (Runs (parseWsFrameChecked buf) ↔ ¬ Overflows buf) ∧
    (∀ n ev, parseWsFrameChecked buf = .ok (some (n, ev)) → n ≤ buf.length ∧
      ∃ len off mask off', frameLen buf = some (len, off) ∧
        frameMask buf off = some (mask, off') ∧ n = off' + len) ∧
    ((∀ caps, Runs ((new (Transport.serving reads readEnd) leftover rng).polls caps)) ↔
      ¬ Breaks 0 (leftover ++ unread reads)) := by
  refine ⟨?_, fun n ev => parse_contained, ?_⟩
  · rcases parse_cases buf with ⟨ho, hc⟩ | ⟨ho, r, -, hc⟩
    · rw [hc]
      exact iff_of_false (not_runs_error _) (not_not.mpr ho)
    · rw [hc]
      exact iff_of_true (runs_ok r) ho
  · exact polls_run_iff (new (Transport.serving reads readEnd) leftover rng)

/-- A header that states a length of 2⁶⁴ - 1. -/
def hugeHeader : Bytes := 0x82 :: 127 :: List.replicate 8 0xFF

/-- The parser panics of it, and so does the first poll of a reader. -/
theorem not_frames_taken : ¬ Runs (parseWsFrameChecked hugeHeader) ∧
    ¬ ∀ caps, Runs ((new (Transport.serving [.data 0x82 (127 :: List.replicate 8 0xFF)] .eof) []
      fun _ => 0).polls caps) := by
  have hover : Overflows hugeHeader := by
    refine ⟨by decide, ?_⟩
    decide
  constructor
  · rcases parse_cases hugeHeader with ⟨-, hc⟩ | ⟨ho, -⟩
    · rw [hc]
      exact not_runs_error _
    · exact absurd hover ho
  · rw [polls_run_iff]
    exact not_not.mpr (.header hover)

end WebSocketStream

end RustClash
