import RustClash.Proxynet.WebSocket

/-!
# Frames and what they mean

A `Frame` may have any first byte, any mask and any form of its length that holds it.
`parseWsFrame` takes it off whatever is behind it, and what it has once taken off it
takes off again when more is at hand.  Frames mean their payloads, up to the first that
closes.
-/

namespace RustClash

namespace WebSocket

/-! ## Frames -/

inductive LengthForm where
  | short
  | medium
  | long
deriving DecidableEq

/-- A length in this form is below `limit`. -/
def LengthForm.limit : LengthForm → Nat
  | short => 126
  | medium => 2 ^ 16
  | long => 2 ^ 63

theorem LengthForm.limit_le (form : LengthForm) : form.limit ≤ 2 ^ 63 := by
  cases form <;> decide

structure Frame where
  head : UInt8
  mask : Option (Octets 4)
  form : LengthForm
  payload : Bytes

namespace Frame

/-- The form holds the length of the payload. -/
def Fits (f : Frame) : Prop := f.payload.length < f.form.limit

def lengthField (f : Frame) : Nat :=
  match f.form with
  | .short => f.payload.length
  | .medium => 126
  | .long => 127

def extended (f : Frame) : Bytes :=
  match f.form with
  | .short => []
  | .medium => toBe16 f.payload.length
  | .long => toBe 8 f.payload.length

def second (f : Frame) : UInt8 :=
  (if f.mask.isSome then 0x80 else 0) ||| UInt8.ofNat f.lengthField

def maskBytes (f : Frame) : Bytes := f.mask.elim [] Octets.bytes

def bytes (f : Frame) : Bytes :=
  f.head :: f.second ::
    (f.extended ++ (f.maskBytes ++ unmask (f.mask.map Octets.bytes) f.payload))

def event (f : Frame) : WsEvent := .of (f.head &&& 0x0F) f.payload

end Frame

@[simp] theorem length_applyMask (mask payload : Bytes) :
    (applyMask mask payload).length = payload.length := List.length_mapIdx

theorem applyMask_applyMask (mask payload : Bytes) :
    applyMask mask (applyMask mask payload) = payload := by
  rw [applyMask, applyMask, List.mapIdx_mapIdx]
  refine List.ext_getElem (by simp) ?_
  intro i hi hi'
  rw [List.getElem_mapIdx, Function.comp_apply, UInt8.xor_assoc, UInt8.xor_self, UInt8.xor_zero]

@[simp] theorem length_unmask (mask : Option Bytes) (payload : Bytes) :
    (unmask mask payload).length = payload.length := by
  cases mask with
  | none => rfl
  | some mask => exact length_applyMask mask payload

theorem unmask_unmask (mask : Option Bytes) (payload : Bytes) :
    unmask mask (unmask mask payload) = payload := by
  cases mask with
  | none => rfl
  | some mask => exact applyMask_applyMask mask payload

/-- The two fields of the second byte. -/
theorem second_fields {n : Nat} (hn : n < 128) (masked : Bool) :
    (((if masked then 0x80 else 0) ||| UInt8.ofNat n) &&& 0x7F).toNat = n ∧
      (((if masked then 0x80 else 0) ||| UInt8.ofNat n) &&& 0x80 ≠ 0 ↔ masked = true) := by
  revert n
  cases masked <;> decide

variable {f : Frame}

theorem Frame.lengthField_lt (h : f.Fits) : f.lengthField < 128 := by
  rw [Fits] at h
  rw [lengthField]
  cases hform : f.form with
  | short =>
      rw [hform] at h
      exact Nat.lt_trans h (by decide)
  | medium => exact (by decide : 126 < 128)
  | long => exact (by decide : 127 < 128)

theorem Frame.bytes_append (f : Frame) (rest : Bytes) :
    f.bytes ++ rest = f.head :: f.second :: (f.extended ++
      (f.maskBytes ++ (unmask (f.mask.map Octets.bytes) f.payload ++ rest))) := by
  simp [Frame.bytes]

theorem frameLen_bytes (h : f.Fits) (rest : Bytes) :
    frameLen (f.bytes ++ rest) = some (f.payload.length, 2 + f.extended.length) := by
  have hfield := (second_fields (f.lengthField_lt h) f.mask.isSome).1
  rw [f.bytes_append]
  generalize f.maskBytes ++ _ = tail
  rw [frameLen, List.getD_cons_succ, List.getD_cons_zero, Frame.second, hfield]
  rw [Frame.Fits] at h
  rw [Frame.lengthField, Frame.extended]
  cases hform : f.form <;> rw [hform] at h <;> dsimp only
  · have h : f.payload.length < 126 := h
    rw [if_neg (Nat.ne_of_lt h), if_neg (by omega)]
    rfl
  · have h : f.payload.length < 65536 := h
    rw [if_pos rfl, if_neg (by simp)]
    exact congrArg (fun n => some (n, 2 + 2)) (ofBe16_toBe16 h)
  · have h : f.payload.length < 2 ^ 63 := h
    have htake : (toBe 8 f.payload.length ++ tail).take 8 = toBe 8 f.payload.length :=
      List.take_left' (length_toBe _ _)
    rw [if_neg (by decide), if_pos rfl, if_neg (by simp), List.drop_succ_cons, List.drop_succ_cons,
      List.drop_zero, htake, ofBe_toBe (by omega), length_toBe]

/-- What is behind the length of a frame. -/
theorem Frame.drop_extended (f : Frame) (rest : Bytes) :
    (f.bytes ++ rest).drop (2 + f.extended.length) =
      f.maskBytes ++ (unmask (f.mask.map Octets.bytes) f.payload ++ rest) := by
  rw [f.bytes_append, Nat.add_comm, List.drop_succ_cons, List.drop_succ_cons, List.drop_left]

theorem Frame.length_bytes (f : Frame) : f.bytes.length =
    2 + f.extended.length + f.maskBytes.length + f.payload.length := by
  simp only [Frame.bytes, List.length_cons, List.length_append, length_unmask]
  omega

theorem frameMask_bytes (h : f.Fits) (rest : Bytes) :
    frameMask (f.bytes ++ rest) (2 + f.extended.length) =
      some (f.mask.map Octets.bytes, 2 + f.extended.length + f.maskBytes.length) := by
  have hfield := (second_fields (f.lengthField_lt h) f.mask.isSome).2
  have hsecond : (f.bytes ++ rest).getD 1 0 = f.second := rfl
  have hlen : 2 + f.extended.length + f.maskBytes.length ≤ (f.bytes ++ rest).length := by
    rw [List.length_append, f.length_bytes]
    omega
  rw [frameMask, hsecond, Frame.second, f.drop_extended]
  cases hmask : f.mask with
  | none =>
      rw [hmask] at hfield
      rw [if_neg (by simpa using hfield), Frame.maskBytes, hmask]
      rfl
  | some mask =>
      have hbytes : f.maskBytes = mask.bytes := by rw [Frame.maskBytes, hmask]; rfl
      rw [hbytes, mask.size] at hlen
      rw [hmask] at hfield
      rw [if_pos (hfield.mpr rfl), if_neg (Nat.not_lt.mpr hlen), hbytes, List.take_left' mask.size,
        mask.size]
      rfl

/-- A frame is taken off whatever is behind it. -/
theorem parseWsFrame_bytes (h : f.Fits) (rest : Bytes) :
    parseWsFrame (f.bytes ++ rest) = .ok (some (f.bytes.length, f.event)) := by
  have hlen := f.length_bytes
  have hfits : f.payload.length < 2 ^ 63 := Nat.lt_of_lt_of_le h f.form.limit_le
  have hmask : f.maskBytes.length ≤ 4 := by
    rw [Frame.maskBytes]
    cases f.mask with
    | none => exact Nat.zero_le _
    | some mask => exact Nat.le_of_eq mask.size
  have hext : f.extended.length ≤ 8 := by
    rw [Frame.extended]
    split <;> simp
  have hpayload : ((f.bytes ++ rest).drop (2 + f.extended.length + f.maskBytes.length)).take
      f.payload.length = unmask (f.mask.map Octets.bytes) f.payload := by
    rw [← List.drop_drop, f.drop_extended, List.drop_left, List.take_left' (length_unmask _ _)]
  rw [parseWsFrame, if_neg (by rw [List.length_append]; omega)]
  simp only [frameLen_bytes h, frameMask_bytes h]
  rw [if_neg (by omega), if_neg (by rw [List.length_append]; omega), hpayload, unmask_unmask, ← hlen]
  rfl

/-! ## More bytes -/

theorem getD_append_left {buf : Bytes} {i : Nat} (h : i < buf.length) (more : Bytes) :
    (buf ++ more).getD i 0 = buf.getD i 0 := by
  rw [List.getD_eq_getElem?_getD, List.getD_eq_getElem?_getD, List.getElem?_append_left h]

theorem take_drop_append {buf : Bytes} {off n : Nat} (h : off + n ≤ buf.length) (more : Bytes) :
    ((buf ++ more).drop off).take n = (buf.drop off).take n := by
  rw [List.drop_append_of_le_length (by omega),
    List.take_append_of_le_length (by rw [List.length_drop]; omega)]

theorem frameLen_append {buf : Bytes} {len off : Nat} (hbuf : 2 ≤ buf.length)
    (h : frameLen buf = some (len, off)) (more : Bytes) :
    frameLen (buf ++ more) = some (len, off) ∧ off ≤ buf.length := by
  simp only [frameLen] at h ⊢
  rw [getD_append_left (by omega)]
  split at h
  · next heq =>
      split at h
      · cases h
      · next hge =>
          rw [if_pos heq, if_neg (by rw [List.length_append]; omega), getD_append_left (by omega),
            getD_append_left (by omega)]
          cases h
          exact ⟨rfl, by omega⟩
  · next hne =>
      rw [if_neg hne]
      split at h
      · next heq =>
          split at h
          · cases h
          · next hge =>
              rw [if_pos heq, if_neg (by rw [List.length_append]; omega), take_drop_append (by omega)]
              cases h
              exact ⟨rfl, by omega⟩
      · next hne' =>
          rw [if_neg hne']
          cases h
          exact ⟨rfl, hbuf⟩

theorem frameMask_append {buf : Bytes} {off off' : Nat} {mask : Option Bytes}
    (hbuf : 2 ≤ buf.length) (h : frameMask buf off = some (mask, off')) (more : Bytes) :
    frameMask (buf ++ more) off = some (mask, off') := by
  simp only [frameMask] at h ⊢
  rw [getD_append_left (by omega)]
  split at h
  · next heq =>
      split at h
      · cases h
      · next hge =>
          rw [if_pos heq, if_neg (by rw [List.length_append]; omega), take_drop_append (by omega)]
          exact h
  · next hne =>
      rw [if_neg hne]
      exact h

/-- What is once said of the bytes at hand is said again when there are more. -/
theorem parseWsFrame_append {buf : Bytes} (h : parseWsFrame buf ≠ .ok none) (more : Bytes) :
    parseWsFrame (buf ++ more) = parseWsFrame buf := by
  simp only [parseWsFrame] at h ⊢
  split at h
  · exact absurd rfl h
  · next hge =>
      rw [if_neg hge, if_neg (by rw [List.length_append]; omega)]
      split at h
      · exact absurd rfl h
      · next len off hlen =>
          obtain ⟨hlen', -⟩ := frameLen_append (Nat.not_lt.mp hge) hlen more
          simp only [hlen']
          split at h
          · exact absurd rfl h
          · next mask off' hmask =>
              simp only [frameMask_append (Nat.not_lt.mp hge) hmask more]
              split at h
              · next hoverflow => rw [if_pos hoverflow, if_pos hoverflow]
              · next hoverflow =>
                  rw [if_neg hoverflow, if_neg hoverflow]
                  split at h
                  · exact absurd rfl h
                  · next henough =>
                      rw [if_neg henough, if_neg (by rw [List.length_append]; omega),
                        take_drop_append (by omega), getD_append_left (by omega)]

/-! ## What a client writes -/

/-- The shortest form that holds a length. -/
def LengthForm.of (n : Nat) : LengthForm :=
  if n < 126 then .short else if n ≤ 65535 then .medium else .long

/-- The frame that a client puts a payload in. -/
def clientFrame (mask : Octets 4) (payload : Bytes) : Frame :=
  ⟨0x82, some mask, .of payload.length, payload⟩

theorem clientFrame_fits (mask : Octets 4) {payload : Bytes} (h : payload.length < 2 ^ 63) :
    (clientFrame mask payload).Fits := by
  show payload.length < (LengthForm.of payload.length).limit
  rw [LengthForm.of]
  split
  · assumption
  · split
    · next hle => exact Nat.lt_succ_of_le hle
    · exact h

theorem encodeClientBinaryFrame_bytes (mask : Octets 4) (payload : Bytes) :
    encodeClientBinaryFrame mask payload = (clientFrame mask payload).bytes := by
  simp only [encodeClientBinaryFrame, Frame.bytes, clientFrame, Frame.second, Frame.extended,
    Frame.lengthField, LengthForm.of]
  by_cases hshort : payload.length < 126
  · rw [if_pos hshort, if_pos hshort]
    rfl
  · rw [if_neg hshort, if_neg hshort]
    by_cases hmedium : payload.length ≤ 65535
    · rw [if_pos hmedium, if_pos hmedium]
      rfl
    · rw [if_neg hmedium, if_neg hmedium]
      rfl

theorem parseWsFrame_encode (mask : Octets 4) {payload : Bytes} (h : payload.length < 2 ^ 63)
    (suffix : Bytes) : parseWsFrame (encodeClientBinaryFrame mask payload ++ suffix) =
      .ok (some ((encodeClientBinaryFrame mask payload).length, .payload payload)) := by
  have hevent : (clientFrame mask payload).event = .payload payload := by
    show WsEvent.of (0x82 &&& 0x0F) payload = _
    rw [WsEvent.of, if_neg (by decide), if_neg (by decide)]
  rw [encodeClientBinaryFrame_bytes, parseWsFrame_bytes (clientFrame_fits mask h), hevent]

end WebSocket

open WebSocket

namespace WebSocketStream

/-! ## What frames mean -/

/-- The payloads up to the first close frame. -/
def payloads : List Frame → Bytes
  | [] => []
  | f :: fs =>
      match f.event with
      | .close => []
      | .skip => payloads fs
      | .payload p => p ++ payloads fs

/-- A close frame is the end; without one the end is that of the layer below. -/
def endOf (below : End IoError) : List Frame → End IoError
  | [] => below
  | f :: fs =>
      match f.event with
      | .close => .eof
      | .skip => endOf below fs
      | .payload _ => endOf below fs

/-- `n` empty data frames have come in a row, and so do never more than 64: other control frames
than a close frame come in between. -/
def Patient (n : Nat) : List Frame → Prop
  | [] => True
  | f :: fs =>
      match f.event with
      | .close => True
      | .skip => Patient n fs
      | .payload p => if p = [] then n + 1 ≤ maxEmptyFrames ∧ Patient (n + 1) fs else Patient 0 fs

/-- The payloads of the data frames. -/
def dataPayloads : List Frame → List Bytes
  | [] => []
  | f :: fs =>
      match f.event with
      | .payload p => p :: dataPayloads fs
      | _ => dataPayloads fs

/-- With at most 64 empty payloads in a row, a reader that has met `n` in a row is patient. -/
theorem patient_of_runs {fs : List Frame} {n : Nat}
    (hrun : ∀ k, List.replicate k [] <:+: dataPayloads fs → k ≤ maxEmptyFrames)
    (hfirst : ∀ k, List.replicate k [] <+: dataPayloads fs → k + n ≤ maxEmptyFrames) :
    Patient n fs := by
  induction fs generalizing n with
  | nil => trivial
  | cons f fs ih =>
    rw [dataPayloads] at hrun hfirst
    rw [Patient]
    generalize f.event = ev at hrun hfirst ⊢
    cases ev with
    | close => trivial
    | skip => exact ih hrun hfirst
    | payload q =>
        dsimp only at hrun hfirst ⊢
        have hrest : ∀ k, List.replicate k [] <:+: dataPayloads fs → k ≤ maxEmptyFrames :=
          fun k hk => hrun k (hk.trans (List.suffix_cons _ _).isInfix)
        split
        · next hq =>
            subst hq
            have hnext :
                ∀ k, List.replicate k [] <+: dataPayloads fs → k + (n + 1) ≤ maxEmptyFrames := by
              intro k hk
              have h := hfirst (k + 1) (List.cons_prefix_cons.mpr ⟨rfl, hk⟩)
              omega
            have hone := hnext 0 (List.nil_prefix)
            exact ⟨by omega, ih hrest hnext⟩
        · exact ih hrest fun k hk => hrest k hk.isInfix

end WebSocketStream

end RustClash
