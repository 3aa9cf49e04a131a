import RustClash.Lib.Sink
import RustClash.Proxynet.Vmess.Crypto

/-!
# The VMess stream, writing

The half of a `VmessAuthStream` that writes.  A chunk has three streams behind it: the
nonces, the SHAKE stream of padding lengths and masks, and the random padding.
`Counters` is where they stand, and `Counters.after` where they stand after a number
of chunks.  Over a sink the half is a sink: the layer below gets a chunk for each
piece that is reported, and the one that is staged.
-/

namespace RustClash

open Vmess

namespace Vmess

inductive WriteState where
  | chunk
  | flush (consumed total written : Nat)
deriving DecidableEq

end Vmess

/-- What a `VmessAuthStream` writes with; the padding is drawn from `rng`. -/
structure VmessWriteHalf (p : Primitives) (σ : Type) where
  inner : σ
  enc : BodyAead
  encNonce : VmessNonce
  encSize : ShakeSizeParser
  tagLen : Nat
  writeBuf : Bytes
  writeState : WriteState
  rng : Nat → UInt8

namespace VmessWriteHalf

variable {p : Primitives} {σ : Type}

def withCipher (p : Primitives) (inner : σ) (sess : ClientSession) (enc : BodyAead)
    (rng : Nat → UInt8) : VmessWriteHalf p σ where
  inner := inner
  enc := enc
  encNonce := .new sess.requestBodyIv.bytes 12
  encSize := .new p sess.requestBodyIv.bytes
  tagLen := BodyAead.tagLen
  writeBuf := []
  writeState := .chunk
  rng := rng

def new (p : Primitives) (inner : σ) (sess : ClientSession) (security : String)
    (rng : Nat → UInt8) : Except ProxyError (VmessWriteHalf p σ) :=
  (BodyAead.new p security sess.requestBodyKey.bytes).map (withCipher p inner sess · rng)

def earlyEof : IoError := ⟨.unexpectedEof, "vmess eof"⟩

section

variable [AsyncWrite σ]

/-- The loop of `poll_write` in the state that hands `write_buf` on. -/
def writeFlush (st : VmessWriteHalf p σ) (consumed total written : Nat) :
    Poll (IoResult Nat) × VmessWriteHalf p σ :=
  let (r, writeBuf, written, inner) :=
    handOn pollWrite earlyEof total st.writeBuf written st.inner
  let st : VmessWriteHalf p σ := { st with writeBuf, inner }
  match r with
  | .pending => (.pending, { st with writeState := .flush consumed total written })
  | .ready (.error e) => (.ready (.error e), { st with writeState := .flush consumed total written })
  | .ready (.ok ()) => (.ready (.ok consumed), { st with writeState := .chunk })

def writeChunk (st : VmessWriteHalf p σ) (buf : Bytes) :
    Poll (IoResult Nat) × VmessWriteHalf p σ :=
  let (padding, encSize) := st.encSize.nextPaddingLen
  let padding := padding.toNat
  let maxPayload := 0x4000 - st.tagLen - padding
  let consume := min buf.length maxPayload
  let payloadLen := consume + st.tagLen + padding
  let (masked, encSize) := encSize.encode (UInt16.ofNat payloadLen)
  let (nonce, encNonce) := st.encNonce.next
  let piece := st.enc.seal p nonce (buf.take consume)
  let pad := (List.range padding).map st.rng
  let writeBuf := masked ++ (piece ++ pad)
  { st with
    encSize
    encNonce
    writeBuf
    rng := fun n => st.rng (n + padding) }.writeFlush consume writeBuf.length 0

instance : AsyncWrite (VmessWriteHalf p σ) where
  pollWrite st buf :=
    match st.writeState with
    | .chunk => st.writeChunk buf
    | .flush consumed total written => st.writeFlush consumed total written
  pollFlush st :=
    let (r, inner) := pollFlush st.inner
    (r, { st with inner })

end

end VmessWriteHalf

namespace Vmess

/-! ## Chunks -/

/-- The three streams that chunks draw from. -/
structure Counters where
  nonce : VmessNonce
  size : ShakeSizeParser
  rng : Nat → UInt8

namespace Counters

/-- The length of the padding of the next chunk. -/
def padding (ctr : Counters) : Nat := ctr.size.nextPaddingLen.1.toNat

def maxPayload (ctr : Counters) : Nat := 0x4000 - BodyAead.tagLen - ctr.padding

/-- The length that the next chunk states, with `n` bytes of content. -/
def payloadLen (ctr : Counters) (n : Nat) : Nat := n + BodyAead.tagLen + ctr.padding

def pad (ctr : Counters) : Bytes := (List.range ctr.padding).map ctr.rng

/-- The masked length of the next chunk. -/
def masked (ctr : Counters) (n : Nat) : Bytes :=
  (ctr.size.nextPaddingLen.2.encode (UInt16.ofNat (ctr.payloadLen n))).1

/-- Where the streams stand after a chunk: its content does not matter. -/
def next (ctr : Counters) : Counters where
  nonce := ctr.nonce.next.2
  size := ⟨fun n => ctr.size.reader (n + 2 + 2)⟩
  rng n := ctr.rng (n + ctr.padding)

/-- The next chunk. -/
def chunk (p : Primitives) (enc : BodyAead) (ctr : Counters) (piece : Bytes) : Bytes :=
  ctr.masked piece.length ++ (enc.seal p ctr.nonce.next.1 piece ++ ctr.pad)

def chunks (p : Primitives) (enc : BodyAead) : Counters → List Bytes → Bytes
  | _, [] => []
  | ctr, piece :: pieces => ctr.chunk p enc piece ++ chunks p enc ctr.next pieces

def after (ctr : Counters) : Nat → Counters
  | 0 => ctr
  | k + 1 => (ctr.after k).next

theorem after_next (ctr : Counters) (k : Nat) : ctr.next.after k = (ctr.after k).next := by
  induction k with
  | zero => rfl
  | succ k ih => rw [after, ih, after]

theorem chunks_append (p : Primitives) (enc : BodyAead) (ctr : Counters) (pieces : List Bytes)
    (piece : Bytes) : chunks p enc ctr (pieces ++ [piece]) =
      chunks p enc ctr pieces ++ (ctr.after pieces.length).chunk p enc piece := by
  induction pieces generalizing ctr with
  | nil => simp [chunks, after]
  | cons piece' pieces ih =>
    rw [List.cons_append, chunks, chunks, ih, after_next, List.append_assoc, List.length_cons, after]

/-- A chunk takes four bytes of the SHAKE stream: two for its padding, two for its mask. -/
theorem after_size (ctr : Counters) (k i : Nat) :
    (ctr.after k).size.reader i = ctr.size.reader (4 * k + i) := by
  induction k generalizing i with
  | zero => rw [Nat.mul_zero, Nat.zero_add, after]
  | succ k ih =>
    rw [after, next, ih]
    congr 1
    omega

theorem padding_lt (ctr : Counters) : ctr.padding < 64 := by
  rw [padding, ShakeSizeParser.nextPaddingLen]
  simp only [UInt16.toNat_mod]
  exact Nat.mod_lt _ (by decide)

theorem maxPayload_pos (ctr : Counters) : 0 < ctr.maxPayload := by
  have := ctr.padding_lt
  rw [maxPayload, BodyAead.tagLen]
  omega

/-- Pieces that chunks from `ctr` on carry. -/
def Fits (ctr : Counters) (pieces : List Bytes) : Prop :=
  ∀ k piece, pieces[k]? = some piece → piece ≠ [] ∧ piece.length ≤ (ctr.after k).maxPayload

theorem Fits.append {ctr : Counters} {pieces : List Bytes} {piece : Bytes} (h : ctr.Fits pieces)
    (hne : piece ≠ []) (hlen : piece.length ≤ (ctr.after pieces.length).maxPayload) :
    ctr.Fits (pieces ++ [piece]) := by
  intro k q hq
  rcases Nat.lt_trichotomy k pieces.length with hlt | rfl | hgt
  · rw [List.getElem?_append_left hlt] at hq
    exact h k q hq
  · rw [List.getElem?_concat_length] at hq
    cases hq
    exact ⟨hne, hlen⟩
  · rw [List.getElem?_eq_none (by rw [List.length_append, List.length_singleton]; omega)] at hq
    cases hq

end Counters

end Vmess

namespace VmessWriteHalf

variable {p : Primitives} {σ : Type} [AsyncWrite σ]
  {spec : SinkSpec (pollWrite : WriteFn σ UInt8 IoError) pollFlush} {enc : BodyAead}
  {ctr : Counters} {st : VmessWriteHalf p σ} {out : Option Bytes} {pieces : List Bytes}
  {buf : Bytes}

/-! ## What is handed on -/

/-- Where the three streams stand. -/
def counters (st : VmessWriteHalf p σ) : Counters := ⟨st.encNonce, st.encSize, st.rng⟩

/-- The chunks of all pieces are sealed, and `rest` is still to be handed on. -/
structure Wrote (spec : SinkSpec (pollWrite : WriteFn σ UInt8 IoError) pollFlush) (enc : BodyAead)
    (ctr : Counters) (st : VmessWriteHalf p σ) (pieces : List Bytes) (rest : Bytes) : Prop where
  cipher : st.enc = enc
  tagLen : st.tagLen = BodyAead.tagLen
  counters : st.counters = ctr.after pieces.length
  fits : ctr.Fits pieces
  held : spec.Holding rest st.inner (ctr.chunks p enc pieces)

/-- The piece that a write of `buf` seals behind `pieces`. -/
def nextPiece (ctr : Counters) (pieces : List Bytes) (buf : Bytes) : Bytes :=
  buf.take (ctr.after pieces.length).maxPayload

/-- Where a writer stands that has reported `pieces`. -/
inductive Sealing (spec : SinkSpec (pollWrite : WriteFn σ UInt8 IoError) pollFlush)
    (enc : BodyAead) (ctr : Counters) (st : VmessWriteHalf p σ) :
    Option Bytes → List Bytes → Prop
| idle {pieces : List Bytes} :
  st.writeState = .chunk ->
  Wrote spec enc ctr st pieces [] ->
  Sealing spec enc ctr st none pieces
| staged {buf : Bytes} {pieces : List Bytes} {total written : Nat} :
  st.writeState = .flush (nextPiece ctr pieces buf).length total written ->
  st.writeBuf ≠ [] ->
  written + st.writeBuf.length = total ->
  Wrote spec enc ctr st (pieces ++ [nextPiece ctr pieces buf]) st.writeBuf ->
  Sealing spec enc ctr st (some buf) pieces

theorem nextPiece_ne_nil (hne : buf ≠ []) : nextPiece ctr pieces buf ≠ [] := by
  rw [nextPiece, ne_eq, List.take_eq_nil_iff]
  exact not_or.mpr ⟨Nat.ne_of_gt (Counters.maxPayload_pos _), hne⟩

theorem writeFlush_answered {total written : Nat} (hne : buf ≠ []) (hbuf : st.writeBuf ≠ [])
    (hcount : written + st.writeBuf.length = total)
    (h : Wrote spec enc ctr st (pieces ++ [nextPiece ctr pieces buf]) st.writeBuf) :
    Answered (Sealing spec enc ctr) pieces buf
      (st.writeFlush (nextPiece ctr pieces buf).length total written) := by
  have hon := h.held.handOn hbuf hcount earlyEof
  simp only [writeFlush]
  generalize handOn pollWrite earlyEof total st.writeBuf written st.inner = r at hon ⊢
  obtain ⟨r, writeBuf, written', inner⟩ := r
  obtain ⟨hheld, hcount', hdone, hundone⟩ := hon
  have hwrote : ∀ writeState, Wrote spec enc ctr
      ({ st with writeBuf, inner, writeState } : VmessWriteHalf p σ)
      (pieces ++ [nextPiece ctr pieces buf]) writeBuf :=
    fun _ => ⟨h.cipher, h.tagLen, h.counters, h.fits, hheld⟩
  rcases r with _ | e | ⟨⟩
  · exact .pending _ (.staged rfl (hundone nofun) hcount' (hwrote _))
  · exact .error _ _ (.staged rfl (hundone nofun) hcount' (hwrote _))
  · cases hdone rfl
    have hlen : (nextPiece ctr pieces buf).length ≤ buf.length := by
      rw [nextPiece, List.length_take]
      exact Nat.min_le_right _ _
    have htake : buf.take (nextPiece ctr pieces buf).length = nextPiece ctr pieces buf := by
      rw [nextPiece, List.length_take, ← List.take_eq_take_min]
    refine .count _ _ hlen ?_
    rw [htake, report_of_ne _ (nextPiece_ne_nil hne)]
    exact .idle rfl (hwrote _)

theorem writeChunk_answered (hne : buf ≠ []) (h : Wrote spec enc ctr st pieces []) :
    Answered (Sealing spec enc ctr) pieces buf (st.writeChunk buf) := by
  have ha : ctr.after pieces.length = st.counters := h.counters.symm
  have hlen : min buf.length (0x4000 - BodyAead.tagLen - st.encSize.nextPaddingLen.1.toNat) =
      (nextPiece ctr pieces buf).length := by
    rw [nextPiece, ha, List.length_take, Nat.min_comm]
    rfl
  have htake : buf.take (nextPiece ctr pieces buf).length = nextPiece ctr pieces buf := by
    rw [nextPiece, List.length_take, ← List.take_eq_take_min]
  have hchunk : st.writeChunk buf = { st with
      encSize := st.counters.next.size
      encNonce := st.counters.next.nonce
      writeBuf := st.counters.chunk p enc (nextPiece ctr pieces buf)
      rng := st.counters.next.rng }.writeFlush (nextPiece ctr pieces buf).length
        (st.counters.chunk p enc (nextPiece ctr pieces buf)).length 0 := by
    simp only [writeChunk]
    rw [h.tagLen, hlen, htake, h.cipher]
    rfl
  rw [hchunk]
  refine writeFlush_answered hne ?_ (Nat.zero_add _) ⟨h.cipher, h.tagLen, ?_, ?_, ?_⟩
  · rw [Counters.chunk]
    exact List.append_ne_nil_of_left_ne_nil (List.cons_ne_nil _ _) _
  · rw [List.length_append, List.length_singleton, Counters.after, ha]
    rfl
  · refine h.fits.append (nextPiece_ne_nil hne) ?_
    rw [nextPiece, List.length_take]
    exact Nat.min_le_left _ _
  · rw [Counters.chunks_append, ha]
    exact h.held.restart _

theorem pollWrite_answered (h : Sealing spec enc ctr st out pieces) (hne : buf ≠ [])
    (hagain : ∀ b, out = some b → buf = b) :
    Answered (Sealing spec enc ctr) pieces buf (pollWrite st buf) := by
  simp only [pollWrite]
  cases h with
  | idle hstate h =>
      rw [hstate]
      exact writeChunk_answered hne h
  | staged hstate hbuf hcount h =>
      cases hagain _ rfl
      rw [hstate]
      exact writeFlush_answered hne hbuf hcount h

theorem Wrote.flushed {rest : Bytes} (h : Wrote spec enc ctr st pieces rest) :
    Wrote spec enc ctr (pollFlush st).2 pieces rest :=
  ⟨h.cipher, h.tagLen, h.counters, h.fits, h.held.flushed⟩

theorem pollFlush_sealing (h : Sealing spec enc ctr st out pieces) :
    Sealing spec enc ctr (pollFlush st).2 out pieces := by
  cases h with
  | idle hstate h => exact .idle hstate h.flushed
  | staged hstate hbuf hcount h => exact .staged hstate hbuf hcount h.flushed

/-- A VMess stream over a sink is a sink. -/
def sinkSpec (p : Primitives) (spec : SinkSpec (pollWrite : WriteFn σ UInt8 IoError) pollFlush)
    (enc : BodyAead) (ctr : Counters) :
    SinkSpec (pollWrite : WriteFn (VmessWriteHalf p σ) UInt8 IoError) pollFlush where
  Reports := Sealing spec enc ctr
  write := pollWrite_answered
  flush := pollFlush_sealing

end VmessWriteHalf

end RustClash
