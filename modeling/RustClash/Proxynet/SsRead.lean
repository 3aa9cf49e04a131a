import RustClash.Net.ExactRead
import RustClash.Proxynet.Ss

/-!
# What a Shadowsocks reader delivers

A stream is a salt and chunks; message `i` is sealed with the nonce `i`.  A
`SealedStream` is one that may break off inside a chunk.  `Yields` says where a
reader stands in it: before the chunk `k` its counter is the nonce of the message
that is ahead.
-/

namespace RustClash

/-- What the ciphers seal, they open. -/
def SsPrimitives.Lawful (p : SsPrimitives) : Prop :=
  ∀ (kind : Ss.SsCipher) (key : Bytes), key.length = kind.keyLen → (kind.aead p key).Lawful Ss.tagLen

/-- Primitives to evaluate with, as `Primitives.sums` has them. -/
def SsPrimitives.sums : SsPrimitives :=
  { Primitives.sums with
    aes256Gcm := keyTagged
    hkdfSha1 := fun salt psk info len => ⟨(psk ++ salt ++ info).resize 0 len, List.length_resize _ _ _⟩ }

theorem SsPrimitives.sums_lawful : SsPrimitives.sums.Lawful := by
  intro kind key _
  cases kind with
  | aes128Gcm => exact keyTagged_lawful key
  | aes256Gcm => exact keyTagged_lawful key
  | chaCha20Poly1305 => exact keyTagged_lawful key

namespace Ss

/-! ## Sealed streams -/

/-- The nonce of the `i`-th message. -/
def nonceAt (i : Nat) : Bytes := toLe nonceLen i

/-- The `k`-th chunk. -/
def chunk (c : Aead UInt8) (k : Nat) (piece : Bytes) : Bytes :=
  Ss.seal c (nonceAt (2 * k)) (toBe16 piece.length) ++ Ss.seal c (nonceAt (2 * k + 1)) piece

/-- Chunks from the `k`-th on. -/
def chunks (c : Aead UInt8) : Nat → List Bytes → Bytes
  | _, [] => []
  | k, piece :: pieces => chunk c k piece ++ chunks c (k + 1) pieces

theorem nonceAt_zero : NonceSeq.new = ⟨nonceAt 0⟩ := by
  rw [nonceAt, toLe_zero]
  rfl

theorem next_nonceAt (i : Nat) : NonceSeq.next ⟨nonceAt i⟩ = (nonceAt i, ⟨nonceAt (i + 1)⟩) := by
  rw [NonceSeq.next, nonceAt, increment_toLe]
  rfl

theorem nonceAt_injective {i j : Nat} (hi : i < 2 ^ 96) (hj : j < 2 ^ 96)
    (h : nonceAt i = nonceAt j) : i = j :=
  toLe_injective (by rwa [show 256 ^ nonceLen = 2 ^ 96 by decide])
    (by rwa [show 256 ^ nonceLen = 2 ^ 96 by decide]) h

theorem length_seal {c : Aead UInt8} (hc : c.Lawful tagLen) (nonce buf : Bytes) :
    (Ss.seal c nonce buf).length = buf.length + tagLen := hc.length_encrypt _ _ _

theorem open_seal {c : Aead UInt8} (hc : c.Lawful tagLen) (nonce buf : Bytes) :
    Ss.open c nonce (Ss.seal c nonce buf) = .ok buf := by
  rw [Ss.open, if_neg (by rw [length_seal hc]; omega), Ss.seal, hc.decrypt_encrypt]

theorem chunks_append (c : Aead UInt8) (k : Nat) (pieces : List Bytes) (piece : Bytes) :
    chunks c k (pieces ++ [piece]) = chunks c k pieces ++ chunk c (k + pieces.length) piece := by
  induction pieces generalizing k with
  | nil => simp [chunks]
  | cons piece' pieces ih =>
    rw [List.cons_append, chunks, chunks, ih, List.append_assoc, List.length_cons,
      Nat.add_right_comm, Nat.add_assoc]

/-- Pieces that chunks carry. -/
def Pieces (pieces : List Bytes) : Prop := ∀ piece ∈ pieces, piece ≠ [] ∧ piece.length ≤ maxPayload

/-- The beginning of the `k`-th chunk, and how the reader ends at it. -/
inductive Incomplete (c : Aead UInt8) (k : Nat) : Bytes → End IoError → Prop
| length {part : Bytes} : part.length < 2 + tagLen -> Incomplete c k part .eof
| payload {n : Nat} {part : Bytes} :
  n ≤ maxPayload ->
  part.length < n + tagLen ->
  Incomplete c k (Ss.seal c (nonceAt (2 * k)) (toBe16 n) ++ part)
    (.error ShadowedStream.earlyEof)

/-- A salt, chunks that are not empty, and the beginning of another. -/
structure SealedStream where
  salt : Bytes
  cipher : Aead UInt8
  pieces : List Bytes
  part : Bytes
  ended : End IoError

namespace SealedStream

/-- The bytes from the `k`-th chunk on. -/
def from_ (s : SealedStream) (k : Nat) : Bytes := chunks s.cipher k (s.pieces.drop k) ++ s.part

def bytes (s : SealedStream) : Bytes := s.salt ++ s.from_ 0

structure WF (s : SealedStream) : Prop where
  cipher : s.cipher.Lawful tagLen
  pieces : Pieces s.pieces
  part : Incomplete s.cipher s.pieces.length s.part s.ended

end SealedStream

end Ss

open Ss

namespace ShadowedStream

variable {p : SsPrimitives}

/-- The bytes that are read and not used, and those that are still to come. -/
def ahead (st : ShadowedStream p Transport) : Bytes :=
  st.readBuf.take st.readPos ++ unread st.inner.reads

def stalls (st : ShadowedStream p Transport) : Nat := RustClash.stalls st.inner.reads

/-- A reading of `size` bytes that has begun, or not. -/
structure Awaits (st : ShadowedStream p Transport) (size : Nat) : Prop where
  cursor : st.readPos ≤ st.readBuf.length
  early : st.readPos ≤ size
  readEnd : st.inner.readEnd = .eof

/-- Where a reader stands in the stream `s`, `items` and the end `o` being still to come. -/
inductive Yields (s : SealedStream) : ShadowedStream p Transport → Bytes → End IoError → Prop
| salt {st : ShadowedStream p Transport} :
  st.readState = .salt ->
  st.Awaits st.kind.keyLen ->
  s.salt.length = st.kind.keyLen ->
  s.cipher = st.cipher s.salt ->
  st.decNonce = ⟨nonceAt 0⟩ ->
  st.ahead = s.bytes ->
  Yields s st s.pieces.flatten s.ended
| length {st : ShadowedStream p Transport} {k : Nat} :
  st.readState = .length ->
  st.Awaits (2 + tagLen) ->
  st.dec = some s.cipher ->
  st.decNonce = ⟨nonceAt (2 * k)⟩ ->
  k ≤ s.pieces.length ->
  st.ahead = s.from_ k ->
  Yields s st (s.pieces.drop k).flatten s.ended
| data {st : ShadowedStream p Transport} {k : Nat} {piece : Bytes} {rest : List Bytes} :
  st.readState = .data piece.length ->
  st.Awaits (piece.length + tagLen) ->
  st.dec = some s.cipher ->
  st.decNonce = ⟨nonceAt (2 * k + 1)⟩ ->
  s.pieces.drop k = piece :: rest ->
  st.ahead = Ss.seal s.cipher (nonceAt (2 * k + 1)) piece ++ s.from_ (k + 1) ->
  Yields s st (s.pieces.drop k).flatten s.ended
| short {st : ShadowedStream p Transport} {n : Nat} :
  st.readState = .data n ->
  st.Awaits (n + tagLen) ->
  st.decNonce = ⟨nonceAt (2 * s.pieces.length + 1)⟩ ->
  st.ahead.length < n + tagLen ->
  s.ended = .error earlyEof ->
  Yields s st [] s.ended
| pending {st : ShadowedStream p Transport} {k : Nat} :
  st.readState = .pending st.readBuf.length ->
  st.readBuf ≠ [] ->
  st.readPos = 0 ->
  st.inner.readEnd = .eof ->
  st.dec = some s.cipher ->
  st.decNonce = ⟨nonceAt (2 * k)⟩ ->
  k ≤ s.pieces.length ->
  unread st.inner.reads = s.from_ k ->
  Yields s st (st.readBuf ++ (s.pieces.drop k).flatten) s.ended

/-! ## What a pass leaves -/

variable {st : ShadowedStream p Transport} {s : SealedStream} {items : Bytes} {o : End IoError}
  {cap : Nat}

theorem Awaits.front {size : Nat} (hpos : st.readPos = 0) (hend : st.inner.readEnd = .eof) :
    st.Awaits size :=
  ⟨hpos ▸ Nat.zero_le _, hpos ▸ Nat.zero_le _, hend⟩

theorem ahead_front (hpos : st.readPos = 0) : st.ahead = unread st.inner.reads := by
  simp [ahead, hpos]

/-- What a reading that has begun leaves. -/
theorem Awaits.reads {size : Nat} (h : st.Awaits size) :
    Transport.Exactly earlyEof st.ahead st.readPos size st.inner
      (readExact pollRead earlyEof 0 size st.readBuf st.readPos st.inner) :=
  Transport.readExact_exactly earlyEof h.cursor h.early rfl

/-- An interrupted reading goes on. -/
theorem Awaits.interrupted {size : Nat} {readBuf : Bytes} {readPos : Nat} {inner : Transport}
    (h : st.Awaits size)
    (hi : Transport.Interrupted st.ahead st.readPos size st.inner readBuf readPos inner) :
    ({ st with readBuf, readPos, inner } : ShadowedStream p Transport).Awaits size :=
  ⟨hi.cursor, Nat.le_of_lt hi.early, hi.readEnd.trans h.readEnd⟩

/-- A sealed message in the buffer is opened. -/
theorem openNext_seal {c : Aead UInt8} (hc : c.Lawful tagLen) (i : Nat) (plain : Bytes)
    {next : ShadowedStream p Transport → Pass p Transport cap} (hdec : st.dec = some c)
    (hnonce : st.decNonce = ⟨nonceAt i⟩) (hbuf : st.readBuf = Ss.seal c (nonceAt i) plain) :
    st.openNext next = next { st with
      decNonce := ⟨nonceAt (i + 1)⟩
      readBuf := plain } := by
  simp only [openNext]
  rw [hnonce, next_nonceAt, hdec, hbuf]
  simp only [open_seal hc]

end ShadowedStream

namespace Ss

theorem length_chunk {c : Aead UInt8} (hc : c.Lawful tagLen) (k : Nat) (piece : Bytes) :
    (chunk c k piece).length = 2 + tagLen + (piece.length + tagLen) := by
  rw [chunk, List.length_append, length_seal hc, length_seal hc, length_toBe16]

theorem SealedStream.from_cons {s : SealedStream} {k : Nat} {piece : Bytes} {rest : List Bytes}
    (h : s.pieces.drop k = piece :: rest) : s.from_ k = chunk s.cipher k piece ++ s.from_ (k + 1) := by
  have hrest : s.pieces.drop (k + 1) = rest := by
    rw [← List.drop_drop, h]
    rfl
  rw [SealedStream.from_, SealedStream.from_, h, hrest, chunks, List.append_assoc]

theorem SealedStream.from_length (s : SealedStream) : s.from_ s.pieces.length = s.part := by
  rw [SealedStream.from_, List.drop_length]
  rfl

/-- The reader is in front of a chunk, or at the part behind the last one. -/
theorem SealedStream.ahead_cases {s : SealedStream} {k : Nat} (hk : k ≤ s.pieces.length) :
    (∃ piece rest, s.pieces.drop k = piece :: rest) ∨ k = s.pieces.length := by
  rcases hdrop : s.pieces.drop k with _ | ⟨piece, rest⟩
  · exact .inr (Nat.le_antisymm hk (List.drop_eq_nil_iff.mp hdrop))
  · exact .inl ⟨piece, rest, rfl⟩

end Ss

namespace ShadowedStream

variable {p : SsPrimitives} {st : ShadowedStream p Transport} {s : SealedStream} {items : Bytes}
  {o : End IoError} {cap : Nat}

theorem passSalt_leaves (hstate : st.readState = .salt)
    (hawaits : st.Awaits st.kind.keyLen) (hsalt : s.salt.length = st.kind.keyLen)
    (hcipher : s.cipher = st.cipher s.salt) (hnonce : st.decNonce = ⟨nonceAt 0⟩)
    (hahead : st.ahead = s.bytes) :
    PassLeaves (Yields s) stalls st s.pieces.flatten s.ended (st.passSalt cap) := by
  have h := hawaits.reads
  simp only [passSalt, pollReadExact]
  generalize readExact pollRead earlyEof 0 st.kind.keyLen st.readBuf st.readPos st.inner = r at h ⊢
  cases h with
  | pending hi =>
      exact ⟨.salt hstate (hawaits.interrupted hi) hsalt hcipher hnonce (hi.kept.trans hahead),
        hi.stalls⟩
  | short hlen _ _ =>
      rw [hahead, SealedStream.bytes, List.length_append] at hlen
      omega
  | done hc =>
      have htake : st.ahead.take st.kind.keyLen = s.salt := by
        rw [hahead, SealedStream.bytes, ← hsalt, List.take_left]
      have hdrop : st.ahead.drop st.kind.keyLen = s.from_ 0 := by
        rw [hahead, SealedStream.bytes, ← hsalt, List.drop_left]
      refine ⟨.length (k := 0) rfl (.front rfl (hc.readEnd.trans hawaits.readEnd)) ?_ hnonce
        (Nat.zero_le _) ?_, hc.stalls⟩
      · dsimp only
        rw [htake, hcipher]
        rfl
      · rw [ahead_front rfl, ← hdrop]
        exact hc.rest

theorem passLength_leaves {k : Nat} (hs : s.WF) (hstate : st.readState = .length)
    (hawaits : st.Awaits (2 + tagLen)) (hdec : st.dec = some s.cipher)
    (hnonce : st.decNonce = ⟨nonceAt (2 * k)⟩) (hk : k ≤ s.pieces.length)
    (hahead : st.ahead = s.from_ k) :
    PassLeaves (Yields s) stalls st (s.pieces.drop k).flatten s.ended (st.passLength cap) := by
  have h := hawaits.reads
  simp only [passLength, pollReadExact]
  generalize readExact pollRead earlyEof 0 (2 + tagLen) st.readBuf st.readPos st.inner = r at h ⊢
  cases h with
  | pending hi =>
      exact ⟨.length hstate (hawaits.interrupted hi) hdec hnonce hk (hi.kept.trans hahead),
        hi.stalls⟩
  | @short _ _ _ e hlen hend _ =>
      rw [hawaits.readEnd] at hend
      cases hend
      rcases s.ahead_cases hk with ⟨piece, rest, hdrop⟩ | rfl
      · rw [hahead, s.from_cons hdrop, List.length_append, length_chunk hs.cipher] at hlen
        omega
      · rw [hahead, s.from_length] at hlen
        have hpart := hs.part
        rw [List.drop_length]
        generalize s.part = part at hlen hpart
        generalize s.ended = ended at hpart ⊢
        cases hpart with
        | length _ =>
            dsimp only
            rw [if_pos (show earlyEof.kind = .unexpectedEof from rfl)]
            exact passLeaves_empty _ _
        | payload _ _ =>
            rw [List.length_append, length_seal hs.cipher, length_toBe16] at hlen
            omega
  | done hc =>
      have henough := hc.enough
      have hrest := hc.rest
      have hend := hc.readEnd.trans hawaits.readEnd
      dsimp only
      rcases s.ahead_cases hk with ⟨piece, rest, hdrop⟩ | rfl
      · have hpiece := hs.pieces piece (List.mem_of_mem_drop (hdrop ▸ List.mem_cons_self))
        have hfrom := s.from_cons hdrop
        rw [chunk, List.append_assoc, ← hahead] at hfrom
        have hlen : (Ss.seal s.cipher (nonceAt (2 * k)) (toBe16 piece.length)).length = 2 + tagLen :=
          length_seal hs.cipher _ _
        rw [hfrom, List.drop_left' hlen] at hrest
        rw [openNext_seal hs.cipher (2 * k) (toBe16 piece.length)]
        · dsimp only
          rw [ofBe16_getD_toBe16 (Nat.lt_of_le_of_lt hpiece.2 (by decide))]
          exact ⟨.data rfl (.front rfl hend) hdec rfl hdrop ((ahead_front rfl).trans hrest),
            hc.stalls⟩
        · exact hdec
        · exact hnonce
        · exact hfrom ▸ List.take_left' hlen
      · have hpart := hs.part
        rw [s.from_length] at hahead
        rw [hahead] at henough hrest
        rw [List.drop_length]
        generalize hover : s.ended = ended at hpart ⊢
        generalize s.part = part at hahead henough hrest hpart
        cases hpart with
        | length hlen => omega
        | @payload n rest hn hrest' =>
            have hlen : (Ss.seal s.cipher (nonceAt (2 * s.pieces.length)) (toBe16 n)).length =
                2 + tagLen := length_seal hs.cipher _ _
            rw [List.drop_left' hlen] at hrest
            rw [openNext_seal hs.cipher (2 * s.pieces.length) (toBe16 n)]
            · dsimp only
              rw [ofBe16_getD_toBe16 (Nat.lt_of_le_of_lt hn (by decide)), ← hover]
              refine ⟨.short rfl (.front rfl hend) rfl ?_ hover, hc.stalls⟩
              rw [ahead_front rfl, hrest]
              exact hrest'
            · exact hdec
            · exact hnonce
            · exact hahead ▸ List.take_left' hlen

theorem passData_leaves {k : Nat} {piece : Bytes} {rest : List Bytes} (hs : s.WF)
    (hstate : st.readState = .data piece.length) (hawaits : st.Awaits (piece.length + tagLen))
    (hdec : st.dec = some s.cipher) (hnonce : st.decNonce = ⟨nonceAt (2 * k + 1)⟩)
    (hdrop : s.pieces.drop k = piece :: rest)
    (hahead : st.ahead = Ss.seal s.cipher (nonceAt (2 * k + 1)) piece ++ s.from_ (k + 1)) :
    PassLeaves (Yields s) stalls st (s.pieces.drop k).flatten s.ended
      (st.passData cap piece.length) := by
  have h := hawaits.reads
  have hlen : (Ss.seal s.cipher (nonceAt (2 * k + 1)) piece).length = piece.length + tagLen :=
    length_seal hs.cipher _ _
  simp only [passData, pollReadExact]
  generalize readExact pollRead earlyEof 0 (piece.length + tagLen) st.readBuf st.readPos st.inner =
    r at h ⊢
  cases h with
  | pending hi =>
      exact ⟨.data hstate (hawaits.interrupted hi) hdec hnonce hdrop (hi.kept.trans hahead),
        hi.stalls⟩
  | short hshort _ _ =>
      rw [hahead, List.length_append] at hshort
      omega
  | done hc =>
      have hrest := hc.rest
      rw [hahead, List.drop_left' hlen] at hrest
      have hpiece := hs.pieces piece (List.mem_of_mem_drop (hdrop ▸ List.mem_cons_self))
      have hitems : (s.pieces.drop k).flatten = piece ++ (s.pieces.drop (k + 1)).flatten := by
        rw [hdrop, ← List.drop_drop, hdrop]
        rfl
      have hk : k + 1 ≤ s.pieces.length := by
        have := congrArg List.length hdrop
        rw [List.length_drop, List.length_cons] at this
        omega
      dsimp only
      rw [openNext_seal hs.cipher (2 * k + 1) piece, hitems]
      · exact ⟨.pending rfl hpiece.1 rfl (hc.readEnd.trans hawaits.readEnd) hdec rfl hk hrest,
          hc.stalls⟩
      · exact hdec
      · exact hnonce
      · exact hahead ▸ List.take_left' hlen

theorem passShort_leaves {n : Nat} (hstate : st.readState = .data n)
    (hawaits : st.Awaits (n + tagLen))
    (hnonce : st.decNonce = ⟨nonceAt (2 * s.pieces.length + 1)⟩)
    (hshort : st.ahead.length < n + tagLen) (hover : s.ended = .error earlyEof) :
    PassLeaves (Yields s) stalls st [] s.ended (st.passData cap n) := by
  have h := hawaits.reads
  simp only [passData, pollReadExact]
  generalize readExact pollRead earlyEof 0 (n + tagLen) st.readBuf st.readPos st.inner = r at h ⊢
  cases h with
  | pending hi =>
      refine ⟨.short hstate (hawaits.interrupted hi) hnonce ?_ hover, hi.stalls⟩
      exact Nat.lt_of_le_of_lt (Nat.le_of_eq (congrArg List.length hi.kept)) hshort
  | short _ hend _ =>
      rw [hawaits.readEnd] at hend
      cases hend
      exact ⟨rfl, hover⟩
  | done hc => exact absurd hc.enough (Nat.not_le_of_lt hshort)

theorem passPending_leaves {k : Nat} (hbuf : st.readBuf ≠ []) (hpos : st.readPos = 0)
    (hend : st.inner.readEnd = .eof) (hdec : st.dec = some s.cipher)
    (hnonce : st.decNonce = ⟨nonceAt (2 * k)⟩) (hk : k ≤ s.pieces.length)
    (hahead : unread st.inner.reads = s.from_ k) (hcap : 0 < cap) :
    PassLeaves (Yields s) stalls st (st.readBuf ++ (s.pieces.drop k).flatten) s.ended
      (st.passPending cap st.readBuf.length) := by
  simp only [passPending]
  rw [List.take_length]
  refine leaves_fill hbuf hcap ?_ (Nat.le_refl _)
  by_cases hlt : cap < st.readBuf.length
  · rw [Nat.min_eq_left (Nat.le_of_lt hlt), if_pos hlt, ← List.length_drop]
    exact .pending rfl (by simpa using hlt) hpos hend hdec hnonce hk hahead
  · have hle := Nat.not_lt.mp hlt
    rw [Nat.min_eq_right hle, if_neg (Nat.lt_irrefl _), List.drop_of_length_le hle,
      List.nil_append]
    refine .length rfl (.front hpos hend) hdec hnonce hk ?_
    rw [ahead_front]
    · exact hahead
    · exact hpos

theorem pass_leaves (hs : s.WF) (hy : Yields s st items o) (hcap : 0 < cap) :
    PassLeaves (Yields s) stalls st items o (st.pass cap) := by
  simp only [pass]
  cases hy with
  | salt hstate hawaits hsalt hcipher hnonce hahead =>
      rw [hstate]
      exact passSalt_leaves hstate hawaits hsalt hcipher hnonce hahead
  | length hstate hawaits hdec hnonce hk hahead =>
      rw [hstate]
      exact passLength_leaves hs hstate hawaits hdec hnonce hk hahead
  | data hstate hawaits hdec hnonce hdrop hahead =>
      rw [hstate]
      exact passData_leaves hs hstate hawaits hdec hnonce hdrop hahead
  | short hstate hawaits hnonce hshort hover =>
      rw [hstate]
      exact passShort_leaves hstate hawaits hnonce hshort hover
  | pending hstate hbuf hpos hend hdec hnonce hk hahead =>
      rw [hstate]
      exact passPending_leaves hbuf hpos hend hdec hnonce hk hahead hcap

/-- What a reader yields of a sealed stream. -/
def readSpec (s : SealedStream) (hs : s.WF) :
    ReadSpec (pollRead : ReadFn (ShadowedStream p Transport) UInt8 IoError) :=
  .ofLoop (readLoop p Transport) (Yields s) stalls (pass_leaves hs)

/-- The end that a reader answers with is the end of the transport, and every message
has been opened. -/
structure AtEnd (s : SealedStream) (st : ShadowedStream p Transport) : Prop where
  reads : st.inner.reads = []
  decNonce : st.decNonce = ⟨nonceAt (2 * s.pieces.length)⟩

/-- Opening a message answers with nothing but an error. -/
theorem openNext_ok {st st' : ShadowedStream p Transport} {d : Filled UInt8 cap}
    {next : ShadowedStream p Transport → Pass p Transport cap}
    (h : st.openNext next = .inr (.ready (.ok d), st')) :
    ∃ st'', next st'' = .inr (.ready (.ok d), st') := by
  simp only [openNext] at h
  split at h
  · cases h
  · split at h
    · cases h
    · exact ⟨_, h⟩

theorem passData_ok {n : Nat} {st st' : ShadowedStream p Transport} {d : Filled UInt8 cap} :
    st.passData cap n ≠ .inr (.ready (.ok d), st') := by
  intro h
  simp only [passData] at h
  split at h
  · cases h
  · cases h
  · obtain ⟨_, h⟩ := openNext_ok h
    cases h

theorem pass_end {st' : ShadowedStream p Transport} {d : Filled UInt8 cap} (hs : s.WF)
    (hy : Yields s st items o) (hcap : 0 < cap) (hr : st.pass cap = .inr (.ready (.ok d), st'))
    (hd : d.items = []) : AtEnd s st' := by
  simp only [pass] at hr
  cases hy with
  | salt hstate =>
      rw [hstate] at hr
      simp only [passSalt] at hr
      split at hr
      · cases hr
      · cases hr
      · cases hr
  | @length k hstate hawaits hdec hnonce hk hahead =>
      have h := hawaits.reads
      rw [hstate] at hr
      simp only [passLength, pollReadExact] at hr
      generalize readExact pollRead earlyEof 0 (2 + tagLen) st.readBuf st.readPos st.inner = r at h hr
      cases h with
      | pending _ => cases hr
      | short hlen _ hreads =>
          dsimp only at hr
          split at hr
          · cases hr
            rcases s.ahead_cases hk with ⟨piece, rest, hdrop⟩ | rfl
            · rw [hahead, s.from_cons hdrop, List.length_append, length_chunk hs.cipher] at hlen
              omega
            · exact ⟨hreads, hnonce⟩
          · cases hr
      | done hc =>
          obtain ⟨_, h⟩ := openNext_ok hr
          cases h
  | data hstate =>
      rw [hstate] at hr
      exact absurd hr passData_ok
  | short hstate =>
      rw [hstate] at hr
      exact absurd hr passData_ok
  | pending hstate hbuf =>
      rw [hstate] at hr
      cases hr
      rw [Filled.fill_items, List.take_length, List.take_eq_nil_iff] at hd
      rcases hd with rfl | hd
      · cases hcap
      · exact absurd hd hbuf

/-! ## A reader that begins -/

variable {kind : SsCipher} {password : String} {rng : Nat → UInt8} {reads : List ReadEvent}
  {caps : List Nat}

theorem awaits_withCipher (size : Nat) :
    (withCipher p (Transport.serving reads .eof) kind password rng).Awaits size := .front rfl rfl

/-- The cipher of a direction, from what its two ends know. -/
def keyed (p : SsPrimitives) (kind : SsCipher) (password : String) (salt : Bytes) : Aead UInt8 :=
  (withCipher p () kind password fun _ => 0).cipher salt

theorem keyed_lawful (hp : p.Lawful) (kind : SsCipher) (password : String) (salt : Bytes) :
    (keyed p kind password salt).Lawful tagLen :=
  hp kind _ (p.hkdfSha1 salt _ _ _).size

theorem yields_withCipher (hsalt : s.salt.length = kind.keyLen)
    (hcipher : s.cipher = keyed p kind password s.salt) (hbytes : unread reads = s.bytes) :
    Yields s (withCipher p (Transport.serving reads .eof) kind password rng) s.pieces.flatten
      s.ended :=
  .salt rfl (awaits_withCipher _) hsalt hcipher nonceAt_zero hbytes

theorem delivers (hs : s.WF) (hsalt : s.salt.length = kind.keyLen)
    (hcipher : s.cipher = keyed p kind password s.salt) (hbytes : unread reads = s.bytes) :
    Delivers pollRead (withCipher p (Transport.serving reads .eof) kind password rng)
      s.pieces.flatten s.ended :=
  (readSpec s hs).delivers (yields_withCipher hsalt hcipher hbytes)

theorem atEnd (hs : s.WF) (hsalt : s.salt.length = kind.keyLen)
    (hcipher : s.cipher = keyed p kind password s.salt) (hbytes : unread reads = s.bytes)
    (hcaps : NonEmptyBuffers caps)
    (hend : (readAll pollRead caps
      (withCipher p (Transport.serving reads .eof) kind password rng)).ended = some .eof) :
    AtEnd s (readAll pollRead caps
      (withCipher p (Transport.serving reads .eof) kind password rng)).state :=
  (readSpec s hs).readAll_end
    (fun hy hcap hr hd => ReadSpec.ofLoop_end (pass_leaves hs) (pass_end hs) hy hcap hr hd)
    (yields_withCipher hsalt hcipher hbytes) hcaps hend

/-- There are fewer bytes than a salt has. -/
structure Saltless (st : ShadowedStream p Transport) : Prop where
  state : st.readState = .salt
  awaits : st.Awaits st.kind.keyLen
  short : st.ahead.length < st.kind.keyLen

/-- What a reader yields of too few bytes for a salt. -/
def saltlessSpec (p : SsPrimitives) :
    ReadSpec (pollRead : ReadFn (ShadowedStream p Transport) UInt8 IoError) :=
  .ofLoop (readLoop p Transport)
    (fun st items o => st.Saltless ∧ items = [] ∧ o = .error earlyEof) stalls (by
      rintro st items o cap ⟨h, rfl, rfl⟩ hcap
      have hexact := h.awaits.reads
      simp only [readLoop, pass]
      rw [h.state]
      simp only [passSalt, pollReadExact]
      generalize readExact pollRead earlyEof 0 st.kind.keyLen st.readBuf st.readPos st.inner = r
        at hexact ⊢
      cases hexact with
      | pending hi =>
          refine ⟨⟨⟨h.state, h.awaits.interrupted hi, ?_⟩, rfl, rfl⟩, hi.stalls⟩
          exact Nat.lt_of_le_of_lt (Nat.le_of_eq (congrArg List.length hi.kept)) h.short
      | short _ hend _ =>
          rw [h.awaits.readEnd] at hend
          cases hend
          exact ⟨rfl, rfl⟩
      | done hc => exact absurd hc.enough (Nat.not_le_of_lt h.short))

theorem delivers_saltless (h : (unread reads).length < kind.keyLen) :
    Delivers pollRead (withCipher p (Transport.serving reads .eof) kind password rng) []
      (.error earlyEof) :=
  (saltlessSpec p).delivers ⟨⟨rfl, awaits_withCipher _, h⟩, rfl, rfl⟩

end ShadowedStream

end RustClash
