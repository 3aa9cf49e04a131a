import RustClash.Proxynet.SsRead

/-!
# How a Shadowsocks reader ends

A stream may be cut anywhere.  `EndsHonestly` asks a reader to come to an end at the
boundary of a chunk and to fail elsewhere.  It fails to do so in two places: a length
that is cut is taken for the end, and so is a chunk without content.
-/

namespace RustClash

namespace Ss

/-! ## Cutting a stream -/

def chunkLen (piece : Bytes) : Nat := 2 + tagLen + (piece.length + tagLen)

/-- The pieces whose chunks are within the first `n` bytes, and how far these go into the
chunk after them. -/
def cutAt : List Bytes → Nat → List Bytes × Nat
  | [], _ => ([], 0)
  | piece :: pieces, n =>
      if n < chunkLen piece then ([], n)
      else
        let (whole, position) := cutAt pieces (n - chunkLen piece)
        (piece :: whole, position)

/-- The bytes of a stream from its salt on. -/
def stream (p : SsPrimitives) (kind : SsCipher) (password : String) (salt : Bytes)
    (pieces : List Bytes) : Bytes :=
  salt ++ chunks (ShadowedStream.keyed p kind password salt) 0 pieces

/-- What is behind the last whole chunk: nothing, or the beginning of a chunk. -/
inductive Begun (c : Aead UInt8) (k : Nat) (pieces : List Bytes) : Bytes → Nat → Prop
| nothing : Begun c k pieces [] 0
| chunk {piece : Bytes} {n : Nat} :
  piece ∈ pieces ->
  n < chunkLen piece ->
  Begun c k pieces ((Ss.chunk c k piece).take n) n

theorem Begun.mono {c : Aead UInt8} {k n : Nat} {pieces : List Bytes} {part : Bytes}
    (piece : Bytes) (h : Begun c k pieces part n) : Begun c k (piece :: pieces) part n := by
  cases h with
  | nothing => exact .nothing
  | chunk hmem hlt => exact .chunk (List.mem_cons_of_mem _ hmem) hlt

theorem cutAt_of_lt {piece : Bytes} {pieces : List Bytes} {n : Nat} (h : n < chunkLen piece) :
    cutAt (piece :: pieces) n = ([], n) := by
  rw [cutAt, if_pos h]

theorem cutAt_of_le {piece : Bytes} {pieces : List Bytes} {n : Nat} (h : chunkLen piece ≤ n) :
    cutAt (piece :: pieces) n = (piece :: (cutAt pieces (n - chunkLen piece)).1,
      (cutAt pieces (n - chunkLen piece)).2) := by
  rw [cutAt, if_neg (Nat.not_lt.mpr h)]

theorem cutAt_zero (pieces : List Bytes) : cutAt pieces 0 = ([], 0) := by
  cases pieces with
  | nil => rfl
  | cons piece pieces => exact cutAt_of_lt (by rw [chunkLen]; omega)

theorem mem_of_mem_cutAt {piece : Bytes} {pieces : List Bytes} {n : Nat}
    (h : piece ∈ (cutAt pieces n).1) : piece ∈ pieces := by
  induction pieces generalizing n with
  | nil => exact h
  | cons piece' pieces ih =>
    rcases Nat.lt_or_ge n (chunkLen piece') with hlt | hge
    · rw [cutAt_of_lt hlt] at h
      cases h
    · rw [cutAt_of_le hge] at h
      rcases List.mem_cons.mp h with rfl | h
      · exact List.mem_cons_self
      · exact List.mem_cons_of_mem _ (ih h)

/-- A cut leaves whole chunks and the beginning of one. -/
theorem take_chunks {c : Aead UInt8} (hc : c.Lawful tagLen) (k n : Nat) (pieces : List Bytes) :
    ∃ part, (chunks c k pieces).take n = chunks c k (cutAt pieces n).1 ++ part ∧
      Begun c (k + (cutAt pieces n).1.length) pieces part (cutAt pieces n).2 := by
  induction pieces generalizing k n with
  | nil => exact ⟨[], List.take_nil, .nothing⟩
  | cons piece pieces ih =>
    have hlen : (chunk c k piece).length = chunkLen piece := length_chunk hc k piece
    rw [chunks]
    rcases Nat.lt_or_ge n (chunkLen piece) with hlt | hge
    · rw [cutAt_of_lt hlt]
      refine ⟨(chunk c k piece).take n, ?_, .chunk List.mem_cons_self hlt⟩
      exact List.take_append_of_le_length (by omega)
    · obtain ⟨part, htake, hbegun⟩ := ih (k + 1) (n - chunkLen piece)
      rw [cutAt_of_le hge]
      refine ⟨part, ?_, ?_⟩
      · rw [List.take_append, hlen, List.take_of_length_le (by omega), htake, chunks,
          List.append_assoc]
      · rw [List.length_cons, ← Nat.add_assoc, Nat.add_right_comm]
        exact hbegun.mono piece

/-- The end that a reader makes of the beginning of a chunk. -/
def endAt (position : Nat) : End IoError :=
  if position < 2 + tagLen then .eof else .error ShadowedStream.earlyEof

theorem Begun.incomplete {c : Aead UInt8} {k n : Nat} {pieces : List Bytes} {part : Bytes}
    (hc : c.Lawful tagLen) (hpieces : ∀ piece ∈ pieces, piece.length ≤ maxPayload)
    (h : Begun c k pieces part n) : Incomplete c k part (endAt n) := by
  cases h with
  | nothing => exact .length (by decide)
  | @chunk piece _ hmem hlt =>
      have hlen := length_seal hc (nonceAt (2 * k)) (toBe16 piece.length)
      rw [length_toBe16] at hlen
      rw [chunkLen] at hlt
      rw [endAt]
      split
      · next hshort =>
          refine .length ?_
          rw [List.length_take]
          omega
      · next hlong =>
          rw [Ss.chunk, List.take_append, hlen, List.take_of_length_le (by omega)]
          refine .payload (hpieces piece hmem) ?_
          rw [List.length_take]
          omega

end Ss

open Ss

namespace ShadowedStream

variable {p : SsPrimitives}

/-! ## An empty chunk

The bytes are at hand all at once and the transport then answers `pending`: it has not
ended.  `At c k bs st` is a reader in front of the chunk `k` of the bytes `bs`. -/

structure At (c : Aead UInt8) (k : Nat) (bs : Bytes) (st : ShadowedStream p Transport) : Prop where
  state : st.readState = .length
  front : st.readPos = 0
  dec : st.dec = some c
  decNonce : st.decNonce = ⟨nonceAt (2 * k)⟩
  reads : st.inner.reads = arrive bs [.pending]

variable {c : Aead UInt8} {k : Nat} {bs rest : Bytes} {st : ShadowedStream p Transport}

/-- Bytes that are at hand are read at once. -/
theorem readExact_at_hand {size : Nat} (hlen : bs.length = size) (buf : Bytes) {t : Transport}
    (hreads : t.reads = arrive (bs ++ rest) [.pending]) :
    ∃ inner : Transport, inner.reads = arrive rest [.pending] ∧
      readExact pollRead earlyEof 0 size buf 0 t = (.ready (.ok ()), bs, 0, inner) := by
  have hle : size ≤ (bs ++ rest).length := by
    rw [List.length_append, hlen]
    exact Nat.le_add_right _ _
  have hbytes : buf.take 0 ++ unread t.reads = bs ++ rest := by
    rw [hreads, unread_arrive, List.take_zero, List.nil_append]
    exact List.append_nil _
  have hskip : skip size t.reads = arrive rest [.pending] := by
    rw [hreads, skip_arrive]
    split
    · rw [List.drop_left' hlen]
    · next hge =>
        have hrest : rest = [] := by
          rw [List.length_append] at hge
          exact List.eq_nil_of_length_eq_zero (by omega)
        rw [Nat.sub_eq_zero_of_le hle, skip_zero, hrest]
        rfl
  have h := Transport.readExact_exactly earlyEof (Nat.zero_le _) (Nat.zero_le size) hbytes
  generalize readExact pollRead earlyEof 0 size buf 0 t = r at h ⊢
  cases h with
  | pending hi =>
      have hstalled := hi.stalled
      rw [hreads, calm_arrive, Nat.sub_zero, Nat.sub_eq_zero_of_le hle, calm_zero] at hstalled
      cases hstalled
  | short hshort => omega
  | done hc =>
      refine ⟨_, hc.ahead.trans hskip, ?_⟩
      rw [List.take_left' hlen]

theorem pollRead_inl {cap : Nat} {st' : ShadowedStream p Transport}
    (h : st.pass cap = .inl st') : pollRead st cap = pollRead st' cap :=
  Loop.run_inl (l := readLoop p Transport cap) h

theorem pollRead_inr {cap : Nat} {r : Answer UInt8 IoError cap × ShadowedStream p Transport}
    (h : st.pass cap = .inr r) : pollRead st cap = r :=
  Loop.run_inr (l := readLoop p Transport cap) h

theorem At.pass_length {piece : Bytes} (hc : c.Lawful tagLen) (hpiece : piece.length ≤ maxPayload)
    (h : At c k (chunk c k piece ++ rest) st) (cap : Nat) :
    ∃ inner : Transport,
      inner.reads = arrive (Ss.seal c (nonceAt (2 * k + 1)) piece ++ rest) [.pending] ∧
      st.pass cap = .inl { st with
        inner
        decNonce := ⟨nonceAt (2 * k + 1)⟩
        readBuf := toBe16 piece.length
        readState := .data piece.length
        readPos := 0 } := by
  have hlen : (Ss.seal c (nonceAt (2 * k)) (toBe16 piece.length)).length = 2 + tagLen :=
    length_seal hc _ _
  have hreads := h.reads
  rw [chunk, List.append_assoc] at hreads
  obtain ⟨inner, hinner, hread⟩ := readExact_at_hand hlen st.readBuf hreads
  refine ⟨inner, hinner, ?_⟩
  rw [pass, h.state]
  simp only [passLength, pollReadExact]
  rw [h.front, hread]
  dsimp only
  rw [openNext_seal hc (2 * k) (toBe16 piece.length)]
  · dsimp only
    rw [ofBe16_getD_toBe16 (Nat.lt_of_le_of_lt hpiece (by decide))]
  · exact h.dec
  · exact h.decNonce
  · rfl

/-- A chunk that is at hand is delivered whole, and an empty one delivers nothing. -/
theorem At.poll {piece : Bytes} (hc : c.Lawful tagLen) (hpiece : piece.length ≤ maxPayload)
    (h : At c k (chunk c k piece ++ rest) st) :
    ∃ st' : ShadowedStream p Transport, At c (k + 1) rest st' ∧
      pollRead st maxPayload = (.ready (.ok (.fill maxPayload piece)), st') := by
  have hlen : (Ss.seal c (nonceAt (2 * k + 1)) piece).length = piece.length + tagLen :=
    length_seal hc _ _
  obtain ⟨inner, hinner, hlength⟩ := h.pass_length hc hpiece maxPayload
  obtain ⟨inner', hinner', hread⟩ := readExact_at_hand hlen (toBe16 piece.length) hinner
  refine ⟨{ st with
    inner := inner'
    decNonce := ⟨nonceAt (2 * (k + 1))⟩
    readBuf := piece.drop (min maxPayload piece.length)
    readState := .length
    readPos := 0 }, ⟨rfl, rfl, h.dec, rfl, hinner'⟩, ?_⟩
  have hdata : ({ st with
      inner
      decNonce := ⟨nonceAt (2 * k + 1)⟩
      readBuf := toBe16 piece.length
      readState := .data piece.length
      readPos := 0 } : ShadowedStream p Transport).pass maxPayload = .inl { st with
        inner := inner'
        decNonce := ⟨nonceAt (2 * (k + 1))⟩
        readBuf := piece
        readState := .pending piece.length
        readPos := 0 } := by
    rw [pass]
    simp only [passData, pollReadExact]
    rw [hread]
    dsimp only
    rw [openNext_seal hc (2 * k + 1) piece]
    · rfl
    · exact h.dec
    · rfl
    · rfl
  rw [pollRead_inl hlength, pollRead_inl hdata]
  refine pollRead_inr ?_
  rw [pass]
  simp only [passPending]
  rw [Nat.min_eq_right hpiece, if_neg (Nat.lt_irrefl _), List.take_length]

/-- An empty chunk ends the reading, and the transport has not ended. -/
theorem At.ends {pieces : List Bytes} (hc : c.Lawful tagLen)
    (hpieces : ∀ piece ∈ pieces, piece.length ≤ maxPayload) (hempty : [] ∈ pieces)
    (h : At c k (chunks c k pieces ++ rest) st) :
    ∃ caps, NonEmptyBuffers caps ∧ (readAll pollRead caps st).ended = some .eof ∧
      (readAll pollRead caps st).state.inner.reads ≠ [] := by
  induction pieces generalizing k st with
  | nil => cases hempty
  | cons piece pieces ih =>
    obtain ⟨hpiece, hrest⟩ := List.forall_mem_cons.mp hpieces
    rw [chunks, List.append_assoc] at h
    obtain ⟨st', h', hpoll⟩ := h.poll hc hpiece
    cases piece with
    | nil =>
      refine ⟨[maxPayload], by simp [NonEmptyBuffers, maxPayload], ?_⟩
      rw [readAll_eof hpoll List.take_nil]
      refine ⟨rfl, ?_⟩
      show st'.inner.reads ≠ []
      rw [h'.reads]
      cases chunks c (k + 1) pieces ++ rest <;> exact List.cons_ne_nil _ _
    | cons b piece =>
      obtain ⟨caps, hcaps, hended, hreads⟩ :=
        ih hrest ((List.mem_cons.mp hempty).resolve_left (List.cons_ne_nil b piece).symm) h'
      refine ⟨maxPayload :: caps, List.forall_mem_cons.mpr ⟨by decide, hcaps⟩, ?_⟩
      rw [readAll_data hpoll (List.cons_ne_nil _ _)]
      exact ⟨hended, hreads⟩

variable {kind : SsCipher} {password : String} {rng : Nat → UInt8} {salt : Bytes}
  {pieces : List Bytes} {m n : Nat}

/-- A salt that is at hand is read. -/
theorem poll_salt_at_hand (p : SsPrimitives) (password : String) (rng : Nat → UInt8) (bs : Bytes)
    (hsalt : salt.length = kind.keyLen) :
    ∃ st : ShadowedStream p Transport, At (keyed p kind password salt) 0 bs st ∧
      ∀ cap, pollRead (withCipher p (Transport.serving (arrive (salt ++ bs) [.pending]) .eof) kind
        password rng) cap = pollRead st cap := by
  have hreads : (Transport.serving (arrive (salt ++ bs) [.pending]) .eof).reads =
      arrive (salt ++ bs) [.pending] := rfl
  obtain ⟨inner, hinner, hread⟩ := readExact_at_hand hsalt [] hreads
  refine ⟨{ withCipher p inner kind password rng with
    dec := some (keyed p kind password salt)
    readState := .length }, ⟨rfl, rfl, rfl, nonceAt_zero, hinner⟩, ?_⟩
  intro cap
  refine pollRead_inl ?_
  show passSalt _ cap = _
  simp only [passSalt, pollReadExact, withCipher]
  rw [hread]
  rfl

/-! ## The ends of cut streams -/

/-- However the first `m` bytes of a stream come in: at the boundary of a chunk the reader
comes to an end, which is the end of the transport; elsewhere it fails.  In both cases it has
delivered the chunks that are whole. -/
def EndsHonestly (p : SsPrimitives) (kind : SsCipher) (password : String) (salt : Bytes)
    (pieces : List Bytes) (m : Nat) : Prop :=
  ∀ rng reads, unread reads = (stream p kind password salt pieces).take m →
    let st := withCipher p (Transport.serving reads .eof) kind password rng
    let (whole, position) := cutAt pieces (m - salt.length)
    if salt.length ≤ m ∧ position = 0 then
      Delivers pollRead st whole.flatten .eof ∧ ∀ caps, NonEmptyBuffers caps →
        (readAll pollRead caps st).ended = some .eof →
        (readAll pollRead caps st).state.inner.reads = []
    else ∃ e, Delivers pollRead st whole.flatten (.error e)

/-- The stream as a reader takes it that meets no empty chunk. -/
theorem exists_sealedStream (kind : SsCipher) (password : String) (salt : Bytes) (hp : p.Lawful)
    (hpieces : ∀ piece ∈ pieces, piece.length ≤ maxPayload)
    (hne : ∀ piece ∈ (cutAt pieces n).1, piece ≠ []) :
    ∃ s : SealedStream, s.WF ∧ s.salt = salt ∧ s.cipher = keyed p kind password salt ∧
      s.pieces = (cutAt pieces n).1 ∧ s.ended = endAt (cutAt pieces n).2 ∧
      s.bytes = (stream p kind password salt pieces).take (salt.length + n) := by
  have hc : (keyed p kind password salt).Lawful tagLen := keyed_lawful hp _ _ _
  obtain ⟨part, htake, hbegun⟩ := take_chunks hc 0 n pieces
  rw [Nat.zero_add] at hbegun
  refine ⟨⟨salt, keyed p kind password salt, (cutAt pieces n).1, part, endAt (cutAt pieces n).2⟩,
    ⟨hc, ?_, hbegun.incomplete hc hpieces⟩, rfl, rfl, rfl, rfl, ?_⟩
  · intro piece hmem
    exact ⟨hne piece hmem, hpieces piece (mem_of_mem_cutAt hmem)⟩
  · rw [stream, List.take_length_add_append, htake]
    rfl

/-- What holds of a cut behind the salt. -/
theorem endsHonestly_behind (h : EndsHonestly p kind password salt pieces (salt.length + n))
    (rng : Nat → UInt8) (reads : List ReadEvent)
    (hbytes : unread reads = (stream p kind password salt pieces).take (salt.length + n)) :
    let st := withCipher p (Transport.serving reads .eof) kind password rng
    if (cutAt pieces n).2 = 0 then
      Delivers pollRead st (cutAt pieces n).1.flatten .eof ∧ ∀ caps, NonEmptyBuffers caps →
        (readAll pollRead caps st).ended = some .eof →
        (readAll pollRead caps st).state.inner.reads = []
    else ∃ e, Delivers pollRead st (cutAt pieces n).1.flatten (.error e) := by
  have h' := h rng reads hbytes
  rw [Nat.add_sub_cancel_left] at h'
  simpa only [Nat.le_add_right, true_and] using h'

/-- No whole chunk is empty where a reader ends honestly. -/
theorem EndsHonestly.nonempty (hp : p.Lawful) (hsalt : salt.length = kind.keyLen)
    (hpieces : ∀ piece ∈ pieces, piece.length ≤ maxPayload)
    (h : EndsHonestly p kind password salt pieces (salt.length + n)) :
    ∀ piece ∈ (cutAt pieces n).1, piece ≠ [] := by
  rintro piece hmem rfl
  have hc : (keyed p kind password salt).Lawful tagLen := keyed_lawful hp _ _ _
  obtain ⟨part, htake, -⟩ := take_chunks hc 0 n pieces
  obtain ⟨st, hat, hpoll⟩ := poll_salt_at_hand p password (fun _ => 0)
    (chunks (keyed p kind password salt) 0 (cutAt pieces n).1 ++ part) hsalt
  obtain ⟨caps, hcaps, hended, hreads⟩ :=
    hat.ends hc (fun piece hmem => hpieces piece (mem_of_mem_cutAt hmem)) hmem
  have hne : caps ≠ [] := by
    rintro rfl
    cases hended
  rw [← readAll_congr hpoll hne] at hended hreads
  have h' := endsHonestly_behind h (fun _ => 0) (arrive _ [.pending]) (by
    rw [stream, List.take_length_add_append, htake]
    exact (unread_arrive _ _).trans (List.append_nil _))
  dsimp only at h'
  split at h'
  · exact hreads (h'.2 caps hcaps hended)
  · obtain ⟨e, hdelivers⟩ := h'
    cases (hdelivers.at_end caps _ hcaps hended).2

/-- No length is cut where a reader ends honestly. -/
theorem EndsHonestly.position (hp : p.Lawful) (hsalt : salt.length = kind.keyLen)
    (hpieces : ∀ piece ∈ pieces, piece.length ≤ maxPayload)
    (h : EndsHonestly p kind password salt pieces (salt.length + n)) :
    ¬ (0 < (cutAt pieces n).2 ∧ (cutAt pieces n).2 < 2 + tagLen) := by
  rintro ⟨hpos, hlt⟩
  obtain ⟨s, hs, rfl, hcipher, -, hover, hbytes⟩ :=
    exists_sealedStream kind password salt hp hpieces
      (h.nonempty hp hsalt hpieces)
  have hread : unread (arrive s.bytes []) = s.bytes :=
    (unread_arrive _ _).trans (List.append_nil _)
  have h' := endsHonestly_behind h (fun _ => 0) _ (hread.trans hbytes)
  dsimp only at h'
  rw [if_neg (Nat.ne_of_gt hpos)] at h'
  obtain ⟨e, hdelivers⟩ := h'
  have hends := (hdelivers.unique (delivers hs hsalt hcipher hread)).2
  rw [hover, endAt, if_pos hlt] at hends
  cases hends

/-- A reader ends honestly exactly on streams without empty chunks that are not cut inside
a length. -/
theorem ends_iff (hp : p.Lawful) (hsalt : salt.length = kind.keyLen)
    (hpieces : ∀ piece ∈ pieces, piece.length ≤ maxPayload) :
    EndsHonestly p kind password salt pieces m ↔
      (∀ piece ∈ (cutAt pieces (m - salt.length)).1, piece ≠ []) ∧
        ¬ (0 < (cutAt pieces (m - salt.length)).2 ∧
          (cutAt pieces (m - salt.length)).2 < 2 + tagLen) := by
  rcases Nat.lt_or_ge m salt.length with hlt | hge
  · rw [Nat.sub_eq_zero_of_le (Nat.le_of_lt hlt), cutAt_zero]
    refine ⟨fun _ => ⟨by simp, by simp⟩, fun _ rng reads hbytes => ?_⟩
    rw [Nat.sub_eq_zero_of_le (Nat.le_of_lt hlt), cutAt_zero]
    dsimp only
    rw [if_neg (by omega)]
    refine ⟨_, delivers_saltless ?_⟩
    rw [hbytes, ← hsalt, List.length_take]
    omega
  · obtain ⟨n, rfl⟩ := Nat.exists_eq_add_of_le hge
    rw [Nat.add_sub_cancel_left]
    constructor
    · intro h
      exact ⟨h.nonempty hp hsalt hpieces, h.position hp hsalt hpieces⟩
    · rintro ⟨hne, hposition⟩ rng reads hbytes
      obtain ⟨s, hs, rfl, hcipher, hwhole, hover, hstream⟩ :=
        exists_sealedStream kind password salt hp hpieces hne
      have hread := hbytes.trans hstream.symm
      have hdelivers : Delivers pollRead
        (withCipher p (Transport.serving reads .eof) kind password rng) _ _ :=
        delivers hs hsalt hcipher hread
      rw [hwhole, hover] at hdelivers
      rw [Nat.add_sub_cancel_left]
      dsimp only
      split
      · next hboundary =>
          rw [hboundary.2] at hdelivers
          exact ⟨hdelivers, fun caps hcaps hend => (atEnd hs hsalt hcipher hread hcaps hend).reads⟩
      · next hinside =>
          rw [endAt, if_neg (by omega)] at hdelivers
          exact ⟨_, hdelivers⟩

theorem ends_chunk : EndsHonestly SsPrimitives.sums .chaCha20Poly1305 "password"
    (List.replicate 32 7) [[1, 2], [3]] 68 :=
  (ends_iff SsPrimitives.sums_lawful (by decide) (by simp [maxPayload])).mpr
    ⟨by simp [cutAt, chunkLen, tagLen], by simp [cutAt, chunkLen, tagLen]⟩

/-- Four bytes of a length are taken for the end of the stream, and so is an empty chunk
that is ahead of another. -/
theorem not_ends_whole :
    ¬ EndsHonestly SsPrimitives.sums .chaCha20Poly1305 "password" (List.replicate 32 7) [[1]] 36 ∧
    ¬ EndsHonestly SsPrimitives.sums .chaCha20Poly1305 "password" (List.replicate 32 7)
      [[], [1]] 101 := by
  constructor
  · intro h
    exact h.position (n := 4) SsPrimitives.sums_lawful (by decide) (by simp [maxPayload])
      (by simp [cutAt, chunkLen, tagLen])
  · intro h
    exact h.nonempty (n := 69) SsPrimitives.sums_lawful (by decide) (by simp [maxPayload]) []
      (by simp [cutAt, chunkLen, tagLen]) rfl

end ShadowedStream

end RustClash
