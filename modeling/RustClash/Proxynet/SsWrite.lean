import RustClash.Lib.Sink
import RustClash.Proxynet.SsRead

/-!
# What a Shadowsocks writer hands on

Over a sink a `ShadowedStream` is a sink: the layer below gets the salt once, then a
chunk for each piece that is reported, and the one that is staged.  `Sealing` is
the account of it.  What the writer has handed on a reader delivers, with the
nonces that the writer sealed with.
-/

namespace RustClash

open Ss

namespace ShadowedStream

variable {p : SsPrimitives} {σ : Type}

/-- The salt of a writer. -/
def saltOf (kind : SsCipher) (rng : Nat → UInt8) : Bytes := (List.range kind.keyLen).map rng

@[simp] theorem length_saltOf (kind : SsCipher) (rng : Nat → UInt8) :
    (saltOf kind rng).length = kind.keyLen := by simp [saltOf]

/-- The bytes that carry pieces. -/
def wire (salt : Bytes) (c : Aead UInt8) (pieces : List Bytes) : Bytes := salt ++ chunks c 0 pieces

theorem wire_report (salt : Bytes) (c : Aead UInt8) (pieces : List Bytes) (piece : Bytes) :
    wire salt c (pieces ++ [piece]) = wire salt c pieces ++ chunk c pieces.length piece := by
  rw [wire, chunks_append, Nat.zero_add, wire, List.append_assoc]

section

variable [AsyncWrite σ] {spec : SinkSpec (pollWrite : WriteFn σ UInt8 IoError) pollFlush}
  {salt : Bytes} {c : Aead UInt8} {st : ShadowedStream p σ} {out : Option Bytes}
  {pieces : List Bytes} {buf : Bytes}

/-- Nothing has been written. -/
structure Fresh (spec : SinkSpec (pollWrite : WriteFn σ UInt8 IoError) pollFlush) (salt : Bytes)
    (c : Aead UInt8) (st : ShadowedStream p σ) : Prop where
  state : st.writeState = .salt
  drawn : saltOf st.kind st.rng = salt
  cipher : st.cipher salt = c
  encNonce : st.encNonce = ⟨nonceAt 0⟩
  held : spec.Holding [] st.inner []

/-- Every piece has been handed on. -/
structure Idle (spec : SinkSpec (pollWrite : WriteFn σ UInt8 IoError) pollFlush) (salt : Bytes)
    (c : Aead UInt8) (st : ShadowedStream p σ) (pieces : List Bytes) : Prop where
  enc : st.enc = some c
  encNonce : st.encNonce = ⟨nonceAt (2 * pieces.length)⟩
  fits : Pieces pieces
  writeBuf : st.writeBuf = []
  held : spec.Holding [] st.inner (wire salt c pieces)

/-- The last of the pieces is being handed on. -/
structure Staged (spec : SinkSpec (pollWrite : WriteFn σ UInt8 IoError) pollFlush) (salt : Bytes)
    (c : Aead UInt8) (st : ShadowedStream p σ) (pieces : List Bytes) (total written : Nat) :
    Prop where
  enc : st.enc = some c
  encNonce : st.encNonce = ⟨nonceAt (2 * pieces.length)⟩
  fits : Pieces pieces
  writeBuf : st.writeBuf ≠ []
  count : written + st.writeBuf.length = total
  held : spec.Holding st.writeBuf st.inner (wire salt c pieces)

/-- Where a writer stands that has reported `pieces`. -/
inductive Sealing (spec : SinkSpec (pollWrite : WriteFn σ UInt8 IoError) pollFlush) (salt : Bytes)
    (c : Aead UInt8) (st : ShadowedStream p σ) : Option Bytes → List Bytes → Prop
| fresh : Fresh spec salt c st -> Sealing spec salt c st none []
| idle {pieces : List Bytes} :
  st.writeState = .chunk ->
  pieces ≠ [] ->
  Idle spec salt c st pieces ->
  Sealing spec salt c st none pieces
| staged {buf : Bytes} {pieces : List Bytes} {total written : Nat} :
  st.writeState = .flush (min buf.length maxPayload) total written ->
  Staged spec salt c st (pieces ++ [buf.take maxPayload]) total written ->
  Sealing spec salt c st (some buf) pieces

theorem writeFlush_answered {total written : Nat} (hne : buf ≠ [])
    (h : Staged spec salt c st (pieces ++ [buf.take maxPayload]) total written) :
    Answered (Sealing spec salt c) pieces buf
      (st.writeFlush (min buf.length maxPayload) total written) := by
  have hon := h.held.handOn h.writeBuf h.count earlyEof
  simp only [writeFlush]
  generalize handOn pollWrite earlyEof total st.writeBuf written st.inner = r at hon ⊢
  obtain ⟨r, writeBuf, written', inner⟩ := r
  obtain ⟨hheld, hcount, hdone, hundone⟩ := hon
  have hstays : r ≠ .ready (.ok ()) → Sealing spec salt c ({ st with
      writeBuf
      inner
      writeState := .flush (min buf.length maxPayload) total written' } : ShadowedStream p σ)
      (some buf) pieces :=
    fun hr => .staged rfl ⟨h.enc, h.encNonce, h.fits, hundone hr, hcount, hheld⟩
  rcases r with _ | e | ⟨⟩
  · exact .pending _ (hstays nofun)
  · exact .error _ _ (hstays nofun)
  · cases hdone rfl
    have htake : buf.take (min buf.length maxPayload) = buf.take maxPayload := by
      rw [Nat.min_comm, ← List.take_eq_take_min]
    have hnil : buf.take maxPayload ≠ [] := by
      rw [ne_eq, List.take_eq_nil_iff]
      exact not_or.mpr ⟨by decide, hne⟩
    refine .count _ _ (Nat.min_le_left _ _) ?_
    rw [htake, report_of_ne _ hnil]
    exact .idle rfl (List.append_ne_nil_of_right_ne_nil _ (List.cons_ne_nil _ _))
      ⟨h.enc, h.encNonce, h.fits, rfl, hheld⟩

/-- A chunk is sealed behind what is in the buffer. -/
theorem writeChunk_answered (st : ShadowedStream p σ) (hne : buf ≠ []) (hc : c.Lawful tagLen)
    (henc : st.enc = some c) (hnonce : st.encNonce = ⟨nonceAt (2 * pieces.length)⟩) (hfits : Pieces pieces)
    (hheld : ∀ rest, spec.Holding (st.writeBuf ++ rest) st.inner (wire salt c pieces ++ rest)) :
    Answered (Sealing spec salt c) pieces buf (st.writeChunk buf) := by
  have htake : buf.take (min buf.length maxPayload) = buf.take maxPayload := by
    rw [Nat.min_comm, ← List.take_eq_take_min]
  have hlen : min buf.length maxPayload = (buf.take maxPayload).length := by
    rw [List.length_take, Nat.min_comm]
  simp only [writeChunk]
  rw [henc]
  simp only [hnonce, next_nonceAt, htake]
  refine writeFlush_answered hne ⟨rfl, ?_, ?_, ?_, Nat.zero_add _, ?_⟩
  · rw [List.length_append]
    rfl
  · rintro piece hmem
    rcases List.mem_append.mp hmem with hmem | hmem
    · exact hfits piece hmem
    · rw [List.mem_singleton.mp hmem]
      exact ⟨by simpa [maxPayload] using hne, List.length_take_le _ _⟩
  · have hpos := length_seal hc (nonceAt (2 * pieces.length)) (toBe16 (min buf.length maxPayload))
    intro hnil
    rw [List.append_eq_nil_iff, List.append_eq_nil_iff] at hnil
    rw [hnil.2.1] at hpos
    cases hpos
  · rw [wire_report, hlen]
    exact hheld _

theorem pollWrite_answered (hc : c.Lawful tagLen) (h : Sealing spec salt c st out pieces)
    (hne : buf ≠ []) (hagain : ∀ b, out = some b → buf = b) :
    Answered (Sealing spec salt c) pieces buf (pollWrite st buf) := by
  simp only [pollWrite]
  cases h with
  | fresh h =>
      rw [h.state]
      have hwire : wire salt c [] = saltOf st.kind st.rng := by
        rw [h.drawn, wire, chunks, List.append_nil]
      have henc : some (st.cipher (saltOf st.kind st.rng)) = some c := by rw [h.drawn, h.cipher]
      have hheld : ∀ rest, spec.Holding (saltOf st.kind st.rng ++ rest) st.inner
          (wire salt c [] ++ rest) := by
        intro rest
        rw [hwire]
        exact h.held.restart _
      exact writeChunk_answered { st with
        writeBuf := saltOf st.kind st.rng
        enc := some (st.cipher (saltOf st.kind st.rng)) } hne hc henc h.encNonce
        (List.forall_mem_nil _) hheld
  | idle hstate _ h =>
      rw [hstate]
      refine writeChunk_answered st hne hc h.enc h.encNonce h.fits ?_
      intro rest
      rw [h.writeBuf]
      exact h.held.restart rest
  | staged hstate h =>
      cases hagain _ rfl
      rw [hstate]
      exact writeFlush_answered hne h

theorem pollFlush_sealing (h : Sealing spec salt c st out pieces) :
    Sealing spec salt c (pollFlush st).2 out pieces := by
  simp only [pollFlush]
  cases h with
  | fresh h => exact .fresh { h with held := h.held.flushed }
  | idle hstate hne h => exact .idle hstate hne { h with held := h.held.flushed }
  | staged hstate h => exact .staged hstate { h with held := h.held.flushed }

/-- A Shadowsocks stream over a sink is a sink. -/
def sinkSpec (p : SsPrimitives) (spec : SinkSpec (pollWrite : WriteFn σ UInt8 IoError) pollFlush)
    (salt : Bytes) (c : Aead UInt8) (hc : c.Lawful tagLen) :
    SinkSpec (pollWrite : WriteFn (ShadowedStream p σ) UInt8 IoError) pollFlush where
  Reports := Sealing spec salt c
  write := pollWrite_answered hc
  flush := pollFlush_sealing

end

/-! ## Reading what was written -/

variable {kind : SsCipher} {password : String} {rng : Nat → UInt8} {writes : List WriteEvent}
  {calls : List (SinkCall UInt8)} {c : Caller (ShadowedStream p Transport) UInt8}

/-- All that carries pieces: nothing as long as there are none. -/
def sealed (p : SsPrimitives) (kind : SsCipher) (password : String) (salt : Bytes)
    (pieces : List Bytes) : Bytes :=
  if pieces = [] then [] else wire salt (keyed p kind password salt) pieces

/-- What has been opened and not delivered. -/
def opened (st : ShadowedStream p Transport) : Bytes :=
  match st.readState with
  | .pending n => st.readBuf.take n
  | _ => []

/-- A reader that has opened `j` messages, the next of which has the nonce `j`: the pieces
that are whole have been delivered, or are in its buffer. -/
def InStep (pieces : List Bytes) (st : ShadowedStream p Transport) (delivered : Bytes) : Prop :=
  ∃ j, j ≤ 2 * pieces.length ∧ st.decNonce = ⟨nonceAt j⟩ ∧
    delivered ++ st.opened = (pieces.take (j / 2)).flatten

theorem Yields.inStep {s : SealedStream} {st : ShadowedStream p Transport} {rest : Bytes}
    {o : End IoError} {delivered : Bytes} (hover : s.ended = .eof) (h : Yields s st rest o)
    (hitems : s.pieces.flatten = delivered ++ rest) : InStep s.pieces st delivered := by
  have hsplit : ∀ k, s.pieces.flatten = (s.pieces.take k).flatten ++ (s.pieces.drop k).flatten := by
    intro k
    rw [← List.flatten_append, List.take_append_drop]
  cases h with
  | salt hstate _ _ _ hnonce _ =>
      refine ⟨0, Nat.zero_le _, hnonce, ?_⟩
      rw [opened, hstate, List.append_nil]
      exact (List.append_cancel_right ((List.nil_append _).trans hitems)).symm
  | @length k hstate _ _ hnonce hk _ =>
      refine ⟨2 * k, by omega, hnonce, ?_⟩
      rw [opened, hstate, List.append_nil, Nat.mul_div_cancel_left k Nat.two_pos]
      exact (List.append_cancel_right ((hsplit k).symm.trans hitems)).symm
  | @data k piece rest hstate _ _ hnonce hdrop _ =>
      have hk := congrArg List.length hdrop
      rw [List.length_drop, List.length_cons] at hk
      refine ⟨2 * k + 1, by omega, hnonce, ?_⟩
      rw [opened, hstate, List.append_nil, show (2 * k + 1) / 2 = k by omega]
      exact (List.append_cancel_right ((hsplit k).symm.trans hitems)).symm
  | short _ _ _ _ herror => cases hover.symm.trans herror
  | @pending k hstate _ _ _ _ hnonce hk _ =>
      refine ⟨2 * k, by omega, hnonce, ?_⟩
      rw [← List.append_assoc] at hitems
      rw [opened, hstate, Nat.mul_div_cancel_left k Nat.two_pos]
      show delivered ++ st.readBuf.take st.readBuf.length = _
      rw [List.take_length]
      exact (List.append_cancel_right ((hsplit k).symm.trans hitems)).symm

/-- Whole chunks. -/
theorem exists_whole (kind : SsCipher) (password : String) (salt : Bytes) {pieces : List Bytes}
    (hp : p.Lawful) (hfits : Pieces pieces) (hne : pieces ≠ []) :
    ∃ s : SealedStream, s.WF ∧ s.salt = salt ∧ s.cipher = keyed p kind password salt ∧
      s.pieces = pieces ∧ s.ended = .eof ∧ s.bytes = sealed p kind password salt pieces := by
  refine ⟨⟨salt, keyed p kind password salt, pieces, [], .eof⟩,
    ⟨keyed_lawful hp _ _ _, hfits, .length (Nat.zero_lt_succ _)⟩, rfl, rfl, rfl, rfl, ?_⟩
  rw [sealed, if_neg hne, SealedStream.bytes, SealedStream.from_, List.append_nil]
  rfl

/-- A reader delivers what was sealed, in step with the writer. -/
theorem reads_sealed {salt : Bytes} {pieces : List Bytes} {reads : List ReadEvent} (hp : p.Lawful)
    (hsalt : salt.length = kind.keyLen) (hfits : Pieces pieces) (hne : pieces ≠ [])
    (hbytes : unread reads = sealed p kind password salt pieces) :
    let reader := withCipher p (Transport.serving reads .eof) kind password rng
    Delivers pollRead reader pieces.flatten .eof ∧
    ∀ caps, NonEmptyBuffers caps →
      let r := readAll pollRead caps reader
      (r.ended = none → InStep pieces r.state r.items) ∧
      (r.ended = some .eof → r.state.decNonce = ⟨nonceAt (2 * pieces.length)⟩) := by
  intro reader
  obtain ⟨s, hs, rfl, hcipher, rfl, hover, hstream⟩ :=
    exists_whole kind password salt hp hfits hne
  have hread := hbytes.trans hstream.symm
  have hyields : Yields s reader s.pieces.flatten s.ended := yields_withCipher hsalt hcipher hread
  refine ⟨hover ▸ (readSpec s hs).delivers hyields, fun caps hcaps => ⟨fun hend => ?_, fun hend => ?_⟩⟩
  · obtain ⟨rest, hitems, hy⟩ := (readSpec s hs).readAll_yields hyields hcaps hend
    exact Yields.inStep hover hy hitems
  · exact (atEnd hs hsalt hcipher hread hcaps hend).decNonce

theorem sealing_start (p : SsPrimitives) (kind : SsCipher) (password : String) (rng : Nat → UInt8)
    (writes : List WriteEvent) :
    Sealing (WriteLaw.spec.sink WriteLaw.flush_accepted []) (saltOf kind rng)
      (keyed p kind password (saltOf kind rng))
      (withCipher p (Transport.accepting writes) kind password rng) none [] :=
  .fresh ⟨rfl, rfl, rfl, nonceAt_zero, ⟨[], none, rfl, rfl, nofun⟩⟩

/-- What a writer has handed on to a transport, and what is still to be handed on. -/
theorem Sealing.account {salt : Bytes} {st : ShadowedStream p Transport} {out : Option Bytes}
    {pieces : List Bytes}
    (h : Sealing (WriteLaw.spec.sink WriteLaw.flush_accepted []) salt
      (keyed p kind password salt) st out pieces) :
    ∃ (piece : Option Bytes) (unsent : Bytes),
      st.inner.written ++ unsent = sealed p kind password salt (pieces ++ piece.toList) ∧
      st.encNonce = ⟨nonceAt (2 * (pieces ++ piece.toList).length)⟩ ∧
      Pieces (pieces ++ piece.toList) ∧
      (∀ q, piece = some q → ∃ buf, out = some buf ∧ q = buf.take maxPayload) ∧
      (piece = none → unsent = []) := by
  cases h with
  | fresh h =>
      exact ⟨none, [], h.held.accepted, h.encNonce, List.forall_mem_nil _, nofun, fun _ => rfl⟩
  | idle _ hne h =>
      refine ⟨none, [], ?_⟩
      rw [Option.toList_none, List.append_nil pieces, sealed, if_neg hne]
      exact ⟨h.held.accepted, h.encNonce, h.fits, nofun, fun _ => rfl⟩
  | @staged buf pieces total written _ h =>
      refine ⟨some (buf.take maxPayload), st.writeBuf, ?_, h.encNonce, h.fits, ?_, nofun⟩
      · rw [sealed, if_neg]
        · exact h.held.accepted
        · exact List.append_ne_nil_of_right_ne_nil _ (List.cons_ne_nil _ _)
      · intro q hq
        cases hq
        exact ⟨buf, rfl, rfl⟩

/-- Whatever is written, and whatever the transport accepts when: what it has accepted and what
is still to be handed on are the salt and a chunk for each piece, the reported ones and the one
that is staged, sealed under the numbers from zero on.  However these bytes come in, a reader with
the same method and password delivers the pieces, and opens each message with its number. -/
theorem reads_back (hp : p.Lawful)
    (hrun : Run (Calls pollWrite pollFlush)
      (Caller.start (withCipher p (Transport.accepting writes) kind password rng)) calls c) :
    ∃ (piece : Option Bytes) (unsent : Bytes),
      let pieces := c.pieces ++ piece.toList
      c.sink.inner.written ++ unsent = sealed p kind password (saltOf kind rng) pieces ∧
      c.sink.encNonce = ⟨nonceAt (2 * pieces.length)⟩ ∧
      (∀ q ∈ pieces, q ≠ [] ∧ q.length ≤ maxPayload) ∧
      (∀ q, piece = some q → ∃ buf, c.outstanding = some buf ∧ q = buf.take maxPayload) ∧
      (piece = none → unsent = []) ∧
      (pieces ≠ [] → ∀ rng' reads, unread reads = c.sink.inner.written ++ unsent →
        let reader := withCipher p (Transport.serving reads .eof) kind password rng'
        Delivers pollRead reader pieces.flatten .eof ∧
        ∀ caps, NonEmptyBuffers caps →
          let r := readAll pollRead caps reader
          (r.ended = none → InStep pieces r.state r.items) ∧
          (r.ended = some .eof → r.state.decNonce = c.sink.encNonce)) ∧
      ∀ i j, i < 2 ^ 96 → j < 2 ^ 96 → i ≠ j → nonceAt i ≠ nonceAt j := by
  have hc : (keyed p kind password (saltOf kind rng)).Lawful tagLen := keyed_lawful hp _ _ _
  have hsealing := (sinkSpec p _ (saltOf kind rng) _ hc).reports_run hrun
    (sealing_start p kind password rng writes)
  obtain ⟨piece, unsent, hwire, hnonce, hfits, hpiece, hnone⟩ := Sealing.account hsealing
  refine ⟨piece, unsent, hwire, hnonce, hfits, hpiece, hnone, fun hne rng' reads hbytes => ?_,
    fun i j hi hj hne heq => hne (nonceAt_injective hi hj heq)⟩
  rw [hnonce]
  exact reads_sealed hp (length_saltOf kind rng) hfits hne (hbytes.trans hwire)

/-- Two writes of which the first is taken in parts: both are read back. -/
theorem reads_back_twice : ∃ c, Run (Calls pollWrite pollFlush)
    (Caller.start (withCipher SsPrimitives.sums
      (Transport.accepting [.accept 40, .pending, .accept 30]) .aes256Gcm "password" fun _ => 9))
    [.write [1, 2, 3], .write [1, 2, 3], .flush, .write [4]] c ∧ c.pieces = [[1, 2, 3], [4]] ∧
    ∃ (piece : Option Bytes) (unsent : Bytes),
      let pieces := c.pieces ++ piece.toList
      c.sink.inner.written ++ unsent =
        sealed SsPrimitives.sums .aes256Gcm "password" (saltOf .aes256Gcm fun _ => 9) pieces ∧
      c.sink.encNonce = ⟨nonceAt (2 * pieces.length)⟩ ∧
      ∀ rng' reads, unread reads = c.sink.inner.written ++ unsent →
        let reader := withCipher SsPrimitives.sums (Transport.serving reads .eof) .aes256Gcm
          "password" rng'
        Delivers pollRead reader pieces.flatten .eof ∧
        ∀ caps, NonEmptyBuffers caps →
          let r := readAll pollRead caps reader
          (r.ended = none → InStep pieces r.state r.items) ∧
          (r.ended = some .eof → r.state.decNonce = c.sink.encNonce) := by
  have hrun : Run (Calls pollWrite pollFlush) (Caller.start (withCipher SsPrimitives.sums
      (Transport.accepting [.accept 40, .pending, .accept 30]) .aes256Gcm "password" fun _ => 9))
      [.write [1, 2, 3], .write [1, 2, 3], .flush, .write [4]] _ :=
    .snoc (.snoc (.snoc (.snoc .nil (.write _ _ nofun nofun))
      (.write _ _ nofun (by intro b h; exact Caller.again h))) (.flush _)) (.write _ _ nofun (by decide +kernel))
  obtain ⟨piece, unsent, hwire, hnonce, -, -, -, hread, -⟩ :=
    reads_back SsPrimitives.sums_lawful hrun
  refine ⟨_, hrun, by decide +kernel, piece, unsent, hwire, hnonce, hread ?_⟩
  exact List.append_ne_nil_of_left_ne_nil (by decide +kernel) _

end ShadowedStream

end RustClash
