import RustClash.Proxynet.Vmess.StreamRead
import RustClash.Proxynet.Vmess.StreamWrite

/-!
# Writing and reading VMess chunks

A reader that has the key and the iv of a writer follows it: before the chunk `k` its
streams stand where those of the writer stood (`Follows`).  So it takes the padding and
the mask of every chunk off the same four bytes of the SHAKE stream, and delivers the
pieces.
-/

namespace RustClash

open Vmess

namespace Vmess

theorem BodyAead.length_seal {p : Primitives} {c : BodyAead} (hc : (c.aead p).Lawful tagLen)
    (nonce plain : Bytes) : (c.seal p nonce plain).length = plain.length + tagLen :=
  hc.length_encrypt _ _ _

theorem BodyAead.open_seal {p : Primitives} {c : BodyAead} (hc : (c.aead p).Lawful tagLen)
    (nonce plain : Bytes) : c.open p nonce (c.seal p nonce plain) = .ok plain := by
  rw [BodyAead.open, length_seal hc, if_neg (Nat.not_lt.mpr (Nat.le_add_left _ _)),
    BodyAead.seal, hc.decrypt_encrypt]

namespace Counters

theorem length_masked {ctr : Counters} {n : Nat} :
    (ctr.masked n).length = ShakeSizeParser.sizeBytes := rfl

/-- A masked length is unmasked by the next draw. -/
theorem decode_masked {ctr : Counters} {n : Nat} (h : ctr.payloadLen n < 65536) :
    (ctr.size.nextPaddingLen.2.decode (ctr.masked n)).1.toNat = ctr.payloadLen n := by
  simp only [ShakeSizeParser.decode, masked, ShakeSizeParser.encode, toBe16, List.getD_cons_zero,
    List.getD_cons_succ]
  rw [uint16_ofBe16_toBe16, ← UInt16.xor_assoc, UInt16.xor_self, UInt16.zero_xor,
    UInt16.toNat_ofNat_of_lt' h]

theorem payloadLen_le {ctr : Counters} {n : Nat} (h : n ≤ ctr.maxPayload) :
    ctr.payloadLen n ≤ 0x4000 := by
  have := ctr.padding_lt
  rw [maxPayload, BodyAead.tagLen] at h
  rw [payloadLen, BodyAead.tagLen]
  omega

/-- The bytes from the `k`-th chunk on. -/
def from_ (p : Primitives) (enc : BodyAead) (ctr : Counters) (pieces : List Bytes) (k : Nat) :
    Bytes := (ctr.after k).chunks p enc (pieces.drop k)

theorem from_cons {p : Primitives} {enc : BodyAead} {ctr : Counters} {pieces rest : List Bytes}
    {k : Nat} {piece : Bytes} (h : pieces.drop k = piece :: rest) :
    ctr.from_ p enc pieces k =
      (ctr.after k).masked piece.length ++ (enc.seal p (ctr.after k).nonce.next.1 piece ++
        ((ctr.after k).pad ++ ctr.from_ p enc pieces (k + 1))) := by
  have hrest : pieces.drop (k + 1) = rest := by
    rw [← List.drop_drop, h]
    rfl
  rw [from_, from_, h, hrest, chunks, chunk, List.append_assoc, List.append_assoc, after]

theorem getElem?_of_drop {pieces rest : List Bytes} {k : Nat} {piece : Bytes}
    (h : pieces.drop k = piece :: rest) : pieces[k]? = some piece := by
  have hfirst : (pieces.drop k)[0]? = pieces[k + 0]? := List.getElem?_drop
  rw [h, List.getElem?_cons_zero] at hfirst
  exact hfirst.symm

end Counters

end Vmess

namespace VmessAuthStream

variable {p : Primitives} {enc : BodyAead} {ctr : Counters} {pieces : List Bytes}
  {st : VmessAuthStream p Transport} {items : Bytes} {o : End IoError} {cap : Nat}

/-- A reader that follows a writer from `ctr` on: what it has yet to deliver of the pieces. -/
inductive Follows (enc : BodyAead) (ctr : Counters) (pieces : List Bytes) :
    VmessAuthStream p Transport → Bytes → End IoError → Prop
| length {st : VmessAuthStream p Transport} {k : Nat} :
  st.readState = .length ->
  st.readPos ≤ st.readBuf.length ->
  st.readPos ≤ 2 ->
  st.dec = enc ->
  st.decNonce = (ctr.after k).nonce ->
  st.decSize = (ctr.after k).size ->
  k ≤ pieces.length ->
  st.bytes = ctr.from_ p enc pieces k ->
  Follows enc ctr pieces st (pieces.drop k).flatten (st.inner.readEnd.truncated earlyEof)
| data {st : VmessAuthStream p Transport} {k : Nat} {piece : Bytes} {rest : List Bytes} :
  st.readState = .data ((ctr.after k).payloadLen piece.length) (ctr.after k).padding ->
  st.readPos ≤ st.readBuf.length ->
  st.readPos ≤ (ctr.after k).payloadLen piece.length ->
  st.dec = enc ->
  st.decNonce = (ctr.after k).nonce ->
  st.decSize = (ctr.after (k + 1)).size ->
  pieces.drop k = piece :: rest ->
  st.bytes = enc.seal p (ctr.after k).nonce.next.1 piece ++
    ((ctr.after k).pad ++ ctr.from_ p enc pieces (k + 1)) ->
  Follows enc ctr pieces st (pieces.drop k).flatten (st.inner.readEnd.truncated earlyEof)
| pending {st : VmessAuthStream p Transport} {k : Nat} :
  st.readState = .pending st.readBuf.length ->
  st.readBuf ≠ [] ->
  st.readPos = 0 ->
  st.dec = enc ->
  st.decNonce = (ctr.after k).nonce ->
  st.decSize = (ctr.after k).size ->
  k ≤ pieces.length ->
  unread st.inner.reads = ctr.from_ p enc pieces k ->
  Follows enc ctr pieces st (st.readBuf ++ (pieces.drop k).flatten)
    (st.inner.readEnd.truncated earlyEof)

theorem follow_length {k : Nat} (hfits : ctr.Fits pieces) (hstate : st.readState = .length)
    (hcursor : st.readPos ≤ st.readBuf.length) (hpos : st.readPos ≤ 2) (hdec : st.dec = enc)
    (hnonce : st.decNonce = (ctr.after k).nonce) (hsize : st.decSize = (ctr.after k).size)
    (hk : k ≤ pieces.length) (hbytes : st.bytes = ctr.from_ p enc pieces k) :
    PassLeaves (Follows enc ctr pieces) stalls st (pieces.drop k).flatten
      (st.inner.readEnd.truncated earlyEof) (st.passLength cap) := by
  simp only [passLength]
  refine exact_rule hcursor hpos ?_ ?_ ?_
  · intro readBuf readPos inner hi
    rw [← hi.readEnd]
    exact ⟨.length hstate hi.cursor (Nat.le_of_lt hi.early) hdec hnonce hsize hk
      (hi.kept.trans hbytes), hi.stalls⟩
  · intro readBuf readPos inner e hshort hend
    rcases hdrop : pieces.drop k with _ | ⟨piece, rest⟩
    · exact ⟨rfl, hend⟩
    · rw [hbytes, Counters.from_cons hdrop, List.length_append, Counters.length_masked] at hshort
      exact absurd hshort (Nat.not_lt.mpr (Nat.le_add_right _ _))
  · intro inner hc
    rcases hdrop : pieces.drop k with _ | ⟨piece, rest⟩
    · have henough := hc.enough
      rw [hbytes, Counters.from_, hdrop, Counters.chunks] at henough
      exact absurd henough (by decide)
    · have hpiece := hfits k piece (Counters.getElem?_of_drop hdrop)
      have hrest := hc.rest
      rw [hbytes, Counters.from_cons hdrop, List.drop_left' Counters.length_masked] at hrest
      have htake : (st.bytes.take ShakeSizeParser.sizeBytes).take ShakeSizeParser.sizeBytes =
          (ctr.after k).masked piece.length := by
        rw [List.take_take, Nat.min_self, hbytes, Counters.from_cons hdrop,
          List.take_left' Counters.length_masked]
      dsimp only
      rw [htake, hsize, ← hc.readEnd, ← hdrop,
        Counters.decode_masked (Nat.lt_of_le_of_lt (Counters.payloadLen_le hpiece.2) (by decide))]
      refine ⟨.data rfl (Nat.zero_le _) (Nat.zero_le _) hdec hnonce rfl hdrop ?_, hc.stalls⟩
      rw [bytes_front]
      exact hrest

theorem follow_data {k : Nat} {piece : Bytes} {rest : List Bytes}
    (hlaw : (enc.aead p).Lawful BodyAead.tagLen) (hfits : ctr.Fits pieces)
    (hstate : st.readState =
      .data ((ctr.after k).payloadLen piece.length) (ctr.after k).padding)
    (hcursor : st.readPos ≤ st.readBuf.length)
    (hpos : st.readPos ≤ (ctr.after k).payloadLen piece.length) (hdec : st.dec = enc)
    (hnonce : st.decNonce = (ctr.after k).nonce) (hsize : st.decSize = (ctr.after (k + 1)).size)
    (hdrop : pieces.drop k = piece :: rest)
    (hbytes : st.bytes = enc.seal p (ctr.after k).nonce.next.1 piece ++
      ((ctr.after k).pad ++ ctr.from_ p enc pieces (k + 1))) :
    PassLeaves (Follows enc ctr pieces) stalls st (pieces.drop k).flatten
      (st.inner.readEnd.truncated earlyEof)
      (st.passData cap ((ctr.after k).payloadLen piece.length) (ctr.after k).padding) := by
  have hseal := BodyAead.length_seal hlaw (ctr.after k).nonce.next.1 piece
  have hlen : (enc.seal p (ctr.after k).nonce.next.1 piece ++ (ctr.after k).pad).length =
      (ctr.after k).payloadLen piece.length := by
    rw [List.length_append, hseal, Counters.payloadLen, Counters.pad, List.length_map,
      List.length_range]
  rw [← List.append_assoc] at hbytes
  simp only [passData]
  refine exact_rule hcursor hpos ?_ ?_ ?_
  · intro readBuf readPos inner hi
    rw [← hi.readEnd]
    refine ⟨.data hstate hi.cursor (Nat.le_of_lt hi.early) hdec hnonce hsize hdrop ?_, hi.stalls⟩
    rw [← List.append_assoc]
    exact hi.kept.trans hbytes
  · intro readBuf readPos inner e hshort hend
    rw [hbytes, List.length_append, hlen] at hshort
    exact absurd hshort (Nat.not_lt.mpr (Nat.le_add_right _ _))
  · intro inner hc
    have hpiece := hfits k piece (Counters.getElem?_of_drop hdrop)
    have hrest := hc.rest
    rw [hbytes, List.drop_left' hlen] at hrest
    have htake : (st.bytes.take ((ctr.after k).payloadLen piece.length)).take
        ((ctr.after k).payloadLen piece.length - (ctr.after k).padding) =
          enc.seal p (ctr.after k).nonce.next.1 piece := by
      rw [hbytes, List.take_left' hlen]
      refine List.take_left' ?_
      rw [hseal, Counters.payloadLen, Nat.add_sub_cancel]
    have hitems : (pieces.drop k).flatten = piece ++ (pieces.drop (k + 1)).flatten := by
      rw [hdrop, ← List.drop_drop, hdrop]
      rfl
    have hk : k + 1 ≤ pieces.length := by
      have := congrArg List.length hdrop
      rw [List.length_drop, List.length_cons] at this
      omega
    dsimp only
    rw [htake, hnonce, hdec, BodyAead.open_seal hlaw, hitems, ← hc.readEnd]
    exact ⟨.pending rfl hpiece.1 rfl rfl rfl hsize hk hrest, hc.stalls⟩

theorem follow_pending {k : Nat} (hplain : st.readBuf ≠ []) (hpos : st.readPos = 0)
    (hdec : st.dec = enc) (hnonce : st.decNonce = (ctr.after k).nonce)
    (hsize : st.decSize = (ctr.after k).size) (hk : k ≤ pieces.length)
    (hbytes : unread st.inner.reads = ctr.from_ p enc pieces k) (hcap : 0 < cap) :
    PassLeaves (Follows enc ctr pieces) stalls st (st.readBuf ++ (pieces.drop k).flatten)
      (st.inner.readEnd.truncated earlyEof) (st.passPending cap st.readBuf.length) := by
  simp only [passPending]
  rw [List.take_length]
  refine leaves_fill hplain hcap ?_ (Nat.le_refl _)
  by_cases hlt : cap < st.readBuf.length
  · rw [Nat.min_eq_left (Nat.le_of_lt hlt), if_pos hlt, ← List.length_drop]
    exact .pending rfl (by simpa using hlt) hpos hdec hnonce hsize hk hbytes
  · have hle := Nat.not_lt.mp hlt
    rw [Nat.min_eq_right hle, if_neg (Nat.lt_irrefl _), List.drop_of_length_le hle,
      List.nil_append]
    refine .length rfl (hpos ▸ Nat.zero_le _) (hpos ▸ Nat.zero_le _) hdec hnonce hsize hk ?_
    rw [bytes, hpos, List.take_zero, List.nil_append]
    exact hbytes

theorem follow (hlaw : (enc.aead p).Lawful BodyAead.tagLen) (hfits : ctr.Fits pieces)
    (h : Follows enc ctr pieces st items o) (hcap : 0 < cap) :
    PassLeaves (Follows enc ctr pieces) stalls st items o (st.pass cap) := by
  simp only [pass]
  cases h with
  | length hstate hcursor hpos hdec hnonce hsize hk hbytes =>
      rw [hstate]
      exact follow_length hfits hstate hcursor hpos hdec hnonce hsize hk hbytes
  | data hstate hcursor hpos hdec hnonce hsize hdrop hbytes =>
      rw [hstate]
      exact follow_data hlaw hfits hstate hcursor hpos hdec hnonce hsize hdrop hbytes
  | pending hstate hplain hpos hdec hnonce hsize hk hbytes =>
      rw [hstate]
      exact follow_pending hplain hpos hdec hnonce hsize hk hbytes hcap

/-- What a reader yields that follows a writer. -/
def followSpec (p : Primitives) (hlaw : (enc.aead p).Lawful BodyAead.tagLen)
    (hfits : ctr.Fits pieces) :
    ReadSpec (pollRead : ReadFn (VmessAuthStream p Transport) UInt8 IoError) :=
  .ofLoop (readLoop p Transport) (Follows enc ctr pieces) stalls (follow hlaw hfits)

/-! ## In step -/

/-- What has been opened and not delivered. -/
def opened (st : VmessAuthStream p Transport) : Bytes :=
  match st.readState with
  | .pending n => st.readBuf.take n
  | _ => []

/-- A reader that has opened `k` chunks and taken `j` lengths, its streams standing where the
writer's stood: the pieces of the chunks have been delivered, or are in its buffer. -/
def InStep (ctr : Counters) (pieces : List Bytes) (st : VmessAuthStream p Transport)
    (delivered : Bytes) : Prop :=
  ∃ k j, k ≤ j ∧ j ≤ k + 1 ∧ j ≤ pieces.length ∧ st.decNonce = (ctr.after k).nonce ∧
    st.decSize = (ctr.after j).size ∧ delivered ++ st.opened = (pieces.take k).flatten

theorem Follows.inStep {rest delivered : Bytes} (h : Follows enc ctr pieces st rest o)
    (hitems : pieces.flatten = delivered ++ rest) : InStep ctr pieces st delivered := by
  have hsplit : ∀ k, pieces.flatten = (pieces.take k).flatten ++ (pieces.drop k).flatten := by
    intro k
    rw [← List.flatten_append, List.take_append_drop]
  cases h with
  | @length k hstate _ _ _ hnonce hsize hk _ =>
      refine ⟨k, k, Nat.le_refl k, Nat.le_succ k, hk, hnonce, hsize, ?_⟩
      rw [opened, hstate, List.append_nil]
      exact (List.append_cancel_right ((hsplit k).symm.trans hitems)).symm
  | @data k piece rest hstate _ _ _ hnonce hsize hdrop _ =>
      have hk := congrArg List.length hdrop
      rw [List.length_drop, List.length_cons] at hk
      refine ⟨k, k + 1, Nat.le_succ k, Nat.le_refl _, by omega, hnonce, hsize, ?_⟩
      rw [opened, hstate, List.append_nil]
      exact (List.append_cancel_right ((hsplit k).symm.trans hitems)).symm
  | @pending k hstate _ _ _ hnonce hsize hk _ =>
      rw [← List.append_assoc] at hitems
      refine ⟨k, k, Nat.le_refl k, Nat.le_succ k, hk, hnonce, hsize, ?_⟩
      rw [opened, hstate]
      show delivered ++ st.readBuf.take st.readBuf.length = _
      rw [List.take_length]
      exact (List.append_cancel_right ((hsplit k).symm.trans hitems)).symm

/-- A reader of chunks that has the cipher, the nonces and the sizes of a writer. -/
def following (p : Primitives) (sess : ClientSession) (enc : BodyAead) (ctr : Counters)
    (inner : Transport) : VmessAuthStream p Transport :=
  { withCipher p inner sess enc with
    decNonce := ctr.nonce
    decSize := ctr.size
    readState := .length }

theorem follows_following (sess : ClientSession) {reads : List ReadEvent} (readEnd : End IoError)
    (hbytes : unread reads = ctr.chunks p enc pieces) :
    Follows enc ctr pieces (following p sess enc ctr (Transport.serving reads readEnd))
      pieces.flatten (readEnd.truncated earlyEof) :=
  .length (k := 0) rfl (Nat.zero_le _) (Nat.zero_le _) rfl rfl rfl (Nat.zero_le _) hbytes

end VmessAuthStream

namespace VmessWriteHalf

open VmessAuthStream (InStep following follows_following followSpec)

variable {p : Primitives} {sess : ClientSession} {security : String} {rng : Nat → UInt8}
  {writes : List WriteEvent} {calls : List (SinkCall UInt8)}
  {w : VmessWriteHalf p Transport} {c : Caller (VmessWriteHalf p Transport) UInt8}

/-- What a writer has handed on to a transport, and what is still to be handed on. -/
theorem Sealing.account {enc : BodyAead} {ctr : Counters} {st : VmessWriteHalf p Transport}
    {out : Option Bytes} {pieces : List Bytes}
    (h : Sealing (WriteLaw.spec.sink WriteLaw.flush_accepted []) enc ctr st out pieces) :
    ∃ (piece : Option Bytes) (unsent : Bytes),
      st.inner.written ++ unsent = ctr.chunks p enc (pieces ++ piece.toList) ∧
      st.counters = ctr.after (pieces ++ piece.toList).length ∧
      ctr.Fits (pieces ++ piece.toList) ∧
      (∀ q, piece = some q → ∃ buf, out = some buf ∧ q = nextPiece ctr pieces buf) ∧
      (piece = none → unsent = []) := by
  cases h with
  | idle _ h =>
      refine ⟨none, [], ?_⟩
      rw [Option.toList_none, List.append_nil pieces]
      exact ⟨h.held.accepted, h.counters, h.fits, nofun, fun _ => rfl⟩
  | @staged buf pieces total written _ _ _ h =>
      refine ⟨some (nextPiece ctr pieces buf), st.writeBuf, h.held.accepted, h.counters, h.fits,
        ?_, nofun⟩
      intro q hq
      cases hq
      exact ⟨buf, rfl, rfl⟩

/-- What a writer starts with. -/
theorem sealing_new
    (h : VmessWriteHalf.new p (Transport.accepting writes) sess security rng = .ok w) :
    Sealing (WriteLaw.spec.sink WriteLaw.flush_accepted []) w.enc w.counters w none [] := by
  rw [VmessWriteHalf.new] at h
  cases henc : BodyAead.new p security sess.requestBodyKey.bytes with
  | error e =>
      rw [henc] at h
      cases h
  | ok enc =>
      rw [henc] at h
      cases h
      exact .idle rfl ⟨rfl, rfl, rfl, fun k piece hk => (by cases hk), ⟨[], none, rfl, rfl, nofun⟩⟩

/-- Whatever is written, and whatever the transport accepts when: what it has accepted and what
is still to be handed on are a chunk for each piece, the reported ones and the one that is staged.
A chunk takes its padding and its mask off the next four bytes of the SHAKE stream, and its
length fits in sixteen bits.  However these bytes come in, a reader that starts from the
writer's streams delivers the pieces, in step with the writer at every poll. -/
theorem chunks_read_back
    (hnew : VmessWriteHalf.new p (Transport.accepting writes) sess security rng = .ok w)
    (hlaw : (w.enc.aead p).Lawful BodyAead.tagLen)
    (hrun : Run (Calls pollWrite pollFlush) (Caller.start w) calls c) :
    ∃ (piece : Option Bytes) (unsent : Bytes),
      let pieces := c.pieces ++ piece.toList
      c.sink.inner.written ++ unsent = w.counters.chunks p w.enc pieces ∧
      c.sink.counters = w.counters.after pieces.length ∧
      (∀ k i, (w.counters.after k).size.reader i = w.encSize.reader (4 * k + i)) ∧
      (∀ k q, pieces[k]? = some q →
        q ≠ [] ∧ (w.counters.after k).payloadLen q.length < 65536) ∧
      (∀ q, piece = some q →
        ∃ buf, c.outstanding = some buf ∧ q = nextPiece w.counters c.pieces buf) ∧
      (piece = none → unsent = []) ∧
      ∀ sess' reads readEnd, unread reads = c.sink.inner.written ++ unsent →
        let reader := following p sess' w.enc w.counters (Transport.serving reads readEnd)
        Delivers pollRead reader pieces.flatten (readEnd.truncated earlyEof) ∧
        ∀ caps, NonEmptyBuffers caps →
          let r := readAll pollRead caps reader
          r.ended = none → InStep w.counters pieces r.state r.items := by
  have hsealing := (sinkSpec p _ w.enc w.counters).reports_run hrun (sealing_new hnew)
  obtain ⟨piece, unsent, hwire, hcounters, hfits, hpiece, hnone⟩ := Sealing.account hsealing
  refine ⟨piece, unsent, hwire, hcounters, Counters.after_size _, ?_, hpiece, hnone, ?_⟩
  · intro k q hq
    obtain ⟨hne, hlen⟩ := hfits k q hq
    exact ⟨hne, Nat.lt_of_le_of_lt (Counters.payloadLen_le hlen) (by decide)⟩
  · intro sess' reads readEnd hbytes reader
    have hfollows := follows_following sess' readEnd (hbytes.trans hwire)
    refine ⟨(followSpec p hlaw hfits).delivers hfollows, ?_⟩
    intro caps hcaps r hend
    obtain ⟨rest, hitems, hy⟩ := (followSpec p hlaw hfits).readAll_yields hfollows hcaps hend
    exact hy.inStep hitems

/-- The cipher that `ChaCha20-Poly1305` names. -/
def sampleCipher : BodyAead :=
  .chaCha (BodyAead.chaChaKey .sums sampleSession.requestBodyKey.bytes)

/-- A write that is taken in parts, and another: both are read back. -/
theorem chunks_read_back_parts : ∃ c, Run (Calls pollWrite pollFlush)
    (Caller.start (withCipher .sums (Transport.accepting [.accept 3, .pending, .accept 9])
      sampleSession sampleCipher fun _ => 5))
    [.write [1, 2], .flush, .write [1, 2], .write [3]] c ∧ c.pieces = [[1, 2], [3]] ∧
    ∃ (piece : Option Bytes) (unsent : Bytes),
      let pieces := c.pieces ++ piece.toList
      let counters := (withCipher .sums () sampleSession sampleCipher fun _ => 5).counters
      c.sink.inner.written ++ unsent = counters.chunks .sums sampleCipher pieces ∧
      c.sink.counters = counters.after pieces.length ∧
      ∀ sess' reads readEnd, unread reads = c.sink.inner.written ++ unsent →
        let reader := following .sums sess' sampleCipher counters (Transport.serving reads readEnd)
        Delivers pollRead reader pieces.flatten (readEnd.truncated earlyEof) ∧
        ∀ caps, NonEmptyBuffers caps →
          let r := readAll pollRead caps reader
          r.ended = none → InStep counters pieces r.state r.items := by
  have hrun : Run (Calls pollWrite pollFlush) (Caller.start (withCipher .sums
      (Transport.accepting [.accept 3, .pending, .accept 9]) sampleSession sampleCipher fun _ => 5))
      [.write [1, 2], .flush, .write [1, 2], .write [3]] _ :=
    .snoc (.snoc (.snoc (.snoc .nil (.write _ _ nofun nofun)) (.flush _))
      (.write _ _ nofun (by intro b h; exact Caller.again h))) (.write _ _ nofun (by decide +kernel))
  have hnew : VmessWriteHalf.new .sums (Transport.accepting [.accept 3, .pending, .accept 9])
      sampleSession "ChaCha20-Poly1305" (fun _ => 5) = .ok _ := rfl
  obtain ⟨piece, unsent, hwire, hcounters, -, -, -, -, hread⟩ :=
    chunks_read_back hnew (keyTagged_lawful _) hrun
  exact ⟨_, hrun, by decide +kernel, piece, unsent, hwire, hcounters, hread⟩

end VmessWriteHalf

end RustClash
