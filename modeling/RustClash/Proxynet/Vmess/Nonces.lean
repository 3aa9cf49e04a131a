import RustClash.Net.Transport
import RustClash.Proxynet.Vmess.StreamWrite

/-!
# The nonces of a VMess session

A nonce is a counter of sixteen bits and ten bytes of the iv.  The counter starts at
`0xffff` and is stepped before each use, so the chunk `k` is sealed under the nonce of
`k % 65536`, whatever is written and whatever the layer below answers: nonces differ
within 65536 chunks, and the chunk behind these is sealed under the first nonce again.
-/

namespace RustClash

open Vmess

namespace Vmess

namespace VmessNonce

def after (n : VmessNonce) : Nat → VmessNonce
  | 0 => n
  | k + 1 => (n.after k).next.2

theorem after_next (n : VmessNonce) (k : Nat) : n.next.2.after k = (n.after k).next.2 := by
  induction k with
  | zero => rfl
  | succ k ih => rw [after, ih, after]

theorem after_size (n : VmessNonce) (k : Nat) : (n.after k).size = n.size := by
  induction k with
  | zero => rfl
  | succ k ih => exact ih

theorem after_count (n : VmessNonce) (k : Nat) :
    (n.after k).count = n.count + UInt16.ofNat k := by
  induction k with
  | zero => exact (UInt16.add_zero _).symm
  | succ k ih =>
    change (n.after k).count + 1 = _
    rw [ih, UInt16.add_assoc, UInt16.ofNat_add]
    rfl

/-- The counter is all that changes. -/
theorem drop_after (n : VmessNonce) (k : Nat) : (n.after k).nonce.drop 2 = n.nonce.drop 2 := by
  induction k with
  | zero => rfl
  | succ k ih =>
    change (toBe16 _ ++ (n.after k).nonce.drop 2).drop 2 = _
    rw [List.drop_left' (length_toBe16 _), ih]

/-- The counter starts behind the last number, so that the first use is of 0. -/
theorem new_after_next (iv : Bytes) (k : Nat) :
    ((new iv 12).after k).next.1 = toBe16 (k % 65536) ++ ((new iv 12).nonce.drop 2).take 10 := by
  have hcount : (((new iv 12).after k).count + 1).toNat = k % 65536 := by
    rw [after_count]
    change (65535 + UInt16.ofNat k + 1).toNat = _
    rw [UInt16.add_comm 65535, UInt16.add_assoc]
    change (UInt16.ofNat k + 0).toNat = _
    rw [UInt16.add_zero, UInt16.toNat_ofNat']
  simp only [next]
  rw [hcount, drop_after, after_size]
  change (toBe16 (k % 65536) ++ _).take ((toBe16 (k % 65536)).length + 10) = _
  exact List.take_length_add_append 10

theorem next_eq_iff (iv : Bytes) (i j : Nat) :
    ((new iv 12).after i).next.1 = ((new iv 12).after j).next.1 ↔ i % 65536 = j % 65536 := by
  rw [new_after_next, new_after_next]
  constructor
  · intro h
    have hpair : toBe16 (i % 65536) = toBe16 (j % 65536) := (List.append_inj h rfl).1
    rw [← ofBe16_getD_toBe16 (Nat.mod_lt i (by decide)), hpair,
      ofBe16_getD_toBe16 (Nat.mod_lt j (by decide))]
  · intro h
    rw [h]

end VmessNonce

end Vmess

namespace VmessWriteHalf

variable {p : Primitives} {σ : Type} [AsyncWrite σ]

/-! ## Calls, one after another -/

def call (st : VmessWriteHalf p σ) : SinkCall UInt8 → VmessWriteHalf p σ
  | .write buf => (pollWrite st buf).2
  | .flush => (pollFlush st).2

/-- The nonce of the chunk that a call seals: a write seals one, unless the last one is still
to be handed on. -/
def sealedWith (st : VmessWriteHalf p σ) : SinkCall UInt8 → Option Bytes
  | .write _ =>
      match st.writeState with
      | .chunk => some st.encNonce.next.1
      | .flush _ _ _ => none
  | .flush => none

def nonces (st : VmessWriteHalf p σ) : List (SinkCall UInt8) → List Bytes
  | [] => []
  | c :: calls => (st.sealedWith c).toList ++ (st.call c).nonces calls

theorem writeFlush_encNonce (st : VmessWriteHalf p σ) (consumed total written : Nat) :
    (st.writeFlush consumed total written).2.encNonce = st.encNonce := by
  simp only [writeFlush]
  split <;> rfl

/-- A call steps the counter if and only if it seals a chunk, under the nonce stepped to. -/
theorem call_encNonce (st : VmessWriteHalf p σ) (c : SinkCall UInt8) :
    (st.sealedWith c = some st.encNonce.next.1 ∧ (st.call c).encNonce = st.encNonce.next.2) ∨
      (st.sealedWith c = none ∧ (st.call c).encNonce = st.encNonce) := by
  cases c with
  | write buf =>
      cases hstate : st.writeState with
      | chunk =>
          simp only [sealedWith, call, pollWrite, hstate]
          exact .inl ⟨trivial, writeFlush_encNonce _ _ _ _⟩
      | flush consumed total written =>
          simp only [sealedWith, call, pollWrite, hstate]
          exact .inr ⟨trivial, writeFlush_encNonce _ _ _ _⟩
  | flush => exact .inr ⟨rfl, rfl⟩

theorem nonces_getElem? {st : VmessWriteHalf p σ} {calls : List (SinkCall UInt8)} {k : Nat}
    (h : k < (st.nonces calls).length) :
    (st.nonces calls)[k]? = some (st.encNonce.after k).next.1 := by
  induction calls generalizing st k with
  | nil => exact absurd h (Nat.not_lt_zero k)
  | cons c calls ih =>
    rw [nonces] at h ⊢
    rcases call_encNonce st c with ⟨hsealed, hnonce⟩ | ⟨hsealed, hnonce⟩
    · rw [hsealed, Option.toList_some, List.singleton_append] at h ⊢
      rcases k with _ | k
      · rfl
      · rw [List.getElem?_cons_succ, ih (Nat.lt_of_succ_lt_succ h), hnonce,
          VmessNonce.after_next, VmessNonce.after]
    · rw [hsealed, Option.toList_none, List.nil_append] at h ⊢
      rw [ih h, hnonce]

omit [AsyncWrite σ] in
theorem new_encNonce {inner : σ} {sess : ClientSession} {security : String} {rng : Nat → UInt8}
    {w : VmessWriteHalf p σ} (h : VmessWriteHalf.new p inner sess security rng = .ok w) :
    w.encNonce = .new sess.requestBodyIv.bytes 12 := by
  rw [VmessWriteHalf.new] at h
  cases henc : BodyAead.new p security sess.requestBodyKey.bytes with
  | error e =>
      rw [henc] at h
      cases h
  | ok enc =>
      rw [henc] at h
      cases h
      rfl

/-- Whatever is written and whatever the layer below answers: two chunks of a session are sealed
under one nonce if and only if their numbers are equal modulo 65536. -/
theorem nonces_eq_iff {inner : σ} {sess : ClientSession} {security : String}
    {rng : Nat → UInt8} {w : VmessWriteHalf p σ}
    (hnew : VmessWriteHalf.new p inner sess security rng = .ok w) (calls : List (SinkCall UInt8))
    {i j : Nat} (hi : i < (w.nonces calls).length) (hj : j < (w.nonces calls).length) :
    (w.nonces calls)[i]? = (w.nonces calls)[j]? ↔ i % 65536 = j % 65536 := by
  rw [nonces_getElem? hi, nonces_getElem? hj, new_encNonce hnew, Option.some_inj]
  exact VmessNonce.next_eq_iff _ i j

/-! ## A long upload -/

/-- A transport that takes everything: each write seals a chunk and hands it on. -/
theorem writeFlush_taken (st : VmessWriteHalf p Transport) (consumed : Nat)
    (htaken : st.inner.writes = []) (hbuf : st.writeBuf ≠ []) :
    (st.writeFlush consumed st.writeBuf.length 0).2.writeState = .chunk ∧
      (st.writeFlush consumed st.writeBuf.length 0).2.inner.writes = [] := by
  obtain ⟨n, hn⟩ := Nat.exists_eq_add_one_of_ne_zero (mt List.length_eq_zero_iff.mp hbuf)
  have hpass : (handOnLoop (pollWrite : WriteFn Transport UInt8 IoError) earlyEof
      st.writeBuf.length).body (st.writeBuf, 0, st.inner) = .inr (.ready (.ok ()),
        st.writeBuf.drop (n + 1), 0 + (n + 1), st.inner.accept st.writeBuf (n + 1)) := by
    simp only [handOnLoop, handOnPass, pollWrite, htaken, hn, Nat.zero_add, Nat.le_refl, if_true]
  simp only [writeFlush, handOn]
  rw [Loop.run_inr hpass]
  exact ⟨rfl, htaken⟩

theorem pollWrite_taken {st : VmessWriteHalf p Transport} (hstate : st.writeState = .chunk)
    (htaken : st.inner.writes = []) (buf : Bytes) :
    (pollWrite st buf).2.writeState = .chunk ∧ (pollWrite st buf).2.inner.writes = [] := by
  simp only [pollWrite, hstate, writeChunk]
  exact writeFlush_taken _ _ htaken
    (List.append_ne_nil_of_left_ne_nil (List.cons_ne_nil _ _) _)

theorem length_nonces_taken (buf : Bytes) (k : Nat) {st : VmessWriteHalf p Transport}
    (hstate : st.writeState = .chunk) (htaken : st.inner.writes = []) :
    (st.nonces (List.replicate k (.write buf))).length = k := by
  induction k generalizing st with
  | zero => rfl
  | succ k ih =>
    have hafter := pollWrite_taken hstate htaken buf
    rw [List.replicate_succ, nonces, List.length_append]
    simp only [sealedWith, hstate, call]
    rw [ih hafter.1 hafter.2, Option.toList_some, List.length_singleton, Nat.add_comm]

/-- A session of the sample keys over a transport that takes everything. -/
def sampleWriter : VmessWriteHalf .sums Transport :=
  withCipher .sums (Transport.accepting []) sampleSession
    (.chaCha (BodyAead.chaChaKey .sums sampleSession.requestBodyKey.bytes)) fun _ => 5

theorem new_sampleWriter : VmessWriteHalf.new .sums (Transport.accepting []) sampleSession
    "ChaCha20-Poly1305" (fun _ => 5) = .ok sampleWriter := rfl

theorem length_nonces_sample (k : Nat) :
    (sampleWriter.nonces (List.replicate k (.write [1]))).length = k :=
  length_nonces_taken [1] k rfl rfl

/-- Three writes of one byte. -/
theorem nonces_eq_iff_sample :
    (sampleWriter.nonces (List.replicate 3 (.write [1])))[0]? =
      (sampleWriter.nonces (List.replicate 3 (.write [1])))[2]? ↔ 0 % 65536 = 2 % 65536 :=
  nonces_eq_iff new_sampleWriter _
    (by rw [length_nonces_sample]; decide) (by rw [length_nonces_sample]; decide)

/-- The first nonce is used again for the chunk behind 65536 others. -/
theorem not_nonces_distinct : ∃ (w : VmessWriteHalf .sums Transport)
    (calls : List (SinkCall UInt8)) (i j : Nat) (nonce : Bytes),
    VmessWriteHalf.new .sums (Transport.accepting []) sampleSession "ChaCha20-Poly1305"
      (fun _ => 5) = .ok w ∧
    i ≠ j ∧ (w.nonces calls)[i]? = some nonce ∧ (w.nonces calls)[j]? = some nonce := by
  have hlen := length_nonces_sample 65537
  refine ⟨sampleWriter, List.replicate 65537 (.write [1]), 0, 65536,
    (sampleWriter.encNonce.after 0).next.1, new_sampleWriter, by decide, ?_, ?_⟩
  · exact nonces_getElem? (by rw [hlen]; decide)
  · rw [nonces_getElem? (by rw [hlen]; decide)]
    exact congrArg some ((VmessNonce.next_eq_iff _ 65536 0).mpr rfl)

end VmessWriteHalf

end RustClash
