import RustClash.Lib.ReadExact
import RustClash.Net.Transport

/-!
# Reading a number of bytes exactly from a transport

Where `readExact` stops over a transport: it waits with what it has, fails at the
end of the stream, or has the bytes.  The bytes `bs` that a reading of `size`
bytes has before it are those up to its cursor and those that are still to come.
-/

namespace RustClash

namespace Transport

/-- A reading that stops at a pending answer keeps the bytes it has. -/
structure Interrupted (bs : Bytes) (pos size : Nat) (t : Transport) (readBuf : Bytes)
    (readPos : Nat) (inner : Transport) : Prop where
  cursor : readPos ≤ readBuf.length
  early : readPos < size
  kept : readBuf.take readPos ++ unread inner.reads = bs
  readEnd : inner.readEnd = t.readEnd
  stalls : RustClash.stalls inner.reads < RustClash.stalls t.reads
  ahead : skip (size - readPos) inner.reads = skip (size - pos) t.reads
  stalled : calm (size - pos) t.reads = false

/-- A reading that gets its bytes met no pending answer. -/
structure Completed (bs : Bytes) (pos size : Nat) (t inner : Transport) : Prop where
  enough : size ≤ bs.length
  rest : unread inner.reads = bs.drop size
  readEnd : inner.readEnd = t.readEnd
  stalls : RustClash.stalls inner.reads ≤ RustClash.stalls t.reads
  ahead : inner.reads = skip (size - pos) t.reads
  calm : calm (size - pos) t.reads = true

/-- What `readExact` leaves: a cursor further on, the end of the stream, or the bytes at
the front of the buffer. -/
inductive Exactly (eof : IoError) (bs : Bytes) (pos size : Nat) (t : Transport) :
    Poll (IoResult Unit) × Bytes × Nat × Transport → Prop where
  | pending {readBuf : Bytes} {readPos : Nat} {inner : Transport} :
      Interrupted bs pos size t readBuf readPos inner →
      Exactly eof bs pos size t (.pending, readBuf, readPos, inner)
  | short {readBuf : Bytes} {readPos : Nat} {inner : Transport} {e : IoError} :
      bs.length < size → t.readEnd.truncated eof = .error e → inner.reads = [] →
      Exactly eof bs pos size t (.ready (.error e), readBuf, readPos, inner)
  | done {inner : Transport} : Completed bs pos size t inner →
      Exactly eof bs pos size t (.ready (.ok ()), bs.take size, 0, inner)

/-- What the reading of `size` bytes keeps: the bytes, how they end, and where the
pending answers are. -/
structure Reads (bs : Bytes) (pos size : Nat) (t₀ : Transport) (got : Bytes) (t : Transport) :
    Prop where
  bytes : got ++ unread t.reads = bs
  readEnd : t.readEnd = t₀.readEnd
  stalls : RustClash.stalls t.reads = RustClash.stalls t₀.reads
  skip : skip (size - got.length) t.reads = skip (size - pos) t₀.reads
  calm : calm (size - got.length) t.reads = calm (size - pos) t₀.reads

variable {bs : Bytes} {pos size : Nat} {t₀ : Transport}

theorem Reads.step {got : Bytes} {t t' : Transport} {d : Filled UInt8 (size - got.length)}
    (h : Reads bs pos size t₀ got t)
    (hr : pollRead t (size - got.length) = (.ready (.ok d), t')) (hd : d.items ≠ []) :
    Reads bs pos size t₀ (got ++ d.items) t' := by
  obtain ⟨hbytes, hend, hstalls, hskip, hcalm⟩ := Transport.read_places (Nat.le_refl _) hr hd
  have hleft : size - got.length - d.items.length = size - (got ++ d.items).length := by
    rw [List.length_append]
    omega
  rw [hleft] at hskip hcalm
  exact
    { bytes := by rw [List.append_assoc, ← hbytes, h.bytes]
      readEnd := hend.trans h.readEnd
      stalls := hstalls.trans h.stalls
      skip := hskip.symm.trans h.skip
      calm := hcalm.symm.trans h.calm }

theorem readExact_exactly (eof : IoError) {buf : Bytes} (hcursor : pos ≤ buf.length)
    (hsize : pos ≤ size) (hbytes : buf.take pos ++ unread t₀.reads = bs) :
    Exactly eof bs pos size t₀ (readExact pollRead eof 0 size buf pos t₀) := by
  have hstart : Reads bs pos size t₀ (buf.take pos) t₀ := by
    have hlen : (buf.take pos).length = pos := by
      rw [List.length_take]
      omega
    exact ⟨hbytes, rfl, rfl, by rw [hlen], by rw [hlen]⟩
  have h : ExactStop pollRead eof size (Reads bs pos size t₀) (readExact pollRead eof 0 size buf pos t₀) :=
    readExact_rule (fun hP _ hr hd => hP.step hr hd) 0 hcursor hsize hstart
  generalize readExact pollRead eof 0 size buf pos t₀ = r at h ⊢
  have hgot : ∀ {buf : Bytes} {pos : Nat}, buf.length = size → pos < size →
      (buf.take pos).length = pos := by
    intro buf pos hlen hpos
    rw [List.length_take]
    omega
  cases h with
  | @pending buf at_ t t' hlen hpos hP hr =>
      have hp := t.pollRead_polled (size - at_)
      rw [hr] at hp
      cases hp with
      | pending reads hreads =>
          obtain ⟨hbytes, hend, hstalls, hskip, hcalm⟩ := hP
          obtain ⟨k, hk⟩ := Nat.exists_eq_succ_of_ne_zero (Nat.sub_ne_zero_of_lt hpos)
          rw [hgot hlen hpos, hreads, hk] at hskip hcalm
          rw [hreads] at hbytes hstalls
          refine .pending ⟨by omega, hpos, hbytes, hend, ?_, ?_, hcalm.symm⟩
          · rw [← hstalls]
            exact Nat.lt_succ_self _
          · rw [hk]
            exact hskip
  | @error buf at_ t t' e hpos hlen hP hr =>
      have hp := t.pollRead_polled (size - at_)
      rw [hr] at hp
      cases hp with
      | error e hreads hend =>
          refine .short ?_ ?_ hreads
          · rw [← hP.bytes, hreads, unread, List.append_nil, hgot hlen hpos]
            exact hpos
          · rw [← hP.readEnd, hend]
            rfl
  | @eof buf at_ t t' d hpos hlen hP hr hd =>
      have hp := t.pollRead_polled (size - at_)
      rw [hr] at hp
      cases hp with
      | eof hreads hend =>
          refine .short ?_ ?_ hreads
          · rw [← hP.bytes, hreads, unread, List.append_nil, hgot hlen hpos]
            exact hpos
          · rw [← hP.readEnd, hend]
            rfl
      | data l reads hl hreads =>
          have hlen := congrArg List.length hd
          rw [Filled.fill_items, List.length_take, List.length_nil] at hlen
          have := List.length_pos_iff.mpr hl
          omega
  | @done buf t hlen hP =>
      obtain ⟨hbytes, hend, hstalls, hskip, hcalm⟩ := hP
      rw [hlen, Nat.sub_self, skip_zero] at hskip
      rw [hlen, Nat.sub_self, calm_zero] at hcalm
      have htake : bs.take size = buf := by
        rw [← hbytes, List.take_left' hlen]
      have hdrop : bs.drop size = unread t.reads := by
        rw [← hbytes, List.drop_left' hlen]
      rw [← htake]
      refine .done ⟨?_, hdrop.symm, hend, Nat.le_of_eq hstalls, hskip, hcalm.symm⟩
      rw [← hbytes, List.length_append]
      omega

end Transport

end RustClash
