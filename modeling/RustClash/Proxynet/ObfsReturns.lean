import RustClash.Lib.Loop
import RustClash.Proxynet.HttpObfs
import RustClash.Proxynet.TlsObfsWrite

/-!
# Whether an obfs writer returns

`poll_write` of the two obfs streams is a loop over a layer below, and that layer may answer
anything.  A staged request or hello is offered again until all of it is taken, also where nothing
was taken; and a header for no bytes is followed by another.  So a call returns if and only if
the layer below makes it (`writes_return_iff`): the layer is an infinite sequence of answers.
-/

namespace RustClash

/-- A layer below that gives these answers, one after another. -/
structure Answering where
  answers : Nat → Poll (IoResult Nat)

namespace Answering

/-- What is answered to an offer of `len` bytes: a count is never above it. -/
def reply (len : Nat) : Poll (IoResult Nat) → Poll (IoResult Nat)
  | .ready (.ok n) => .ready (.ok (min n len))
  | .ready (.error e) => .ready (.error e)
  | .pending => .pending

/-- The layer behind its first answer. -/
def rest (s : Answering) : Answering := ⟨fun n => s.answers (n + 1)⟩

instance : AsyncWrite Answering where
  pollWrite s buf := (reply buf.length (s.answers 0), s.rest)
  pollFlush s := (.ready (.ok ()), s)

/-- The sum of the first answers, if all of them are counts. -/
def total (s : Answering) : Nat → Option Nat
  | 0 => some 0
  | k + 1 =>
      match s.answers 0 with
      | .ready (.ok n) => (total s.rest k).map (n + ·)
      | _ => none

/-- One of the first answers is no count, or they come up to `len`. -/
def ReachesIn (s : Answering) (len k : Nat) : Prop := ∀ sum, s.total k = some sum → len ≤ sum

/-- Some answer is no count, or the counts come up to `len`. -/
def Reaches (s : Answering) (len : Nat) : Prop := ∃ k, s.ReachesIn len k

/-- Some answer is no count, or a count of nothing. -/
def Stops (s : Answering) : Prop := ∃ k, ∀ n, s.answers k ≠ .ready (.ok (n + 1))

variable {s : Answering} {len n : Nat}

theorem reaches_zero (s : Answering) : s.Reaches 0 := ⟨0, fun _ _ => Nat.zero_le _⟩

theorem reaches_of_no_count (h : ∀ n, s.answers 0 ≠ .ready (.ok n)) (len : Nat) :
    s.Reaches len := by
  refine ⟨1, fun sum hsum => ?_⟩
  rw [total] at hsum
  split at hsum
  · next n hn => exact absurd hn (h n)
  · cases hsum

theorem total_succ (h : s.answers 0 = .ready (.ok n)) (k : Nat) :
    s.total (k + 1) = (s.rest.total k).map (n + ·) := by
  rw [total, h]

theorem reachesIn_count (h : s.answers 0 = .ready (.ok n)) {k : Nat} :
    s.ReachesIn len (k + 1) ↔ s.rest.ReachesIn (len - n) k := by
  constructor
  · intro hk sum hsum
    have := hk (n + sum) (by rw [total_succ h, hsum]; rfl)
    omega
  · intro hk sum hsum
    rw [total_succ h] at hsum
    obtain ⟨sum', hsum', rfl⟩ := Option.map_eq_some_iff.mp hsum
    have := hk sum' hsum'
    omega

theorem reaches_count (h : s.answers 0 = .ready (.ok n)) :
    s.Reaches len ↔ s.rest.Reaches (len - n) := by
  constructor
  · rintro ⟨k, hk⟩
    cases k with
    | zero =>
        have hlen := hk 0 rfl
        rw [Nat.le_zero.mp hlen, Nat.zero_sub]
        exact reaches_zero _
    | succ k => exact ⟨k, (reachesIn_count h).mp hk⟩
  · rintro ⟨k, hk⟩
    exact ⟨k + 1, (reachesIn_count h).mpr hk⟩

theorem pollWriteBuf_count {cur : Cursor} (hne : cur.remaining ≠ [])
    (h : s.answers 0 = .ready (.ok n)) :
    pollWriteBuf s cur = (.ready (.ok (min n cur.remaining.length)),
      cur.advance (min n cur.remaining.length), s.rest) := by
  rw [pollWriteBuf, if_neg (by simpa using hne)]
  simp only [pollWrite, h, reply]

theorem pollWriteBuf_no_count {cur : Cursor} (hne : cur.remaining ≠ [])
    (h : ∀ n, s.answers 0 ≠ .ready (.ok n)) (m : Nat) (cur' : Cursor) (s' : Answering) :
    pollWriteBuf s cur ≠ (.ready (.ok m), cur', s') := by
  rw [pollWriteBuf, if_neg (by simpa using hne)]
  simp only [pollWrite]
  rcases ha : s.answers 0 with _ | e | n
  · intro hp
    cases hp
  · intro hp
    cases hp
  · exact absurd ha (h n)

end Answering

/-! ## Staged buffers -/

section

variable {τ ρ : Type} {body : τ → τ ⊕ ρ} {flush : Cursor → Answering → τ}

/-- In the states `flush` the loop offers what is staged, and returns when all of it is taken, or
when it is answered with no count. -/
structure Flushes (body : τ → τ ⊕ ρ) (flush : Cursor → Answering → τ) : Prop where
  goes : ∀ {cur s n cur' s'}, pollWriteBuf s cur = (.ready (.ok n), cur', s') →
    cur'.pos < cur'.data.length → body (flush cur s) = .inl (flush cur' s')
  returns : ∀ {cur s}, (∀ n cur' s', pollWriteBuf s cur = (.ready (.ok n), cur', s') →
    cur'.data.length ≤ cur'.pos) → ∃ r, body (flush cur s) = .inr r

/-- With nothing left to offer, a count leaves nothing to offer. -/
theorem count_of_done {cur : Cursor} (hnil : cur.remaining = []) (s : Answering) :
    ∀ n cur' s', pollWriteBuf s cur = (.ready (.ok n), cur', s') → cur'.data.length ≤ cur'.pos := by
  intro n cur' s' hp
  rw [pollWriteBuf, if_pos (by simpa using hnil)] at hp
  cases hp
  exact Cursor.remaining_eq_nil.mp hnil

/-- A pass over a staged buffer. -/
theorem Flushes.step (h : Flushes body flush) (cur : Cursor) (s : Answering) :
    ((∃ r, body (flush cur s) = .inr r) ∧ s.Reaches cur.remaining.length) ∨
      ∃ cur' s', body (flush cur s) = .inl (flush cur' s') ∧
        (s'.Reaches cur'.remaining.length → s.Reaches cur.remaining.length) ∧
        ∀ k, s.ReachesIn cur.remaining.length (k + 1) → s'.ReachesIn cur'.remaining.length k := by
  by_cases hnil : cur.remaining = []
  · refine .inl ⟨h.returns (count_of_done hnil s), ?_⟩
    rw [hnil]
    exact Answering.reaches_zero s
  · by_cases hcount : ∃ n, s.answers 0 = .ready (.ok n)
    · obtain ⟨n, hn⟩ := hcount
      have hpoll := Answering.pollWriteBuf_count hnil hn
      have hlen : (cur.advance (min n cur.remaining.length)).remaining.length =
          cur.remaining.length - n := by
        rw [Cursor.remaining_advance, List.length_drop]
        omega
      by_cases hend : cur.remaining.length ≤ n
      · refine .inl ⟨h.returns fun m cur' s' hp => ?_, ?_⟩
        · cases hpoll.symm.trans hp
          rw [← Cursor.remaining_eq_nil, ← List.length_eq_zero_iff, hlen]
          omega
        · rw [Answering.reaches_count hn, Nat.sub_eq_zero_of_le hend]
          exact Answering.reaches_zero _
      · refine .inr ⟨_, s.rest, h.goes hpoll ?_, ?_, fun k => ?_⟩
        · rw [← Nat.not_le, ← Cursor.remaining_eq_nil, ← List.length_eq_zero_iff, hlen]
          omega
        · rw [Answering.reaches_count hn, hlen]
          exact id
        · rw [Answering.reachesIn_count hn, hlen]
          exact id
    · have hno : ∀ n, s.answers 0 ≠ .ready (.ok n) := fun n hn => hcount ⟨n, hn⟩
      refine .inl ⟨h.returns fun n cur' s' hp => ?_, Answering.reaches_of_no_count hno _⟩
      exact absurd hp (Answering.pollWriteBuf_no_count hnil hno n cur' s')

theorem Flushes.returns_iff (h : Flushes body flush) (cur : Cursor) (s : Answering) :
    Returns body (flush cur s) ↔ s.Reaches cur.remaining.length := by
  constructor
  · intro hr
    generalize hst : flush cur s = st at hr
    induction hr generalizing cur s with
    | done hb =>
        subst hst
        rcases h.step cur s with ⟨-, hreach⟩ | ⟨cur', s', hb', -⟩
        · exact hreach
        · cases hb.symm.trans hb'
    | again hb _ ih =>
        subst hst
        rcases h.step cur s with ⟨-, hreach⟩ | ⟨cur', s', hb', hreach, -⟩
        · exact hreach
        · cases hb.symm.trans hb'
          exact hreach (ih cur' s' rfl)
  · rintro ⟨k, hk⟩
    induction k generalizing cur s with
    | zero =>
      have hnil : cur.remaining = [] := List.length_eq_zero_iff.mp (Nat.le_zero.mp (hk 0 rfl))
      obtain ⟨r, hr⟩ := h.returns (count_of_done hnil s)
      exact .done hr
    | succ k ih =>
      rcases h.step cur s with ⟨⟨r, hr⟩, -⟩ | ⟨cur', s', hb, -, hfewer⟩
      · exact .done hr
      · exact .again hb (ih cur' s' (hfewer k hk))

end

open HttpObfs TlsObfs

/-! ## The HTTP stream -/

namespace HttpObfsStream

variable {b : Base64}

/-- The answers of the layer below make a write return. -/
def MadeToReturn (st : HttpObfsStream b Answering) (buf : Bytes) : Prop :=
  match st.write with
  | .first => st.inner.Reaches (buildHttpRequest b st.path st.host buf st.draws).length
  | .flush cur => st.inner.Reaches cur.remaining.length
  | .transfer => True

theorem flushes (st : HttpObfsStream b Answering) (buf : Bytes) :
    Flushes (fun st : HttpObfsStream b Answering => st.writePass buf)
      fun cur s => { st with inner := s, write := .flush cur } where
  goes := by
    intro cur s n cur' s' hp hpos
    simp only [writePass, hp]
    rw [if_neg (Nat.not_le.mpr hpos)]
  returns := by
    intro cur s hend
    simp only [writePass]
    rcases hp : pollWriteBuf s cur with ⟨_ | e | n, cur', s'⟩
    · exact ⟨_, rfl⟩
    · exact ⟨_, rfl⟩
    · dsimp only
      rw [if_pos (hend n cur' s' hp)]
      exact ⟨_, rfl⟩

theorem write_returns_iff (st : HttpObfsStream b Answering) (buf : Bytes) :
    Returns (fun st : HttpObfsStream b Answering => st.writePass buf) st ↔ st.MadeToReturn buf := by
  rw [MadeToReturn]
  cases hwrite : st.write with
  | first =>
      have hstaged := (st.flushes buf).returns_iff
        (.new (buildHttpRequest b st.path st.host buf st.draws)) st.inner
      rw [Cursor.remaining_new] at hstaged
      refine Iff.trans (Returns.again_iff ?_) hstaged
      simp only [writePass, hwrite]
  | flush cur =>
      have hstaged := (st.flushes buf).returns_iff cur st.inner
      rw [← hwrite] at hstaged
      exact hstaged
  | transfer =>
      refine iff_of_true (.done (r := ((pollWrite st.inner buf).1,
        { st with inner := (pollWrite st.inner buf).2 })) ?_) trivial
      simp only [writePass, hwrite]

end HttpObfsStream

/-! ## The TLS stream -/

namespace TlsObfsWriteHalf

section

variable {σ : Type} [AsyncWrite σ]

/-- The header state, which goes round behind every header. -/
def passHdrOn (st : TlsObfsWriteHalf σ) (payload : UInt16) (off : Nat) :
    TlsObfsWriteHalf σ ⊕ (Poll (IoResult Nat) × TlsObfsWriteHalf σ) :=
  match pollWrite st.inner ((header payload).drop off) with
  | (.pending, inner) => .inr (.pending, { st with inner })
  | (.ready (.error e), inner) => .inr (.ready (.error e), { st with inner })
  | (.ready (.ok 0), inner) => .inr (.ready (.error headerZero), { st with inner })
  | (.ready (.ok (n + 1)), inner) =>
      if 5 ≤ off + (n + 1) then .inl { st with inner, write := .recBody payload.toNat }
      else .inl { st with inner, write := .recHdr payload (off + (n + 1)) }

/-- One pass of the loop of `poll_write`, for any buffer. -/
def passOn (st : TlsObfsWriteHalf σ) (buf : Bytes) :
    TlsObfsWriteHalf σ ⊕ (Poll (IoResult Nat) × TlsObfsWriteHalf σ) :=
  match st.write with
  | .recHdr payload off => st.passHdrOn payload off
  | _ => st.writePass buf

theorem passHdrOn_eq (st : TlsObfsWriteHalf σ) {buf : Bytes} (h : buf ≠ []) (payload : UInt16)
    (off : Nat) : st.passHdrOn payload off = st.passHdr buf payload off := by
  rw [passHdrOn, passHdr]
  rcases pollWrite st.inner ((header payload).drop off) with ⟨_ | _ | _ | n, inner⟩
  · rfl
  · rfl
  · rfl
  · simp only [h, and_false, if_false]

/-- The passes differ only where an empty write has no end. -/
theorem passOn_eq (st : TlsObfsWriteHalf σ) {buf : Bytes} (h : buf ≠ []) :
    st.passOn buf = st.writePass buf := by
  rw [passOn]
  split
  · next payload off hwrite =>
      rw [writePass, hwrite]
      exact st.passHdrOn_eq h payload off
  · rfl

end

/-- The answers of the layer below make a write return.  (`off` is below 5 in all states that
the stream takes.) -/
def MadeToReturn (st : TlsObfsWriteHalf Answering) (buf : Bytes) : Prop :=
  match st.write with
  | .hello =>
      st.inner.Reaches
        (buildTlsClientHello (utf8 st.host) (buf.take maxPayload) st.draws).length
  | .flush cur => st.inner.Reaches cur.remaining.length
  | .recHdr payload off => payload ≠ 0 ∨ buf ≠ [] ∨ 5 ≤ off ∨ st.inner.Stops
  | .recBody left => left ≠ 0 ∨ buf ≠ [] ∨ st.inner.Stops

variable {st : TlsObfsWriteHalf Answering} {buf : Bytes} {left : Nat}

theorem flushes (st : TlsObfsWriteHalf Answering) (buf : Bytes) :
    Flushes (fun st : TlsObfsWriteHalf Answering => st.passOn buf)
      fun cur s => { st with inner := s, write := .flush cur } where
  goes := by
    intro cur s n cur' s' hp hpos
    simp only [passOn, writePass, passFlush, hp]
    rw [if_neg (Nat.not_le.mpr hpos)]
  returns := by
    intro cur s hend
    simp only [passOn, writePass, passFlush]
    rcases hp : pollWriteBuf s cur with ⟨_ | e | n, cur', s'⟩
    · exact ⟨_, rfl⟩
    · exact ⟨_, rfl⟩
    · dsimp only
      rw [if_pos (hend n cur' s' hp)]
      exact ⟨_, rfl⟩

/-- A pass over a header. -/
inductive HdrPass (st : TlsObfsWriteHalf Answering) (payload : UInt16) (off : Nat) :
    TlsObfsWriteHalf Answering ⊕ (Poll (IoResult Nat) × TlsObfsWriteHalf Answering) → Prop
| done {r : Poll (IoResult Nat) × TlsObfsWriteHalf Answering} :
  (5 ≤ off ∨ ∀ n, st.inner.answers 0 ≠ .ready (.ok (n + 1))) ->
  HdrPass st payload off (.inr r)
| more {n : Nat} :
  st.inner.answers 0 = .ready (.ok (n + 1)) ->
  off + (n + 1) < 5 ->
  HdrPass st payload off
    (.inl { st with inner := st.inner.rest, write := .recHdr payload (off + (n + 1)) })
| body {n : Nat} :
  st.inner.answers 0 = .ready (.ok (n + 1)) ->
  off < 5 ->
  HdrPass st payload off
    (.inl { st with inner := st.inner.rest, write := .recBody payload.toNat })

theorem passHdrOn_spec (st : TlsObfsWriteHalf Answering) (payload : UInt16) (off : Nat) :
    HdrPass st payload off (st.passHdrOn payload off) := by
  have hlen : ((header payload).drop off).length = 5 - off := by
    rw [List.length_drop, length_header]
  simp only [passHdrOn, pollWrite, hlen]
  rcases ha : st.inner.answers 0 with _ | e | n
  · exact .done (.inr fun n h => by rw [ha] at h; cases h)
  · exact .done (.inr fun n h => by rw [ha] at h; cases h)
  · simp only [Answering.reply]
    rcases n with _ | n
    · rw [Nat.zero_min]
      exact .done (.inr fun n h => by rw [ha] at h; cases h)
    · rcases Nat.lt_or_ge off 5 with hoff | hoff
      · have hmin : ∃ m, min (n + 1) (5 - off) = m + 1 ∧ (m = n ∨ 5 ≤ off + (m + 1)) := by
          refine ⟨min (n + 1) (5 - off) - 1, by omega, by omega⟩
        obtain ⟨m, hm, hmn⟩ := hmin
        rw [hm]
        dsimp only
        split
        · exact .body ha hoff
        · next hless =>
            rcases hmn with rfl | hmore
            · exact .more ha (Nat.not_le.mp hless)
            · exact absurd hmore hless
      · rw [Nat.sub_eq_zero_of_le hoff, Nat.min_zero]
        exact .done (.inl hoff)

theorem returns_body (hwrite : st.write = .recBody left) (hleft : left ≠ 0) :
    Returns (fun st : TlsObfsWriteHalf Answering => st.passOn buf) st := by
  obtain ⟨left, rfl⟩ := Nat.exists_eq_succ_of_ne_zero hleft
  have hpass : st.passOn buf = st.passBody buf (left + 1) := by
    simp only [passOn, writePass, hwrite]
  have hr : ∃ r, st.passBody buf (left + 1) = .inr r := by
    rw [passBody]
    rcases pollWrite st.inner (buf.take (left + 1)) with ⟨_ | _ | _ | n, inner⟩ <;> exact ⟨_, rfl⟩
  obtain ⟨r, hr⟩ := hr
  exact .done (hpass.trans hr)

theorem passOn_hdr (buf : Bytes) {payload : UInt16} {off : Nat}
    (hwrite : st.write = .recHdr payload off) : st.passOn buf = st.passHdrOn payload off := by
  rw [passOn, hwrite]

/-- A call returns from a header if it does from the body behind it, whatever is answered. -/
theorem returns_hdr {payload : UInt16} {off : Nat} (hwrite : st.write = .recHdr payload off)
    (hbody : ∀ inner, Returns (fun st : TlsObfsWriteHalf Answering => st.passOn buf)
      { st with inner, write := .recBody payload.toNat }) :
    Returns (fun st : TlsObfsWriteHalf Answering => st.passOn buf) st := by
  induction hn : 5 - off using Nat.strongRecOn generalizing st off with
  | _ n ih =>
      have hpass := passOn_hdr buf hwrite
      have hspec := st.passHdrOn_spec payload off
      generalize st.passHdrOn payload off = r at hpass hspec
      cases hspec with
      | done _ => exact .done hpass
      | body _ _ => exact .again hpass (hbody _)
      | more _ hlt => exact .again hpass (ih _ (by omega) rfl (fun inner => hbody inner) rfl)

/-- A header for bytes is followed by its body, and so is one that is made for a write of bytes. -/
theorem returns_of_bytes (h : (∃ payload off, st.write = .recHdr payload off ∧
    (payload ≠ 0 ∨ buf ≠ [])) ∨ st.write = .recBody 0 ∧ buf ≠ []) :
    Returns (fun st : TlsObfsWriteHalf Answering => st.passOn buf) st := by
  have hpayload : ∀ {st : TlsObfsWriteHalf Answering} {payload : UInt16} {off : Nat},
      st.write = .recHdr payload off → payload ≠ 0 →
        Returns (fun st : TlsObfsWriteHalf Answering => st.passOn buf) st := by
    intro st payload off hwrite hne
    exact returns_hdr hwrite fun inner => returns_body rfl fun h => hne (UInt16.toNat_inj.mp h)
  have hempty : ∀ {st : TlsObfsWriteHalf Answering}, st.write = .recBody 0 → buf ≠ [] →
      Returns (fun st : TlsObfsWriteHalf Answering => st.passOn buf) st := by
    intro st hwrite hne
    have hpass : st.passOn buf = .inl { st with write := .recHdr (payloadOf buf) 0 } := by
      simp only [passOn, writePass, hwrite]
    exact .again hpass (hpayload rfl (payloadOf_ne_zero hne))
  rcases h with ⟨payload, off, hwrite, hne⟩ | ⟨hwrite, hne⟩
  · by_cases hzero : payload = 0
    · have hne := hne.resolve_left (not_not.mpr hzero)
      refine returns_hdr hwrite fun inner => hempty ?_ hne
      rw [hzero]
      rfl
    · exact hpayload hwrite hzero
  · exact hempty hwrite hne

/-! ## Headers for no bytes -/

theorem passOn_body_zero (hwrite : st.write = .recBody 0) :
    st.passOn buf = .inl { st with write := .recHdr (payloadOf buf) 0 } := by
  simp only [passOn, writePass, hwrite]

/-- An empty write returns at the first answer that is no count, or a count of nothing. -/
theorem returns_of_stops {k off : Nat} (hwrite : st.write = .recHdr 0 off)
    (hk : ∀ n, st.inner.answers k ≠ .ready (.ok (n + 1))) :
    Returns (fun st : TlsObfsWriteHalf Answering => st.passOn []) st := by
  induction k generalizing st off with
  | zero =>
    have hpass := passOn_hdr [] hwrite
    have hspec := st.passHdrOn_spec 0 off
    generalize st.passHdrOn 0 off = r at hpass hspec
    cases hspec with
    | done _ => exact .done hpass
    | more ha _ => exact absurd ha (hk _)
    | body ha _ => exact absurd ha (hk _)
  | succ k ih =>
    have hpass := passOn_hdr [] hwrite
    have hspec := st.passHdrOn_spec 0 off
    generalize st.passHdrOn 0 off = r at hpass hspec
    cases hspec with
    | done _ => exact .done hpass
    | more _ _ => exact .again hpass (ih rfl hk)
    | body _ _ => exact .again hpass (.again (passOn_body_zero rfl) (ih rfl hk))

/-- The states that an empty write goes round in. -/
def Spinning (st : TlsObfsWriteHalf Answering) : Prop :=
  (st.write = .recBody 0 ∨ ∃ off, off < 5 ∧ st.write = .recHdr 0 off) ∧ ¬ st.inner.Stops

theorem spinning_goes_on (h : Spinning st) :
    ∃ st', st.passOn [] = .inl st' ∧ Spinning st' := by
  obtain ⟨hwrite | ⟨off, hoff, hwrite⟩, hstops⟩ := h
  · exact ⟨_, passOn_body_zero hwrite, .inr ⟨0, by decide, rfl⟩, hstops⟩
  · have hrest : ¬ st.inner.rest.Stops := by
      rintro ⟨k, hk⟩
      exact hstops ⟨k + 1, hk⟩
    have hpass := passOn_hdr [] hwrite
    have hspec := st.passHdrOn_spec 0 off
    generalize st.passHdrOn 0 off = r at hpass hspec
    cases hspec with
    | done hdone =>
        rcases hdone with hge | hno
        · exact absurd hoff (Nat.not_lt.mpr hge)
        · exact absurd ⟨0, hno⟩ hstops
    | more _ hlt => exact ⟨_, hpass, .inr ⟨_, hlt, rfl⟩, hrest⟩
    | body _ _ => exact ⟨_, hpass, .inl rfl, hrest⟩

theorem not_returns_of_spinning (h : Spinning st) :
    ¬ Returns (fun st : TlsObfsWriteHalf Answering => st.passOn []) st :=
  Returns.not_of_invariant (I := Spinning) (fun _ => spinning_goes_on) h

theorem write_returns_iff (st : TlsObfsWriteHalf Answering) (buf : Bytes) :
    Returns (fun st : TlsObfsWriteHalf Answering => st.passOn buf) st ↔ st.MadeToReturn buf := by
  rw [MadeToReturn]
  cases hwrite : st.write with
  | hello =>
      have hstaged := (st.flushes buf).returns_iff
        (.new (buildTlsClientHello (utf8 st.host) (buf.take maxPayload) st.draws)) st.inner
      rw [Cursor.remaining_new] at hstaged
      refine Iff.trans (Returns.again_iff ?_) hstaged
      simp only [passOn, writePass, hwrite]
  | flush cur =>
      have hstaged := (st.flushes buf).returns_iff cur st.inner
      rw [← hwrite] at hstaged
      exact hstaged
  | recHdr payload off =>
      constructor
      · intro hr
        by_contra hnot
        simp only [not_or, not_not] at hnot
        obtain ⟨rfl, rfl, hoff, hstops⟩ := hnot
        exact not_returns_of_spinning ⟨.inr ⟨off, Nat.not_le.mp hoff, hwrite⟩, hstops⟩ hr
      · rintro (hne | hne | hoff | ⟨k, hk⟩)
        · exact returns_of_bytes (.inl ⟨payload, off, hwrite, .inl hne⟩)
        · exact returns_of_bytes (.inl ⟨payload, off, hwrite, .inr hne⟩)
        · have hspec := st.passHdrOn_spec payload off
          have hpass := passOn_hdr buf hwrite
          generalize st.passHdrOn payload off = r at hpass hspec
          cases hspec with
          | done _ => exact .done hpass
          | more _ hlt => omega
          | body _ hlt => omega
        · by_cases hbytes : payload ≠ 0 ∨ buf ≠ []
          · exact returns_of_bytes (.inl ⟨payload, off, hwrite, hbytes⟩)
          · simp only [not_or, not_not] at hbytes
            obtain ⟨rfl, rfl⟩ := hbytes
            exact returns_of_stops hwrite hk
  | recBody left =>
      constructor
      · intro hr
        by_contra hnot
        simp only [not_or, not_not] at hnot
        obtain ⟨rfl, rfl, hstops⟩ := hnot
        exact not_returns_of_spinning ⟨.inl hwrite, hstops⟩ hr
      · intro h
        by_cases hleft : left = 0
        · subst hleft
          rcases h with hne | hne | ⟨k, hk⟩
          · exact absurd rfl hne
          · exact returns_of_bytes (.inr ⟨hwrite, hne⟩)
          · by_cases hbuf : buf = []
            · subst hbuf
              exact .again (passOn_body_zero hwrite) (returns_of_stops (k := k) rfl hk)
            · exact returns_of_bytes (.inr ⟨hwrite, hbuf⟩)
        · exact returns_body hwrite hleft

/-- In every state, for every buffer and all answers of the layer below: a write returns after
finitely many passes if and only if the answers make it. -/
theorem writes_return_iff {b : Base64} (http : HttpObfsStream b Answering)
    (tls : TlsObfsWriteHalf Answering) (buf : Bytes) :
    (Returns (fun st : HttpObfsStream b Answering => st.writePass buf) http ↔
      http.MadeToReturn buf) ∧
    (Returns (fun st : TlsObfsWriteHalf Answering => st.passOn buf) tls ↔ tls.MadeToReturn buf) :=
  ⟨HttpObfsStream.write_returns_iff http buf, write_returns_iff tls buf⟩

/-- A layer that takes nothing, and says so each time. -/
def refusing : Answering := ⟨fun _ => .ready (.ok 0)⟩

/-- A layer that takes everything. -/
def accepting : Answering := ⟨fun _ => .ready (.ok 65536)⟩

theorem total_refusing (k : Nat) : refusing.total k = some 0 := by
  induction k with
  | zero => rfl
  | succ k ih =>
    rw [Answering.total_succ (n := 0) rfl]
    change (refusing.total k).map (0 + ·) = _
    rw [ih]
    rfl

theorem not_reaches_refusing {len : Nat} (h : len ≠ 0) : ¬ refusing.Reaches len := by
  rintro ⟨k, hk⟩
  exact h (Nat.le_zero.mp (hk 0 (total_refusing k)))

def sampleHello : HelloDraws := ⟨0, ⟨List.replicate 32 1, rfl⟩, ⟨List.replicate 32 1, rfl⟩⟩

/-- The first write does not return over a layer that takes nothing, of either stream, and an
empty write behind the hello does not over a layer that takes everything. -/
theorem not_writes_return :
    (∀ b, ¬ Returns (fun st : HttpObfsStream b Answering => st.writePass [1])
      (.new b refusing "/" "a" ⟨⟨List.replicate 16 0, rfl⟩, 0, 0⟩)) ∧
    ¬ Returns (fun st : TlsObfsWriteHalf Answering => st.passOn [1])
      (.new refusing "a" sampleHello) ∧
    ¬ Returns (fun st : TlsObfsWriteHalf Answering => st.passOn [])
      ⟨accepting, "a", .recBody 0, sampleHello⟩ := by
  refine ⟨fun b => ?_, ?_, ?_⟩
  · rw [HttpObfsStream.write_returns_iff]
    refine not_reaches_refusing ?_
    simp [buildHttpRequest, HttpObfsStream.new]
  · rw [write_returns_iff]
    exact not_reaches_refusing (mt List.length_eq_zero_iff.mp (List.cons_ne_nil _ _))
  · rw [write_returns_iff]
    rintro (h | h | ⟨k, hk⟩)
    · exact h rfl
    · exact h rfl
    · exact hk 65535 rfl

end TlsObfsWriteHalf

end RustClash
