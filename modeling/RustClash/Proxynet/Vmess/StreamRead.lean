import RustClash.Net.ExactRead
import RustClash.Proxynet.Vmess.Stream

/-!
# What a VMess reader delivers

`decodeChunks` says what the bytes after a response header mean.  `exact_rule` is
the rule for `poll_read_exact`: it waits with what it has, fails at the end of the
stream, or has the bytes.  With it a stream that is to meet no pending answer
between the sealed length and the end of the sealed header (`Opening`) is
specified by what the bytes mean (`readSpec`).
-/

namespace RustClash

namespace Vmess

open VmessAuthStream (earlyEof)

/-! ## The reference decoder -/

/-- The chunks from the next size on.  A chunk without content ends the stream. -/
def decodeChunks (p : Primitives) (dec : BodyAead) (nonce : VmessNonce) (size : ShakeSizeParser)
    (bs : Bytes) (o : End IoError) : Bytes × End IoError :=
  if bs.length < 2 then ([], o.truncated earlyEof)
  else
    let (padding, size) := size.nextPaddingLen
    let (len, size) := size.decode (bs.take 2)
    let rest := bs.drop 2
    if rest.length < len.toNat then ([], o.truncated earlyEof)
    else
      match dec.open p nonce.next.1 ((rest.take len.toNat).take (len.toNat - padding.toNat)) with
      | .error e => ([], .error e.toIo)
      | .ok plain =>
          if plain.isEmpty then ([], .eof)
          else End.after plain (decodeChunks p dec nonce.next.2 size (rest.drop len.toNat) o)
termination_by bs.length
decreasing_by
  simp only [List.length_drop]
  omega

/-- The chunks from inside one of `len` bytes on. -/
def decodeData (p : Primitives) (dec : BodyAead) (nonce : VmessNonce) (size : ShakeSizeParser)
    (len padding : Nat) (bs : Bytes) (o : End IoError) : Bytes × End IoError :=
  if bs.length < len then ([], o.truncated earlyEof)
  else
    match dec.open p nonce.next.1 ((bs.take len).take (len - padding)) with
    | .error e => ([], .error e.toIo)
    | .ok plain =>
        if plain.isEmpty then ([], .eof)
        else End.after plain (decodeChunks p dec nonce.next.2 size (bs.drop len) o)

section

variable {p : Primitives} {dec : BodyAead} {nonce : VmessNonce} {size : ShakeSizeParser}
  {bs : Bytes} {o : End IoError}

theorem decodeChunks_short (h : bs.length < 2) :
    decodeChunks p dec nonce size bs o = ([], o.truncated earlyEof) := by
  unfold decodeChunks
  rw [if_pos h]

theorem decodeChunks_data (h : 2 ≤ bs.length) :
    decodeChunks p dec nonce size bs o =
      decodeData p dec nonce (size.nextPaddingLen.2.decode (bs.take 2)).2
        (size.nextPaddingLen.2.decode (bs.take 2)).1.toNat size.nextPaddingLen.1.toNat
        (bs.drop 2) o := by
  unfold decodeChunks
  rw [if_neg (Nat.not_lt.mpr h)]
  rfl

end

end Vmess

open Vmess

namespace VmessAuthStream

variable {p : Primitives} {st : VmessAuthStream p Transport} {items : Bytes} {o : End IoError}
  {cap : Nat}

/-- The bytes that are read and not used, and those that are still to come. -/
def bytes (st : VmessAuthStream p Transport) : Bytes :=
  st.readBuf.take st.readPos ++ unread st.inner.reads

def stalls (st : VmessAuthStream p Transport) : Nat := RustClash.stalls st.inner.reads

/-! ## Reading exactly -/

/-- A reading of `size` bytes that stops at a pending answer. -/
abbrev Interrupted (st : VmessAuthStream p Transport) (size : Nat) (readBuf : Bytes)
    (readPos : Nat) (inner : Transport) : Prop :=
  Transport.Interrupted st.bytes st.readPos size st.inner readBuf readPos inner

/-- A reading of `size` bytes that gets them. -/
abbrev Completed (st : VmessAuthStream p Transport) (size : Nat) (inner : Transport) : Prop :=
  Transport.Completed st.bytes st.readPos size st.inner inner

/-- What holds of every way a reading of `size` bytes stops holds of the pass. -/
theorem exact_rule {size : Nat} {next : VmessAuthStream p Transport → Pass p Transport cap}
    {P : Pass p Transport cap → Prop} (hcursor : st.readPos ≤ st.readBuf.length)
    (hsize : st.readPos ≤ size)
    (hpending : ∀ {readBuf readPos inner}, Interrupted st size readBuf readPos inner →
      P (.inr (.pending, { st with readBuf, readPos, inner })))
    (hshort : ∀ {readBuf readPos inner e}, st.bytes.length < size →
      st.inner.readEnd.truncated earlyEof = .error e →
      P (.inr (.ready (.error e), { st with readBuf, readPos, inner })))
    (hdone : ∀ {inner}, Completed st size inner →
      P (next { st with readBuf := st.bytes.take size, readPos := 0, inner })) :
    P (st.exact size next) := by
  have h : Transport.Exactly earlyEof st.bytes st.readPos size st.inner _ :=
    Transport.readExact_exactly earlyEof hcursor hsize rfl
  simp only [exact, pollReadExact]
  generalize readExact pollRead earlyEof 0 size st.readBuf st.readPos st.inner = r at h ⊢
  cases h with
  | pending h => exact hpending h
  | short hlen hend _ => exact hshort hlen hend
  | done h => exact hdone h

@[simp] theorem bytes_front (st : VmessAuthStream p Transport) (readBuf : Bytes)
    (inner : Transport) (readState : ReadState) (decSize : ShakeSizeParser)
    (decNonce : VmessNonce) :
    ({ st with readBuf, readPos := 0, inner, readState, decSize, decNonce } :
      VmessAuthStream p Transport).bytes = unread inner.reads := by
  simp [bytes]

/-! ## The header -/

/-- Bytes that open as a response header of `len` bytes, `rest` being what follows it. -/
structure Opens (p : Primitives) (sess : ClientSession) (bs : Bytes) (len : Nat) (rest : Bytes) :
    Prop where
  length : openLength p sess (bs.take 18) = some len
  enough : 18 + (len + 16) ≤ bs.length
  header : ∃ payload, openHeader p sess ((bs.drop 18).take (len + 16)) = some payload ∧
    payload.head? = some sess.responseHeader
  rest : rest = (bs.drop 18).drop (len + 16)

/-- A response header is ahead, or a part of its sealed length is read, and no pending
answer is between the sealed length and the end of the header. -/
structure Opening (st : VmessAuthStream p Transport) (rest : Bytes) : Prop where
  state : st.readState = .header
  aead : st.sess.aead = true
  cursor : st.readPos ≤ st.readBuf.length
  early : st.readPos ≤ 18
  opens : ∃ len, Opens p st.sess st.bytes len rest ∧
    calm (len + 16) (skip (18 - st.readPos) st.inner.reads) = true

/-- What a pass leaves of a header, `rest` being what follows it: the first reading may
be interrupted, and the second is not. -/
inductive HeaderLeaves (st : VmessAuthStream p Transport) (rest : Bytes) :
    Pass p Transport cap → Prop where
  | pending {readBuf : Bytes} {readPos : Nat} {inner : Transport} :
      Opening ({ st with readBuf, readPos, inner } : VmessAuthStream p Transport) rest →
      inner.readEnd = st.inner.readEnd → RustClash.stalls inner.reads < st.stalls →
      HeaderLeaves st rest (.inr (.pending, { st with readBuf, readPos, inner }))
  | opened {readBuf : Bytes} {inner : Transport} :
      unread inner.reads = rest → inner.readEnd = st.inner.readEnd →
      RustClash.stalls inner.reads ≤ st.stalls →
      HeaderLeaves st rest (.inl { st with readBuf, readPos := 0, inner, readState := .length })

theorem passHeader_leaves {rest : Bytes} (h : Opening st rest) :
    HeaderLeaves st rest (st.passHeader cap) := by
  obtain ⟨len, hopens, hquiet⟩ := h.opens
  have henough := hopens.enough
  simp only [passHeader]
  rw [if_neg (by simp [h.aead])]
  refine exact_rule h.cursor h.early ?_ ?_ ?_
  · intro readBuf readPos inner hi
    refine .pending ⟨h.state, h.aead, hi.cursor, Nat.le_of_lt hi.early, len, ?_, ?_⟩ hi.readEnd
      hi.stalls
    · rw [show bytes ({ st with readBuf, readPos, inner } : VmessAuthStream p Transport) =
        st.bytes from hi.kept]
      exact hopens
    · rw [hi.ahead]
      exact hquiet
  · intro _ _ _ _ hshort
    omega
  · intro inner hc
    have hlength : openLength p st.sess ((st.bytes.take 18).take 18) = some len := by
      rw [List.take_take]
      exact hopens.length
    simp only
    rw [hlength]
    rw [← hc.ahead] at hquiet
    -- nothing is left of the first reading, so the second one reads from the transport
    refine exact_rule (Nat.zero_le _) (Nat.zero_le _) ?_ ?_ ?_
    · intro _ _ _ hi
      exact absurd (hquiet.symm.trans hi.stalled) (by decide)
    · intro _ _ _ _ hshort
      rw [bytes_front, hc.rest, List.length_drop] at hshort
      omega
    · intro inner' hc'
      obtain ⟨payload, hpayload, hfirst⟩ := hopens.header
      have hrest := hc'.rest
      rw [bytes_front, hc.rest, ← hopens.rest] at hrest
      simp only
      rw [List.take_take, Nat.min_self, bytes_front, hc.rest, hpayload]
      simp only
      rw [checkHeader, if_neg (by simpa using hfirst)]
      exact .opened hrest (hc'.readEnd.trans hc.readEnd) (Nat.le_trans hc'.stalls hc.stalls)

/-! ## The body -/

/-- `Yields st items o`: in state `st` the bytes `items` are still to be delivered, and
the end `o` after them. -/
inductive Yields : VmessAuthStream p Transport → Bytes → End IoError → Prop where
  | header {st : VmessAuthStream p Transport} {rest : Bytes} : Opening st rest →
      Yields st (decodeChunks p st.dec st.decNonce st.decSize rest st.inner.readEnd).1
        (decodeChunks p st.dec st.decNonce st.decSize rest st.inner.readEnd).2
  | length {st : VmessAuthStream p Transport} : st.readState = .length →
      st.readPos ≤ st.readBuf.length → st.readPos ≤ 2 →
      Yields st (decodeChunks p st.dec st.decNonce st.decSize st.bytes st.inner.readEnd).1
        (decodeChunks p st.dec st.decNonce st.decSize st.bytes st.inner.readEnd).2
  | data {st : VmessAuthStream p Transport} {size padding : Nat} :
      st.readState = .data size padding → st.readPos ≤ st.readBuf.length → st.readPos ≤ size →
      Yields st
        (decodeData p st.dec st.decNonce st.decSize size padding st.bytes st.inner.readEnd).1
        (decodeData p st.dec st.decNonce st.decSize size padding st.bytes st.inner.readEnd).2
  | pending {st : VmessAuthStream p Transport} : st.readState = .pending st.readBuf.length →
      st.readBuf ≠ [] → st.readPos = 0 →
      Yields st (st.readBuf ++ (decodeChunks p st.dec st.decNonce st.decSize
          (unread st.inner.reads) st.inner.readEnd).1)
        (decodeChunks p st.dec st.decNonce st.decSize (unread st.inner.reads) st.inner.readEnd).2
  | done {st : VmessAuthStream p Transport} : st.readState = .pending 0 → st.readBuf = [] →
      Yields st [] .eof

theorem passLength_leaves (hstate : st.readState = .length)
    (hcursor : st.readPos ≤ st.readBuf.length) (hpos : st.readPos ≤ 2) :
    PassLeaves Yields stalls st
      (decodeChunks p st.dec st.decNonce st.decSize st.bytes st.inner.readEnd).1
      (decodeChunks p st.dec st.decNonce st.decSize st.bytes st.inner.readEnd).2
      (st.passLength cap) := by
  simp only [passLength]
  refine exact_rule hcursor hpos ?_ ?_ ?_
  · intro readBuf readPos inner hi
    have hy : Yields ({ st with readBuf, readPos, inner } : VmessAuthStream p Transport) _ _ :=
      .length hstate hi.cursor (Nat.le_of_lt hi.early)
    rw [show bytes ({ st with readBuf, readPos, inner } : VmessAuthStream p Transport) =
        st.bytes from hi.kept, hi.readEnd] at hy
    exact ⟨hy, hi.stalls⟩
  · intro readBuf readPos inner e hshort hend
    rw [decodeChunks_short hshort]
    exact ⟨rfl, hend⟩
  · intro inner hc
    have hy : Yields ({ st with
        readBuf := st.bytes.take 2
        readPos := 0
        inner
        readState := .data (st.decSize.nextPaddingLen.2.decode (st.bytes.take 2)).1.toNat
          st.decSize.nextPaddingLen.1.toNat
        decSize := (st.decSize.nextPaddingLen.2.decode (st.bytes.take 2)).2 } :
        VmessAuthStream p Transport) _ _ := .data rfl (Nat.zero_le _) (Nat.zero_le _)
    rw [bytes_front, hc.rest, hc.readEnd] at hy
    rw [decodeChunks_data hc.enough]
    dsimp only [ShakeSizeParser.sizeBytes]
    rw [List.take_take, Nat.min_self]
    exact ⟨hy, hc.stalls⟩

theorem passData_leaves {size padding : Nat} (hstate : st.readState = .data size padding)
    (hcursor : st.readPos ≤ st.readBuf.length) (hpos : st.readPos ≤ size) :
    PassLeaves Yields stalls st
      (decodeData p st.dec st.decNonce st.decSize size padding st.bytes st.inner.readEnd).1
      (decodeData p st.dec st.decNonce st.decSize size padding st.bytes st.inner.readEnd).2
      (st.passData cap size padding) := by
  simp only [passData]
  refine exact_rule hcursor hpos ?_ ?_ ?_
  · intro readBuf readPos inner hi
    have hy : Yields ({ st with readBuf, readPos, inner } : VmessAuthStream p Transport) _ _ :=
      .data hstate hi.cursor (Nat.le_of_lt hi.early)
    rw [show bytes ({ st with readBuf, readPos, inner } : VmessAuthStream p Transport) =
        st.bytes from hi.kept, hi.readEnd] at hy
    exact ⟨hy, hi.stalls⟩
  · intro readBuf readPos inner e hshort hend
    simp only [decodeData]
    rw [if_pos hshort]
    exact ⟨rfl, hend⟩
  · intro inner hc
    unfold decodeData
    rw [if_neg (Nat.not_lt.mpr hc.enough)]
    simp only
    cases hopen : st.dec.open p st.decNonce.next.1 ((st.bytes.take size).take (size - padding)) with
    | error e => exact ⟨rfl, rfl⟩
    | ok plain =>
        by_cases hplain : plain = []
        · subst hplain
          exact ⟨.done rfl rfl, hc.stalls⟩
        · have hy : Yields ({ st with
              readBuf := plain
              readPos := 0
              inner
              decNonce := st.decNonce.next.2
              readState := .pending plain.length } : VmessAuthStream p Transport) _ _ :=
            .pending rfl hplain rfl
          rw [hc.rest, hc.readEnd] at hy
          simp only
          rw [if_neg (by simpa using hplain)]
          exact ⟨hy, hc.stalls⟩

theorem passPending_leaves (hplain : st.readBuf ≠ []) (hpos : st.readPos = 0) (hcap : 0 < cap) :
    Leaves Yields stalls st
      (st.readBuf ++ (decodeChunks p st.dec st.decNonce st.decSize (unread st.inner.reads)
        st.inner.readEnd).1)
      (decodeChunks p st.dec st.decNonce st.decSize (unread st.inner.reads) st.inner.readEnd).2
      (.ready (.ok (.fill cap st.readBuf)), { st with
        readBuf := st.readBuf.drop (min cap st.readBuf.length)
        readState := if min cap st.readBuf.length < st.readBuf.length then
          .pending (st.readBuf.length - min cap st.readBuf.length) else .length }) := by
  refine leaves_fill hplain hcap ?_ (Nat.le_refl _)
  by_cases hlt : cap < st.readBuf.length
  · rw [Nat.min_eq_left (Nat.le_of_lt hlt), if_pos hlt, ← List.length_drop]
    exact .pending rfl (by simpa using hlt) hpos
  · have hle := Nat.not_lt.mp hlt
    rw [Nat.min_eq_right hle, if_neg (Nat.lt_irrefl _), List.drop_of_length_le hle,
      List.drop_of_length_le (Nat.le_refl _), List.nil_append]
    have hy : Yields ({ st with readBuf := [], readState := .length } :
        VmessAuthStream p Transport) _ _ := .length rfl (by simp [hpos]) (by simp [hpos])
    simpa [bytes] using hy

theorem pass_leaves (hy : Yields st items o) (hcap : 0 < cap) :
    PassLeaves Yields stalls st items o (st.pass cap) := by
  simp only [pass]
  cases hy with
  | @header rest h =>
      rw [h.state]
      have hl : HeaderLeaves st rest (st.passHeader cap) := passHeader_leaves h
      simp only
      generalize st.passHeader cap = r at hl ⊢
      cases hl with
      | @pending readBuf readPos inner hopening hend hstalls =>
          have hy := Yields.header hopening
          simp only at hy
          rw [hend] at hy
          exact ⟨hy, hstalls⟩
      | @opened readBuf inner hrest hend hstalls =>
          have hy : Yields ({ st with readBuf, readPos := 0, inner, readState := .length } :
              VmessAuthStream p Transport) _ _ := .length rfl (Nat.zero_le _) (Nat.zero_le _)
          rw [bytes_front, hrest, hend] at hy
          exact ⟨hy, hstalls⟩
  | length hstate hcursor hpos =>
      rw [hstate]
      exact passLength_leaves hstate hcursor hpos
  | data hstate hcursor hpos =>
      rw [hstate]
      exact passData_leaves hstate hcursor hpos
  | pending hstate hplain hpos =>
      rw [hstate]
      simp only
      simp only [passPending]
      rw [List.take_length]
      exact passPending_leaves hplain hpos hcap
  | done hstate hempty =>
      rw [hstate]
      simp only
      simp only [passPending]
      exact (leaves_eof_iff (by simp)).mpr ⟨rfl, rfl⟩

/-- What a VMess reader yields of a response. -/
def readSpec (p : Primitives) :
    ReadSpec (pollRead : ReadFn (VmessAuthStream p Transport) UInt8 IoError) :=
  ReadSpec.ofLoop (readLoop p Transport) Yields stalls pass_leaves

end VmessAuthStream

end RustClash
