import RustClash.Proxynet.Vmess.StreamRead

/-!
# VMess responses

A server's response as the stream reads it, for every way it arrives.  A pending
answer between the sealed length and the end of the sealed header leaves the stream
where it takes the bytes of the header for a length (`Stuck`); without one the
response is read as if it came all at once.  `resumes_iff` puts the two together.
-/

namespace RustClash

open Vmess

namespace VmessAuthStream

variable {p : Primitives} {st : VmessAuthStream p Transport} {rest : Bytes} {cap : Nat}

/-! ## Past the header -/

/-- The state that a pass leaves. -/
def Pass.next {σ : Type} : Pass p σ cap → VmessAuthStream p σ
  | .inl st => st
  | .inr (_, st) => st

theorem exact_past {size : Nat} {next : VmessAuthStream p Transport → Pass p Transport cap}
    (h : st.readState ≠ .header)
    (hnext : ∀ st', st'.readState ≠ .header → (next st').next.readState ≠ .header) :
    (st.exact size next).next.readState ≠ .header := by
  simp only [exact, pollReadExact]
  split
  · next hr =>
      rw [← (Prod.mk.inj hr).2]
      exact h
  · next hr =>
      rw [← (Prod.mk.inj hr).2]
      exact h
  · next hr =>
      rw [← (Prod.mk.inj hr).2]
      exact hnext _ h

theorem pass_past (h : st.readState ≠ .header) : (st.pass cap).next.readState ≠ .header := by
  simp only [pass]
  split
  · next hstate => exact absurd hstate h
  · exact exact_past h fun st' _ => by simp [Pass.next]
  · refine exact_past h fun st' hst' => ?_
    simp only
    split
    · exact hst'
    · simp [Pass.next]
  · simp only [passPending, Pass.next]
    split <;> simp

/-- The header is read once. -/
theorem poll_past (h : st.readState ≠ .header) :
    (pollRead st cap).2.readState ≠ .header := by
  refine Loop.rule (l := readLoop p Transport cap)
    (P := fun st r => st.readState ≠ .header → r.2.readState ≠ .header) ?_ ?_ st h
  · intro st st' r hb ih hst
    have hnext : (st.pass cap).next.readState ≠ .header := pass_past hst
    rw [show st.pass cap = .inl st' from hb] at hnext
    exact ih hnext
  · intro st r hb hst
    have hnext : (st.pass cap).next.readState ≠ .header := pass_past hst
    rwa [show st.pass cap = .inr r from hb] at hnext

theorem readAll_past (h : st.readState ≠ .header) (caps : List Nat) :
    (readAll pollRead caps st).state.readState ≠ .header :=
  readAll_state (P := fun st : VmessAuthStream p Transport => st.readState ≠ .header) poll_past h

/-- A poll of a stream with a header ahead gets past it, or waits for its length. -/
theorem poll_opening (h : Opening st rest) (cap : Nat) :
    (∃ st', pollRead st cap = (.pending, st') ∧ Opening st' rest ∧ st'.stalls < st.stalls) ∨
      (pollRead st cap).2.readState ≠ .header := by
  have hpass : (readLoop p Transport cap).body st = st.passHeader cap := by
    show st.pass cap = _
    rw [pass, h.state]
  have hl : HeaderLeaves st rest (st.passHeader cap) := passHeader_leaves h
  rw [← hpass] at hl
  generalize hb : (readLoop p Transport cap).body st = r at hl
  cases hl with
  | pending hopening _ hstalls => exact .inl ⟨_, Loop.run_inr hb, hopening, hstalls⟩
  | opened =>
      refine .inr ?_
      rw [show pollRead st cap = _ from Loop.run_inl hb]
      exact poll_past (by simp)

theorem readAll_opening {caps : List Nat} (h : Opening st rest) (hcaps : st.stalls < caps.length) :
    (readAll pollRead caps st).state.readState ≠ .header := by
  induction caps generalizing st with
  | nil => exact absurd hcaps (Nat.not_lt_zero _)
  | cons cap caps ih =>
      rw [List.length_cons] at hcaps
      rcases poll_opening h cap with ⟨st', hr, hopening, hstalls⟩ | hpast
      · rw [readAll_pending hr]
        exact ih hopening (by omega)
      · rcases hr : pollRead st cap with ⟨_ | e | d, st'⟩ <;> rw [hr] at hpast
        · rw [readAll_pending hr]
          exact readAll_past hpast _
        · rw [readAll_error hr]
          exact hpast
        · by_cases hd : d.items = []
          · rw [readAll_eof hr hd]
            exact hpast
          · rw [readAll_data hr hd]
            exact readAll_past hpast _

/-- Enough polls take the stream past the response header. -/
def Accepts (st : VmessAuthStream p Transport) : Prop :=
  ∃ n, ∀ caps, NonEmptyBuffers caps → n ≤ caps.length →
    (readAll pollRead caps st).state.readState ≠ .header

theorem accepts_opening (h : Opening st rest) : Accepts st :=
  ⟨st.stalls + 1, fun _ _ hlen => readAll_opening h hlen⟩

/-! ## Stuck in the header -/

/-- A pending answer is met, or has been, between the sealed length and the end of the
sealed header, and what would then be opened as a length does not open. -/
inductive Stuck : VmessAuthStream p Transport → Prop where
  | first {st : VmessAuthStream p Transport} : st.readState = .header →
      st.sess.aead = true → st.readPos ≤ st.readBuf.length → st.readPos ≤ 18 →
      (∃ len, openLength p st.sess (st.bytes.take 18) = some len ∧
        calm (len + 16) (skip (18 - st.readPos) st.inner.reads) = false) →
      openLength p st.sess ((st.bytes.drop 18).take 18) = none → Stuck st
  | again {st : VmessAuthStream p Transport} : st.readState = .header →
      st.sess.aead = true → st.readPos ≤ st.readBuf.length →
      openLength p st.sess (st.bytes.take 18) = none → Stuck st

/-- A pass that stays in the header: it waits there, or fails there. -/
inductive Stays : Pass p Transport cap → Prop where
  | pending {st : VmessAuthStream p Transport} : Stuck st → Stays (.inr (.pending, st))
  | error {st : VmessAuthStream p Transport} {e : IoError} : st.readState = .header →
      Stays (.inr (.ready (.error e), st))

theorem Stuck.state (h : Stuck st) : st.readState = .header := by
  cases h <;> assumption

/-- The bytes that are behind the cursor, and those that are still to come, are opened
as a length. -/
theorem passHeader_again (hstate : st.readState = .header) (haead : st.sess.aead = true)
    (hcursor : st.readPos ≤ st.readBuf.length)
    (hclosed : openLength p st.sess (st.bytes.take 18) = none) : Stays (st.passHeader cap) := by
  simp only [passHeader]
  rw [if_neg (by simp [haead])]
  by_cases hearly : st.readPos ≤ 18
  · refine exact_rule hcursor hearly ?_ ?_ ?_
    · intro readBuf readPos inner hi
      refine .pending (.again hstate haead hi.cursor ?_)
      rw [show bytes ({ st with readBuf, readPos, inner } : VmessAuthStream p Transport) =
        st.bytes from hi.kept]
      exact hclosed
    · intro _ _ _ _ _ _
      exact .error hstate
    · intro inner hc
      simp only
      rw [List.take_take, Nat.min_self, hclosed]
      exact .error hstate
  · have hlate := Nat.le_of_lt (Nat.not_le.mp hearly)
    have hfront : st.bytes.take 18 = st.readBuf.take 18 := by
      rw [bytes, List.take_append_of_le_length (by rw [List.length_take]; omega), List.take_take,
        Nat.min_eq_left hlate]
    simp only [exact, pollReadExact]
    rw [readExact_full _ _ _ _ hlate hcursor]
    simp only
    rw [List.take_take, Nat.min_self, ← hfront, hclosed]
    exact .error hstate

theorem passHeader_first (hstate : st.readState = .header) (haead : st.sess.aead = true)
    (hcursor : st.readPos ≤ st.readBuf.length) (hearly : st.readPos ≤ 18)
    (hopens : ∃ len, openLength p st.sess (st.bytes.take 18) = some len ∧
      calm (len + 16) (skip (18 - st.readPos) st.inner.reads) = false)
    (hclosed : openLength p st.sess ((st.bytes.drop 18).take 18) = none) :
    Stays (st.passHeader cap) := by
  obtain ⟨len, hopen, hstall⟩ := hopens
  simp only [passHeader]
  rw [if_neg (by simp [haead])]
  refine exact_rule hcursor hearly ?_ ?_ ?_
  · intro readBuf readPos inner hi
    have hbytes : bytes ({ st with readBuf, readPos, inner } : VmessAuthStream p Transport) =
      st.bytes := hi.kept
    refine .pending (.first hstate haead hi.cursor (Nat.le_of_lt hi.early) ⟨len, ?_, ?_⟩ ?_)
    · rw [hbytes]
      exact hopen
    · rw [hi.ahead]
      exact hstall
    · rw [hbytes]
      exact hclosed
  · intro _ _ _ _ _ _
    exact .error hstate
  · intro inner hc
    simp only
    rw [List.take_take, Nat.min_self, hopen]
    rw [← hc.ahead] at hstall
    refine exact_rule (Nat.zero_le _) (Nat.zero_le _) ?_ ?_ ?_
    · intro readBuf readPos inner' hi
      refine .pending (.again hstate haead hi.cursor ?_)
      have hkept := hi.kept
      rw [bytes_front, hc.rest] at hkept
      rw [show bytes ({ st with readBuf, readPos, inner := inner' } : VmessAuthStream p Transport) =
        st.bytes.drop 18 from hkept]
      exact hclosed
    · intro _ _ _ _ _ _
      exact .error hstate
    · intro inner' hc'
      exact absurd (hc'.calm.symm.trans hstall) (by decide)

theorem poll_stuck (h : Stuck st) (cap : Nat) :
    (pollRead st cap).2.readState = .header ∧
      ((∃ st', pollRead st cap = (.pending, st') ∧ Stuck st') ∨
        ∃ e st', pollRead st cap = (.ready (.error e), st')) := by
  have hpass : (readLoop p Transport cap).body st = st.passHeader cap := by
    show st.pass cap = _
    rw [pass, h.state]
  have hs : Stays (st.passHeader cap) := by
    cases h with
    | first hstate haead hcursor hearly hopens hclosed =>
        exact passHeader_first hstate haead hcursor hearly hopens hclosed
    | again hstate haead hcursor hclosed =>
        exact passHeader_again hstate haead hcursor hclosed
  rw [← hpass] at hs
  generalize hb : (readLoop p Transport cap).body st = r at hs
  cases hs with
  | pending hstuck =>
      rw [show pollRead st cap = _ from Loop.run_inr hb]
      exact ⟨hstuck.state, .inl ⟨_, rfl, hstuck⟩⟩
  | error hstate =>
      rw [show pollRead st cap = _ from Loop.run_inr hb]
      exact ⟨hstate, .inr ⟨_, _, rfl⟩⟩

theorem readAll_stuck (h : Stuck st) (caps : List Nat) :
    (readAll pollRead caps st).state.readState = .header := by
  induction caps generalizing st with
  | nil => exact h.state
  | cons cap caps ih =>
      obtain ⟨hstate, ⟨st', hr, hstuck⟩ | ⟨e, st', hr⟩⟩ := poll_stuck h cap
      · rw [readAll_pending hr]
        exact ih hstuck
      · rw [readAll_error hr]
        rwa [hr] at hstate

theorem not_accepts_stuck (h : Stuck st) : ¬ Accepts st := by
  rintro ⟨n, hn⟩
  refine hn (List.replicate n 1) ?_ (by simp) (readAll_stuck h _)
  intro cap hcap
  rw [List.eq_of_mem_replicate hcap]
  exact Nat.one_pos

end VmessAuthStream

/-! ## Responses -/

namespace Vmess

open VmessAuthStream

/-- The sealed length of a response header. -/
def sealLength (p : Primitives) (sess : ClientSession) (len : Nat) : Bytes :=
  let key := kdf1 p 16 sess.responseBodyKey.bytes saltAeadRespHeaderLenKey
  let iv := kdf1 p 12 sess.responseBodyIv.bytes saltAeadRespHeaderLenIv
  (p.aes128Gcm key).encrypt iv [] (toBe16 len)

/-- The sealed response header. -/
def sealHeader (p : Primitives) (sess : ClientSession) (header : Bytes) : Bytes :=
  let key := kdf1 p 16 sess.responseBodyKey.bytes saltAeadRespHeaderPayloadKey
  let iv := kdf1 p 12 sess.responseBodyIv.bytes saltAeadRespHeaderPayloadIv
  (p.aes128Gcm key).encrypt iv [] header

/-- A response as a server sends it: `encode_aead_response` with any header, and what
follows it. -/
def response (p : Primitives) (sess : ClientSession) (header body : Bytes) : Bytes :=
  sealLength p sess header.length ++ (sealHeader p sess header ++ body)

/-- A response that arrives by `reads` is accepted, and is read as if all of it came at
once. -/
def Resumes (p : Primitives) (sess : ClientSession) (dec : BodyAead) (reads : List ReadEvent)
    (readEnd : End IoError) : Prop :=
  Accepts (withCipher p (Transport.serving reads readEnd) sess dec) ∧
    ∃ items o,
      Delivers pollRead
        (withCipher p (Transport.serving (arrive (unread reads) []) readEnd) sess dec) items o ∧
      Delivers pollRead (withCipher p (Transport.serving reads readEnd) sess dec) items o

section

variable {p : Primitives} {sess : ClientSession} {header : Bytes}

variable (hlaw : ∀ key : Bytes, key.length = 16 → (p.aes128Gcm key).Lawful 16)
include hlaw

theorem length_sealLength (sess : ClientSession) (len : Nat) :
    (sealLength p sess len).length = 18 :=
  (hlaw _ (length_kdf1 p _ _ (by decide))).length_encrypt _ _ _

theorem length_sealHeader (sess : ClientSession) (header : Bytes) :
    (sealHeader p sess header).length = header.length + 16 :=
  (hlaw _ (length_kdf1 p _ _ (by decide))).length_encrypt _ _ _

theorem openLength_sealLength (sess : ClientSession) {len : Nat} (h : len < 65536) :
    openLength p sess (sealLength p sess len) = some len := by
  simp only [openLength, sealLength]
  rw [(hlaw _ (length_kdf1 p _ _ (by decide))).decrypt_encrypt]
  exact congrArg some (ofBe16_toBe16 h)

theorem openHeader_sealHeader (sess : ClientSession) (header : Bytes) :
    openHeader p sess (sealHeader p sess header) = some header :=
  (hlaw _ (length_kdf1 p _ _ (by decide))).decrypt_encrypt _ _ _

/-- The bytes of a response open as its header. -/
theorem opens_response (body : Bytes) (hlen : header.length < 65536)
    (hfirst : header.head? = some sess.responseHeader) :
    Opens p sess (response p sess header body) header.length body := by
  have hl := length_sealLength hlaw sess header.length
  have hh := length_sealHeader hlaw sess header
  have hdrop : (response p sess header body).drop 18 = sealHeader p sess header ++ body := by
    rw [response, List.drop_left' hl]
  refine ⟨?_, ?_, ⟨header, ?_, hfirst⟩, ?_⟩
  · rw [response, List.take_left' hl, openLength_sealLength hlaw sess hlen]
  · rw [response, List.length_append, List.length_append, hl, hh]
    omega
  · rw [hdrop, List.take_left' hh, openHeader_sealHeader hlaw]
  · rw [hdrop, List.drop_left' hh]

end

/-- A response is accepted and read as if it came at once exactly if no pending answer
is between the sealed length and the end of the sealed header, given that the bytes of
the header do not open as a length by chance. -/
theorem resumes_iff (p : Primitives) (sess : ClientSession) (dec : BodyAead) (header body : Bytes)
    (reads : List ReadEvent) (readEnd : End IoError)
    (hlaw : ∀ key : Bytes, key.length = 16 → (p.aes128Gcm key).Lawful 16)
    (haead : sess.aead = true) (hlen : header.length < 65536)
    (hfirst : header.head? = some sess.responseHeader)
    (hreads : unread reads = response p sess header body)
    (hauth : openLength p sess ((sealHeader p sess header ++ body).take 18) = none) :
    Resumes p sess dec reads readEnd ↔ calm (header.length + 16) (skip 18 reads) = true := by
  have hopens := opens_response hlaw body hlen hfirst
  -- a fresh stream has read nothing, so the script of the transport is what it has ahead
  have hopening : ∀ reads', unread reads' = response p sess header body →
      calm (header.length + 16) (skip 18 reads') = true →
      Opening (withCipher p (Transport.serving reads' readEnd) sess dec) body := by
    intro reads' hreads' hcalm
    refine ⟨rfl, haead, Nat.zero_le _, Nat.zero_le _, header.length, ?_, hcalm⟩
    rw [← hreads'] at hopens
    exact hopens
  constructor
  · intro h
    by_contra hcalm
    have hlength : openLength p sess ((unread reads).take 18) = some header.length := by
      rw [hreads]
      exact hopens.length
    have hclosed : openLength p sess (((unread reads).drop 18).take 18) = none := by
      rw [hreads, response, List.drop_left' (length_sealLength hlaw sess _)]
      exact hauth
    have hstuck : Stuck (withCipher p (Transport.serving reads readEnd) sess dec) :=
      .first rfl haead (Nat.zero_le _) (Nat.zero_le _)
        ⟨header.length, hlength, Bool.eq_false_iff.mpr hcalm⟩ hclosed
    exact not_accepts_stuck hstuck h.1
  · intro hcalm
    have hsplit := hopening reads hreads hcalm
    have honce := hopening (arrive (unread reads) []) (by simp [unread, hreads])
      (calm_once _ _ _)
    exact ⟨accepts_opening hsplit, _, _, (readSpec p).delivers (.header honce),
      (readSpec p).delivers (.header hsplit)⟩

/-- A response of four header bytes and one chunk, cut after the sealed length. -/
theorem resumes_cut : Resumes .sums sampleSession (.aes128 (List.replicate 16 0))
    [.pending, .data 0 (4 :: 196 :: List.replicate 15 0),
      .data 7 ([0, 0, 0, 218] ++ List.replicate 15 0 ++ [0, 18]), .pending,
      .data 104 (105 :: List.replicate 16 0)] .eof :=
  (resumes_iff .sums sampleSession _ [7, 0, 0, 0] ([0, 18, 104, 105] ++ List.replicate 16 0)
    _ _ (fun key _ => keyTagged_lawful key) rfl (by decide) rfl (by decide +kernel)
    (by decide +kernel)).mpr (by decide +kernel)

/-- That response with a pending answer after the sealed length. -/
def stalledReads : List ReadEvent :=
  [.data 0 (4 :: 196 :: List.replicate 15 0), .pending,
    .data 7 ([0, 0, 0, 218] ++ List.replicate 15 0 ++ [0, 18, 104, 105] ++ List.replicate 16 0)]

theorem resumes_fails :
    unread stalledReads = response .sums sampleSession [7, 0, 0, 0]
        ([0, 18, 104, 105] ++ List.replicate 16 0) ∧
      ¬ Resumes .sums sampleSession (.aes128 (List.replicate 16 0)) stalledReads .eof := by
  refine ⟨by decide +kernel, ?_⟩
  rintro ⟨-, items, o, honce, hsplit⟩
  have hitems := (honce.at_end [2, 1] (.error earlyEof) (by decide) (by decide +kernel)).1
  have hnone := (hsplit.at_end [2, 1] (.error respLen) (by decide) (by decide +kernel)).1
  have hdiffer := hitems.trans hnone.symm
  revert hdiffer
  decide +kernel

end Vmess

end RustClash
