import RustClash.Net.Transport
import RustClash.Proxynet.Vision

/-!
# What a Vision reader delivers

`Vision.decode` says what the bytes of a server mean, with no buffer, mode or
chunk in sight.  `VisionStream.decoded` reads a state of the stream through it:
the bytes in the buffer and those still to come are decoded from where the state
stands.  A pass of `poll_read` keeps that reading, so the stream delivers what
the decoder says, however the bytes arrive and whatever the buffers of the
caller.
-/

namespace RustClash

namespace Vision

open VisionStream (tooLarge noContent headerEof frameEof)

/-! ## The reference decoder -/

/-- How the decoding of a server's bytes ends: with the stream, or at a direct
frame with the bytes after it. -/
inductive Ending where
  | ended (o : End IoError)
  | direct (rest : Bytes)
deriving DecidableEq

structure Decoded where
  bytes : Bytes
  ending : Ending
deriving DecidableEq

def Decoded.after (d : Decoded) (bytes : Bytes) : Decoded := { d with bytes := bytes ++ d.bytes }

/-- Frames, after `empties` frames without content. -/
def decodeFrames (empties : Nat) (bs : Bytes) (o : End IoError) : Decoded :=
  match bs with
  | [] => ⟨[], .ended o⟩
  | command :: c₁ :: c₀ :: p₁ :: p₀ :: rest =>
      let content := ofBe16 c₁ c₀
      let padding := ofBe16 p₁ p₀
      if maxFrame < content + padding + headerSize then
        ⟨[], .ended (.error (tooLarge content padding).toIo)⟩
      else if content = 0 ∧ maxPaddingOnly ≤ empties then ⟨[], .ended (.error noContent.toIo)⟩
      else if rest.length < content + padding then
        ⟨rest.take content, .ended (o.truncated frameEof)⟩
      else
        let after := rest.drop (content + padding)
        Decoded.after
          (if command = cmdEnd then ⟨after, .ended o⟩
          else if command = cmdDirect then ⟨[], .direct after⟩
          else decodeFrames (if content = 0 then empties + 1 else 0) after o)
          (rest.take content)
  | _ => ⟨[], .ended (o.truncated headerEof)⟩
termination_by bs.length
decreasing_by
  simp only [List.length_cons, List.length_drop]
  omega

/-- The bytes of a server, to which the stream ends with `o`.  What does not
begin with the user id and a frame header is passed on; but an error that comes
while the bytes may still be the user id comes before them. -/
def decode (uuid : Octets uuidSize) (bs : Bytes) (o : End IoError) : Decoded :=
  if uuid.bytes <+: bs ∧ uuidSize + headerSize ≤ bs.length then
    decodeFrames 0 (bs.drop uuidSize) o
  else
    match o with
    | .eof => ⟨bs, .ended .eof⟩
    | .error e => ⟨if bs.take uuidSize <+: uuid.bytes then [] else bs, .ended (.error e)⟩

/-! ## Decoding from inside a frame -/

/-- What comes after a frame. -/
def decodeNext (command : UInt8) (empties : Nat) (bs : Bytes) (o : End IoError) : Decoded :=
  if command = cmdEnd then ⟨bs, .ended o⟩
  else if command = cmdDirect then ⟨[], .direct bs⟩
  else decodeFrames empties bs o

/-- The rest of a frame that has `content` and `padding` bytes left. -/
def decodeBody (command : UInt8) (content padding empties : Nat) (bs : Bytes) (o : End IoError) :
    Decoded :=
  if bs.length < content + padding then ⟨bs.take content, .ended (o.truncated frameEof)⟩
  else (decodeNext command empties (bs.drop (content + padding)) o).after (bs.take content)

@[simp] theorem Decoded.after_nil (d : Decoded) : d.after [] = d := rfl

theorem Decoded.after_append (d : Decoded) (xs ys : Bytes) :
    d.after (xs ++ ys) = (d.after ys).after xs := by
  simp [Decoded.after]

theorem Decoded.eq_of_after {d : Decoded} {xs bs : Bytes} {e : Ending}
    (h : d.after xs = ⟨bs, e⟩) : ∃ rest, bs = xs ++ rest ∧ d = ⟨rest, e⟩ := by
  cases h
  exact ⟨d.bytes, rfl, rfl⟩

/-- A header that is accepted starts the body it announces. -/
theorem decodeFrames_header {empties : Nat} {command c₁ c₀ p₁ p₀ : UInt8} {rest : Bytes}
    {o : End IoError} (hsize : ¬ maxFrame < ofBe16 c₁ c₀ + ofBe16 p₁ p₀ + headerSize)
    (hempty : ¬ (ofBe16 c₁ c₀ = 0 ∧ maxPaddingOnly ≤ empties)) :
    decodeFrames empties (command :: c₁ :: c₀ :: p₁ :: p₀ :: rest) o =
      decodeBody command (ofBe16 c₁ c₀) (ofBe16 p₁ p₀)
        (if ofBe16 c₁ c₀ = 0 then empties + 1 else 0) rest o := by
  rw [decodeFrames]
  simp only [if_neg hsize, if_neg hempty]
  rfl

theorem decodeFrames_tooLarge {empties : Nat} {command c₁ c₀ p₁ p₀ : UInt8} {rest : Bytes}
    {o : End IoError} (hsize : maxFrame < ofBe16 c₁ c₀ + ofBe16 p₁ p₀ + headerSize) :
    decodeFrames empties (command :: c₁ :: c₀ :: p₁ :: p₀ :: rest) o =
      ⟨[], .ended (.error (tooLarge (ofBe16 c₁ c₀) (ofBe16 p₁ p₀)).toIo)⟩ := by
  rw [decodeFrames]
  simp only [if_pos hsize]

theorem decodeFrames_noContent {empties : Nat} {command c₁ c₀ p₁ p₀ : UInt8} {rest : Bytes}
    {o : End IoError} (hsize : ¬ maxFrame < ofBe16 c₁ c₀ + ofBe16 p₁ p₀ + headerSize)
    (hempty : ofBe16 c₁ c₀ = 0 ∧ maxPaddingOnly ≤ empties) :
    decodeFrames empties (command :: c₁ :: c₀ :: p₁ :: p₀ :: rest) o =
      ⟨[], .ended (.error noContent.toIo)⟩ := by
  rw [decodeFrames]
  simp only [if_neg hsize, if_pos hempty]

theorem decodeFrames_short {empties : Nat} {bs : Bytes} {o : End IoError} (hne : bs ≠ [])
    (h : bs.length < headerSize) :
    decodeFrames empties bs o = ⟨[], .ended (o.truncated headerEof)⟩ := by
  rw [decodeFrames]
  · exact hne
  · intro command c₁ c₀ p₁ p₀ rest hbs
    subst hbs
    simp only [List.length_cons, headerSize] at h
    omega

theorem decodeFrames_nil (empties : Nat) (o : End IoError) :
    decodeFrames empties [] o = ⟨[], .ended o⟩ := by
  rw [decodeFrames]

theorem decodeBody_done (command : UInt8) (empties : Nat) (bs : Bytes) (o : End IoError) :
    decodeBody command 0 0 empties bs o = decodeNext command empties bs o := by
  simp [decodeBody]

/-- Content that has arrived is delivered ahead of the rest. -/
theorem decodeBody_content {command : UInt8} {content padding empties : Nat} {d bs : Bytes}
    {o : End IoError} (h : d.length ≤ content) :
    decodeBody command content padding empties (d ++ bs) o =
      (decodeBody command (content - d.length) padding empties bs o).after d := by
  simp only [decodeBody]
  rw [List.length_append, List.take_append, List.drop_append, List.take_of_length_le h,
    List.drop_eq_nil_of_le (by omega), List.nil_append]
  by_cases hlt : d.length + bs.length < content + padding
  · rw [if_pos hlt, if_pos (by omega)]
    rfl
  · rw [if_neg hlt, if_neg (by omega), Decoded.after_append,
      show content + padding - d.length = content - d.length + padding by omega]

/-- Padding that has arrived is dropped. -/
theorem decodeBody_padding {command : UInt8} {padding empties : Nat} {d bs : Bytes}
    {o : End IoError} (h : d.length ≤ padding) :
    decodeBody command 0 padding empties (d ++ bs) o =
      decodeBody command 0 (padding - d.length) empties bs o := by
  simp only [decodeBody]
  rw [List.length_append, List.drop_append, List.drop_eq_nil_of_le (by omega), List.nil_append]
  by_cases hlt : d.length + bs.length < padding
  · rw [if_pos (by omega), if_pos (by omega)]
    rfl
  · rw [if_neg (by omega), if_neg (by omega)]
    simp only [Nat.zero_add]
    rfl

theorem decodeBody_nil {command : UInt8} {content padding empties : Nat} {o : End IoError}
    (h : ¬ (content = 0 ∧ padding = 0)) :
    decodeBody command content padding empties [] o = ⟨[], .ended (o.truncated frameEof)⟩ := by
  rw [decodeBody, if_pos (by rw [List.length_nil]; omega), List.take_nil]

/-! ## Deciding -/

/-- Bytes that differ from the user id are passed on, with all that follow. -/
theorem decode_mismatch {uuid : Octets uuidSize} {bs rest : Bytes} (o : End IoError)
    (h : ¬ bs.take uuidSize <+: uuid.bytes) :
    decode uuid (bs ++ rest) o = ⟨bs ++ rest, .ended o⟩ := by
  have h' : ¬ (bs ++ rest).take uuidSize <+: uuid.bytes := by
    rw [List.take_append]
    exact fun hp => h ((List.prefix_append _ _).trans hp)
  have hu : ¬ uuid.bytes <+: bs ++ rest := by
    intro hp
    obtain ⟨t, ht⟩ := hp
    refine h' ?_
    rw [← ht, List.take_append_of_le_length (Nat.le_of_eq uuid.size.symm)]
    exact List.take_prefix _ _
  simp only [decode]
  rw [if_neg (fun h => hu h.1)]
  cases o with
  | eof => rfl
  | error e =>
      simp only
      rw [if_neg h']

theorem decode_matched {uuid : Octets uuidSize} {bs rest : Bytes} (o : End IoError)
    (h : bs.take uuidSize <+: uuid.bytes) (hlen : uuidSize + headerSize ≤ bs.length) :
    decode uuid (bs ++ rest) o = decodeFrames 0 (bs.drop uuidSize ++ rest) o := by
  have heq : bs.take uuidSize = uuid.bytes := h.eq_of_length (by
    rw [uuid.size, List.length_take]
    omega)
  simp only [decode]
  rw [if_pos ⟨heq ▸ (List.take_prefix _ _).trans (List.prefix_append _ _), by
    rw [List.length_append]; omega⟩, List.drop_append_of_le_length (by omega)]

/-- At the end of a stream too short to decide, the bytes are passed on, unless
it ends with an error. -/
theorem decode_short {uuid : Octets uuidSize} {bs : Bytes} (o : End IoError)
    (h : bs.take uuidSize <+: uuid.bytes) (hlen : bs.length < uuidSize + headerSize) :
    decode uuid bs o = match o with
      | .eof => ⟨bs, .ended .eof⟩
      | .error e => ⟨[], .ended (.error e)⟩ := by
  simp only [decode]
  rw [if_neg (by omega)]
  cases o with
  | eof => rfl
  | error e =>
      simp only
      rw [if_pos h]

end Vision

open Vision

/-! ## The stream -/

namespace VisionStream

variable {σ : Type} [AsyncIo σ] [ReadLaw σ]

/-- A state read through the decoder: `bs` are the bytes in the buffer and those
the session has yet to yield. -/
def decoded (st : VisionStream σ) (bs : Bytes) (o : End IoError) : Decoded :=
  match st.mode with
  | .undecided => decode st.uuid bs o
  | .framed =>
      decodeBody st.command st.remainingContent st.remainingPadding st.paddingOnly bs o
  | .raw => ⟨bs, .ended o⟩

/-- No frame header has been read. -/
def NoFrame (st : VisionStream σ) : Prop :=
  st.command = cmdContinue ∧ st.remainingContent = 0 ∧ st.remainingPadding = 0 ∧
    st.paddingOnly = 0

/-- What a stream that meets no direct frame has yet to deliver. -/
structure Yields (st : VisionStream σ) (items : Bytes) (o : End IoError) : Prop where
  source : st.readSource = none
  noFrame : st.mode = .undecided → st.NoFrame
  remains : ∃ rest o', ReadLaw.spec.Yields st.session rest o' ∧
    st.decoded (st.buffer.data ++ rest) o' = ⟨items, .ended o⟩

def stalls (st : VisionStream σ) : Nat := ReadLaw.spec.stalls st.session

/-- What a poll of the session brings into the buffer: `rest` and `o` are what
the session had to yield before it. -/
inductive Filling (st : VisionStream σ) (rest : Bytes) (o : End IoError) :
    Poll (IoResult Nat) × VisionStream σ → Prop where
  | pending (session : σ) (buffer : Window UInt8 maxFrame) :
      buffer.data = st.buffer.data →
      ReadLaw.spec.Yields session rest o →
      ReadLaw.spec.stalls session < st.stalls →
      Filling st rest o (.pending, { st with session, buffer })
  | error (session : σ) (buffer : Window UInt8 maxFrame) (e : IoError) :
      rest = [] → o = .error e →
      Filling st rest o (.ready (.error e), { st with session, buffer })
  | eof (session : σ) (buffer : Window UInt8 maxFrame) :
      buffer.data = st.buffer.data →
      rest = [] → o = .eof →
      ReadLaw.spec.Yields session [] .eof →
      ReadLaw.spec.stalls session ≤ st.stalls →
      Filling st rest o (.ready (.ok 0), { st with session, buffer })
  | data (session : σ) (buffer : Window UInt8 maxFrame) (d rest' : Bytes) (n : Nat) :
      buffer.data = st.buffer.data ++ d →
      rest = d ++ rest' →
      ReadLaw.spec.Yields session rest' o →
      ReadLaw.spec.stalls session ≤ st.stalls →
      Filling st rest o (.ready (.ok (n + 1)), { st with session, buffer })

/-- A buffer that is not full is filled from the session. -/
theorem fillFromSession_filling {st : VisionStream σ} {rest : Bytes} {o : End IoError}
    (hroom : st.buffered < maxFrame) (hy : ReadLaw.spec.Yields st.session rest o) :
    Filling st rest o st.fillFromSession := by
  have hpos : 0 < (st.buffer.compact 1).room := Window.room_compact_pos _ hroom
  have hcap : 0 < min 2048 (st.buffer.compact 1).room := Nat.lt_min.mpr ⟨by decide, hpos⟩
  have hdata : (st.buffer.compact 1).data = st.buffer.data := Window.compact_data _ _
  simp only [fillFromSession]
  rw [if_neg (Nat.ne_of_gt hpos)]
  split
  · next d session hr =>
      by_cases hd : d.items = []
      · obtain ⟨hrest, ho⟩ := ReadLaw.spec.eof hy hcap hr hd
        obtain ⟨hy', hle⟩ := ReadLaw.steady hy hcap hr hd
        have : d.items.length = 0 := by rw [hd]; rfl
        rw [this]
        exact .eof _ _ (by simp [hd]) hrest ho hy' hle
      · obtain ⟨rest', hrest, hy', hle⟩ := ReadLaw.spec.data hy hcap hr hd
        obtain ⟨n, hn⟩ := Nat.exists_eq_succ_of_ne_zero
          (Nat.ne_of_gt (List.length_pos_iff.mpr hd))
        rw [hn]
        exact .data _ _ d.items rest' n (by simp) hrest hy' hle
  · next e session hr =>
      obtain ⟨hrest, ho⟩ := ReadLaw.spec.error hy hcap hr
      exact .error _ _ e hrest ho
  · next session hr =>
      obtain ⟨hy', hlt⟩ := ReadLaw.spec.pending hy hcap hr
      exact .pending _ _ hdata hy' hlt

section

variable {cap : Nat} {st : VisionStream σ} {items : Bytes} {o : End IoError}

theorem yields_raw {rest : Bytes} (hsource : st.readSource = none) (hmode : st.mode = .raw)
    (hs : ReadLaw.spec.Yields st.session rest o) : Yields st (st.buffer.data ++ rest) o :=
  ⟨hsource, fun h => by (cases hmode.symm.trans h), rest, o, hs, by rw [decoded, hmode]⟩

theorem yields_framed {rest : Bytes} {o' : End IoError} (hsource : st.readSource = none)
    (hmode : st.mode = .framed) (hs : ReadLaw.spec.Yields st.session rest o')
    (hdec : decodeBody st.command st.remainingContent st.remainingPadding st.paddingOnly
      (st.buffer.data ++ rest) o' = ⟨items, .ended o⟩) : Yields st items o :=
  ⟨hsource, fun h => by (cases hmode.symm.trans h), rest, o', hs, by rw [decoded, hmode]; exact hdec⟩

/-- Bytes that move from the session into the buffer change nothing. -/
theorem Yields.filled {rest d rest' : Bytes} {o' : End IoError} {session : σ}
    {buffer : Window UInt8 maxFrame} (hsource : st.readSource = none)
    (hfresh : st.mode = .undecided → st.NoFrame)
    (hdec : st.decoded (st.buffer.data ++ rest) o' = ⟨items, .ended o⟩)
    (hbuf : buffer.data = st.buffer.data ++ d) (hrest : rest = d ++ rest')
    (hs : ReadLaw.spec.Yields session rest' o') :
    Yields { st with session, buffer } items o := by
  refine ⟨hsource, hfresh, rest', o', hs, ?_⟩
  rw [← hdec, hrest]
  simp only [decoded, hbuf, List.append_assoc]

/-! ### One pass -/

theorem passRaw_leaves (hy : Yields st items o) (hmode : st.mode = .raw) (hcap : 0 < cap) :
    PassLeaves Yields stalls st items o (st.passRaw cap) := by
  obtain ⟨hsource, -, rest, o', hs, hdec⟩ := hy
  rw [decoded, hmode] at hdec
  obtain ⟨rfl, rfl⟩ : st.buffer.data ++ rest = items ∧ o' = o := by simpa using hdec
  simp only [passRaw]
  split
  · next hb =>
      exact leaves_fill (List.length_pos_iff.mp hb) hcap (yields_raw hsource hmode hs)
        (Nat.le_refl _)
  · next hb =>
      have hnil := buffer_nil hb
      rw [hnil, List.nil_append]
      split
      · next src hsrc => cases hsource.symm.trans hsrc
      · refine (ReadLaw.spec.leaves hs hcap).handOn ?_ rfl rfl
        intro items o hs'
        have hy : Yields { st with session := (pollRead st.session cap).2 } _ o :=
          yields_raw hsource hmode hs'
        rwa [hnil, List.nil_append] at hy

theorem passUndecided_leaves (hy : Yields st items o) (hmode : st.mode = .undecided) :
    PassLeaves Yields stalls st items o (st.passUndecided cap) := by
  obtain ⟨hsource, hfresh, rest, o', hs, hdec⟩ := hy
  have hdec' := hdec
  rw [decoded, hmode] at hdec'
  simp only at hdec'
  simp only [passUndecided]
  rcases tryDecide_cases st with ⟨hno, he⟩ | ⟨hp, hlt, he⟩ | ⟨hp, hge, he⟩
  · rw [he]
    rw [decode_mismatch _ hno] at hdec'
    cases hdec'
    exact ⟨yields_raw hsource rfl hs, Nat.le_refl _⟩
  · rw [he]
    have hfill : Filling st rest o' st.fillFromSession := fillFromSession_filling
      (Nat.lt_trans hlt (by decide : uuidSize + headerSize < maxFrame)) hs
    simp only
    generalize st.fillFromSession = f at hfill
    cases hfill with
    | pending session buffer hbuf hs' hst =>
        exact ⟨.filled (d := []) hsource hfresh hdec (by simpa using hbuf) rfl hs', hst⟩
    | error session buffer e hrest ho =>
        rw [hrest, ho, List.append_nil, decode_short _ hp hlt] at hdec'
        cases hdec'
        exact ⟨rfl, rfl⟩
    | eof session buffer hbuf hrest ho hs' hst =>
        rw [hrest, ho, List.append_nil, decode_short _ hp hlt] at hdec'
        cases hdec'
        have hy : Yields { st with session, buffer, mode := .raw } _ .eof :=
          yields_raw hsource rfl hs'
        rw [List.append_nil, hbuf] at hy
        exact ⟨hy, hst⟩
    | data session buffer d rest' n hbuf hrest hs' hst =>
        exact ⟨.filled hsource hfresh hdec hbuf hrest hs', hst⟩
  · rw [he]
    obtain ⟨hcmd, hc, hpad, hempty⟩ := hfresh hmode
    rw [decode_matched _ hp hge] at hdec'
    refine ⟨yields_framed hsource rfl hs ?_, Nat.le_refl _⟩
    simp only [hcmd, hc, hpad, hempty, decodeBody_done, Window.consume_data]
    exact hdec'

/-- A header that is complete in the buffer. -/
theorem readFrameHeader_leaves {rest : Bytes} {o' : End IoError} (hsource : st.readSource = none)
    (hmode : st.mode = .framed) (hs : ReadLaw.spec.Yields st.session rest o')
    (hdec : decodeFrames st.paddingOnly (st.buffer.data ++ rest) o' = ⟨items, .ended o⟩)
    (hlen : headerSize ≤ st.buffered) :
    match st.readFrameHeader with
    | (.error e, _) => items = [] ∧ o = .error e.toIo
    | (.ok (), st') => Yields st' items o ∧ st'.stalls = st.stalls := by
  obtain ⟨command, c₁, c₀, p₁, p₀, more, hdata⟩ : ∃ command c₁ c₀ p₁ p₀ more,
      st.buffer.data = command :: c₁ :: c₀ :: p₁ :: p₀ :: more := by
    match h : st.buffer.data with
    | command :: c₁ :: c₀ :: p₁ :: p₀ :: more => exact ⟨_, _, _, _, _, _, rfl⟩
    | [] | [_] | [_, _] | [_, _, _] | [_, _, _, _] =>
        rw [buffered, Window.length, h] at hlen
        simp [headerSize] at hlen
  have htake : st.takeHeader =
      { st with
        command
        remainingContent := ofBe16 c₁ c₀
        remainingPadding := ofBe16 p₁ p₀ } := by
    simp [takeHeader, hdata]
  rw [hdata] at hdec
  simp only [readFrameHeader]
  rw [htake]
  simp only
  simp only [List.cons_append] at hdec
  by_cases hsize : maxFrame < ofBe16 c₁ c₀ + ofBe16 p₁ p₀ + headerSize
  · rw [if_pos hsize]
    rw [decodeFrames_tooLarge hsize] at hdec
    cases hdec
    exact ⟨rfl, rfl⟩
  · rw [if_neg hsize]
    have hmore : (st.buffer.consume headerSize).data = more := by
      rw [Window.consume_data, hdata]
      rfl
    by_cases hc : 0 < ofBe16 c₁ c₀
    · rw [if_pos hc]
      rw [decodeFrames_header hsize (by omega), if_neg (by omega)] at hdec
      exact ⟨yields_framed hsource hmode hs (by rw [hmore]; exact hdec), rfl⟩
    · rw [if_neg hc]
      by_cases hempty : maxPaddingOnly < st.paddingOnly + 1
      · rw [if_pos hempty]
        rw [decodeFrames_noContent hsize (by omega)] at hdec
        cases hdec
        exact ⟨rfl, rfl⟩
      · rw [if_neg hempty]
        rw [decodeFrames_header hsize (by omega), if_pos (by omega)] at hdec
        exact ⟨yields_framed hsource hmode hs (by rw [hmore]; exact hdec), rfl⟩

theorem passHeader_leaves (hy : Yields st items o) (hmode : st.mode = .framed)
    (hbody : st.remainingContent = 0 ∧ st.remainingPadding = 0) :
    PassLeaves Yields stalls st items o (st.passHeader cap) := by
  obtain ⟨hsource, hfresh, rest, o', hs, hdec⟩ := hy
  have hnext := hdec
  rw [decoded, hmode] at hnext
  simp only at hnext
  rw [hbody.1, hbody.2, decodeBody_done, decodeNext] at hnext
  simp only [passHeader]
  split
  · next hfin =>
      have hend : st.command = cmdEnd := by
        by_contra hne
        have hdir := hfin.resolve_left hne
        rw [if_neg hne, if_pos hdir] at hnext
        cases hnext
      rw [if_pos hend] at hnext
      cases hnext
      have hne : st.command ≠ cmdDirect := by rw [hend]; decide
      simp only [finishFraming]
      rw [if_neg hne]
      exact ⟨yields_raw hsource rfl hs, Nat.le_refl _⟩
  · next hfin =>
      rw [if_neg (fun h => hfin (Or.inl h)), if_neg (fun h => hfin (Or.inr h))] at hnext
      split
      · next hlt =>
          have hfill : Filling st _ _ st.fillFromSession := fillFromSession_filling
            (Nat.lt_trans hlt (by decide : headerSize < maxFrame)) hs
          generalize st.fillFromSession = f at hfill
          cases hfill with
          | pending session buffer hbuf hs' hst =>
              exact ⟨.filled (d := []) hsource hfresh hdec (by simpa using hbuf) rfl hs', hst⟩
          | error session buffer e hrest ho =>
              rw [hrest, ho, List.append_nil] at hnext
              by_cases hnil : st.buffer.data = []
              · rw [hnil, decodeFrames_nil] at hnext
                cases hnext
                exact ⟨rfl, rfl⟩
              · rw [decodeFrames_short hnil hlt] at hnext
                cases hnext
                exact ⟨rfl, rfl⟩
          | eof session buffer hbuf hrest ho hs' hst =>
              rw [hrest, ho, List.append_nil] at hnext
              simp only
              split
              · next h0 =>
                  have hnil : st.buffer.data = [] := hbuf ▸ List.length_eq_zero_iff.mp h0
                  rw [hnil, decodeFrames_nil] at hnext
                  cases hnext
                  exact passLeaves_empty _ _
              · next h0 =>
                  have hnil : st.buffer.data ≠ [] := fun h =>
                    h0 (List.length_eq_zero_iff.mpr (hbuf.trans h))
                  rw [decodeFrames_short hnil hlt] at hnext
                  cases hnext
                  exact ⟨rfl, rfl⟩
          | data session buffer d rest' n hbuf hrest hs' hst =>
              exact ⟨.filled hsource hfresh hdec hbuf hrest hs', hst⟩
      · next hge =>
          have := readFrameHeader_leaves hsource hmode hs hnext (Nat.not_lt.mp hge)
          split
          · next e st' hr =>
              rw [hr] at this
              exact this
          · next st' hr =>
              rw [hr] at this
              exact ⟨this.1, Nat.le_of_eq this.2⟩

theorem passBody_leaves (hy : Yields st items o) (hmode : st.mode = .framed)
    (hbody : ¬ (st.remainingContent = 0 ∧ st.remainingPadding = 0)) (hcap : 0 < cap) :
    PassLeaves Yields stalls st items o (st.passBody cap) := by
  obtain ⟨hsource, hfresh, rest, o', hs, hdec⟩ := hy
  have hrem := hdec
  rw [decoded, hmode] at hrem
  simp only at hrem
  unfold passBody
  split
  · next h0 =>
      have hnil : st.buffer.data = [] := List.length_eq_zero_iff.mp h0
      rw [hnil, List.nil_append] at hrem
      have hfill : Filling st _ _ st.fillFromSession :=
        fillFromSession_filling (by rw [h0]; decide) hs
      generalize st.fillFromSession = f at hfill
      cases hfill with
      | pending session buffer hbuf hs' hst =>
          exact ⟨.filled (d := []) hsource hfresh hdec (by simpa using hbuf) rfl hs', hst⟩
      | error session buffer e hrest ho =>
          rw [hrest, ho, decodeBody_nil hbody] at hrem
          cases hrem
          exact ⟨rfl, rfl⟩
      | eof session buffer hbuf hrest ho hs' hst =>
          rw [hrest, ho, decodeBody_nil hbody] at hrem
          cases hrem
          exact ⟨rfl, rfl⟩
      | data session buffer d rest' n hbuf hrest hs' hst =>
          exact ⟨.filled hsource hfresh hdec hbuf hrest hs', hst⟩
  · next h0 =>
      have hlen : 0 < st.buffer.data.length := Nat.pos_of_ne_zero h0
      split
      · next hc =>
          simp only
          generalize hd : (Filled.fill cap (st.buffer.data.take st.remainingContent) :
            Filled UInt8 cap) = d
          have hitems : d.items = st.buffer.data.take (min cap st.remainingContent) := by
            rw [← hd, Filled.fill_items, List.take_take]
          have hlen' : d.items.length = min (min cap st.remainingContent) st.buffer.data.length := by
            rw [hitems, List.length_take]
          have hne : d.items ≠ [] := List.length_pos_iff.mp (by omega)
          obtain ⟨more, hmore⟩ : d.items <+: st.buffer.data := hitems ▸ List.take_prefix _ _
          have hdrop : (st.buffer.consume d.items.length).data = more := by
            rw [Window.consume_data, ← hmore, List.drop_left]
          rw [← hmore, List.append_assoc, decodeBody_content (by omega)] at hrem
          obtain ⟨later, hlater, hrem⟩ := Decoded.eq_of_after hrem
          refine (leaves_data_iff hne).mpr
            ⟨later, hlater, yields_framed hsource hmode hs ?_, Nat.le_refl _⟩
          rw [hdrop]
          exact hrem
      · next hc =>
          simp only
          generalize hskip : min st.remainingPadding st.buffered = skip
          have hsplit : st.buffer.data =
              st.buffer.data.take skip ++ (st.buffer.consume skip).data := by
            rw [Window.consume_data, List.take_append_drop]
          have hlen' : (st.buffer.data.take skip).length = skip := by
            rw [List.length_take]
            simp only [buffered, Window.length] at hskip
            omega
          have hc0 : st.remainingContent = 0 := Nat.eq_zero_of_not_pos hc
          rw [hsplit, List.append_assoc, hc0, decodeBody_padding (by omega), hlen'] at hrem
          refine ⟨yields_framed hsource hmode hs ?_, Nat.le_refl _⟩
          rw [← hrem, hc0]

/-! ### All passes -/

/-- A Vision stream that meets no direct frame delivers what the decoder says. -/
def readSpec : ReadSpec (pollRead : ReadFn (VisionStream σ) UInt8 IoError) :=
  ReadSpec.ofLoop (readLoop σ) Yields stalls <| by
    intro st items o cap hy hcap
    show PassLeaves Yields stalls st items o (st.pass cap)
    simp only [pass]
    split
    · next hmode => exact passRaw_leaves hy hmode hcap
    · next hmode => exact passUndecided_leaves hy hmode
    · next hmode =>
        split
        · next hbody => exact passHeader_leaves hy hmode hbody
        · next hbody => exact passBody_leaves hy hmode hbody hcap

end

/-- Take a server whose bytes, decoded, end with `o` and meet no direct frame.
However its bytes are cut into reads, with pending ones in between, and whatever
non-empty buffers the stream is read with, it delivers the decoded bytes and
ends with `o`. -/
theorem delivers_decode (uuid : Octets uuidSize) (draws : Nat → Nat) (reads : List ReadEvent)
    {items : Bytes} {o : End IoError}
    (h : decode uuid (unread reads) .eof = ⟨items, .ended o⟩) :
    Delivers pollRead (new (Transport.serving reads .eof) uuid draws) items o :=
  readSpec.delivers ⟨rfl, fun _ => ⟨rfl, rfl, rfl, rfl⟩, unread reads, .eof,
    Transport.serving_yields reads .eof, h⟩

/-- A frame with two bytes of content that ends the framing, and one byte after it, in
three pieces. -/
theorem delivers_decode_end :
    Delivers pollRead
      (new (Transport.serving [.data 7 (List.replicate 15 7 ++ [1]), .pending, .data 0 [2, 0, 1, 8],
        .data 9 [0, 10]] .eof) ⟨List.replicate 16 7, rfl⟩ fun _ => 0)
      [8, 9, 10] .eof := by
  refine delivers_decode _ _ _ ?_
  rw [decode, if_pos (by decide)]
  have hframe : (unread [.data 7 (List.replicate 15 7 ++ [1]), .pending, .data 0 [2, 0, 1, 8],
      .data 9 [0, 10]]).drop uuidSize = cmdEnd :: 0 :: 2 :: 0 :: 1 :: [8, 9, 0, 10] := by decide
  rw [hframe, decodeFrames_header (by decide) (by decide)]
  simp [decodeBody, decodeNext, Decoded.after, ofBe16]

end VisionStream

end RustClash
