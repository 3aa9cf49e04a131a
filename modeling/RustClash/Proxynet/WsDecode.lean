import RustClash.Proxynet.WsRead

/-!
# What a WebSocket reader delivers

`decode` takes frames off bytes that are all there, until it meets a close frame, a run of
empty frames that is too long, or a frame that is not complete.  A reader delivers this and
nothing else, however the bytes come in, well formed or not.  Of frames it is their payloads up
to the first close frame.
-/

namespace RustClash

namespace WebSocketStream

open WebSocket

/-- What the bytes hold when `n` empty frames have come in a row, and how they end, where `o` is
the end of the layer below. -/
def decode (o : End IoError) (n : Nat) (bs : Bytes) : Bytes × End IoError :=
  match h : parseWsFrame bs with
  | .error e => ([], .error e)
  | .ok none => ([], o)
  | .ok (some (_, .close)) => ([], .eof)
  | .ok (some (k, .skip)) => decode o n (bs.drop k)
  | .ok (some (k, .payload p)) =>
      if p = [] then
        if maxEmptyFrames < n + 1 then ([], .error tooManyEmpty) else decode o (n + 1) (bs.drop k)
      else End.after p (decode o 0 (bs.drop k))
termination_by bs.length
decreasing_by
  all_goals
    have hk := parseWsFrame_consumes h
    rw [List.length_drop]
    omega

variable {st st' : WebSocketStream Transport} {o : End IoError} {n k : Nat} {bs more : Bytes}

theorem decode_error {e : IoError} (h : parseWsFrame bs = .error e) :
    decode o n bs = ([], .error e) := by
  rw [decode]
  split <;> simp_all

theorem decode_none (h : parseWsFrame bs = .ok none) : decode o n bs = ([], o) := by
  rw [decode]
  split <;> simp_all

theorem decode_close (h : parseWsFrame bs = .ok (some (k, .close))) :
    decode o n bs = ([], .eof) := by
  rw [decode]
  split <;> simp_all

theorem decode_skip (h : parseWsFrame bs = .ok (some (k, .skip))) :
    decode o n bs = decode o n (bs.drop k) := by
  rw [decode]
  split <;> simp_all

theorem decode_empty (h : parseWsFrame bs = .ok (some (k, .payload []))) :
    decode o n bs = if maxEmptyFrames < n + 1 then ([], .error tooManyEmpty)
      else decode o (n + 1) (bs.drop k) := by
  rw [decode]
  split <;> simp_all

theorem decode_payload {p : Bytes} (h : parseWsFrame bs = .ok (some (k, .payload p)))
    (hp : p ≠ []) : decode o n bs = End.after p (decode o 0 (bs.drop k)) := by
  rw [decode]
  split <;> simp_all

/-- What is still to come, by what the bytes at hand and those of the layer below hold. -/
def ahead (st : WebSocketStream Transport) : Bytes × End IoError :=
  decode st.inner.inner.readEnd st.emptyFrames (st.rx ++ below st.inner)

/-- What a frame at hand means does not depend on what is behind it. -/
theorem parse_ahead {x : Nat × WsEvent} (h : parseWsFrame st.rx = .ok (some x)) :
    parseWsFrame (st.rx ++ below st.inner) = .ok (some x) ∧
      (st.rx ++ below st.inner).drop x.1 = st.rx.drop x.1 ++ below st.inner := by
  refine ⟨?_, List.drop_append_of_le_length (parseWsFrame_consumes h).2⟩
  rw [parseWsFrame_append (by simp [h]), h]

/-- Where the loop over the frames at hand stops. -/
inductive Scans (st : WebSocketStream Transport) : Framed × WebSocketStream Transport → Prop
| waits {st' : WebSocketStream Transport} :
  parseWsFrame st'.rx = .ok none ->
  st'.decoded = st.decoded ->
  st'.decodedPos = st.decodedPos ->
  st'.inner = st.inner ->
  st.ahead = st'.ahead ->
  Scans st (.waits, st')
| closed {st' : WebSocketStream Transport} :
  st.ahead = ([], .eof) ->
  Scans st (.closed, st')
| failed {st' : WebSocketStream Transport} {e : IoError} :
  st.ahead = ([], .error e) ->
  Scans st (.failed e, st')
| decoded {st' : WebSocketStream Transport} :
  st'.decoded ≠ [] ->
  st'.decodedPos = 0 ->
  st'.inner = st.inner ->
  st.ahead = End.after st'.decoded st'.ahead ->
  Scans st (.decoded, st')

/-- A pass over the frames at hand. -/
inductive Scanned (st : WebSocketStream Transport) :
    WebSocketStream Transport ⊕ (Framed × WebSocketStream Transport) → Prop
| again {st' : WebSocketStream Transport} :
  st'.decoded = st.decoded ->
  st'.decodedPos = st.decodedPos ->
  st'.inner = st.inner ->
  st.ahead = st'.ahead ->
  Scanned st (.inl st')
| stop {r : Framed × WebSocketStream Transport} :
  Scans st r ->
  Scanned st (.inr r)

theorem framePass_scanned (st : WebSocketStream Transport) : Scanned st st.framePass := by
  simp only [framePass]
  split
  · next e hparse =>
      refine .stop (.failed (decode_error ?_))
      rw [parseWsFrame_append (by simp [hparse]), hparse]
  · next hparse => exact .stop (.waits hparse rfl rfl rfl rfl)
  · next k ev hparse =>
      obtain ⟨hall, hdrop⟩ := parse_ahead hparse
      dsimp only at hdrop
      cases ev with
      | close => exact .stop (.closed (decode_close hall))
      | skip =>
          refine .again rfl rfl rfl ?_
          rw [ahead, decode_skip hall, hdrop]
          rfl
      | payload p =>
          dsimp only
          split
          · next hp =>
              cases List.isEmpty_iff.mp hp
              have hdecode := decode_empty (o := st.inner.inner.readEnd) (n := st.emptyFrames) hall
              split
              · next hmany =>
                  rw [if_pos hmany] at hdecode
                  exact .stop (.failed hdecode)
              · next hfew =>
                  rw [if_neg hfew, hdrop] at hdecode
                  exact .again rfl rfl rfl hdecode
          · next hp =>
              have hp : p ≠ [] := by simpa using hp
              refine .stop (.decoded hp rfl rfl ?_)
              rw [ahead, decode_payload hall hp, hdrop]
              rfl

theorem frames_scans (st : WebSocketStream Transport) : Scans st st.frames := by
  refine Loop.rule (l := frameLoop Transport) (P := Scans) ?_ ?_ st
  · intro st st' r hb ih
    have hpass := framePass_scanned st
    rw [show st.framePass = .inl st' from hb] at hpass
    cases hpass with
    | again hdecoded hpos hinner hahead =>
        cases ih with
        | waits hparse hdecoded' hpos' hinner' hahead' =>
            exact .waits hparse (hdecoded'.trans hdecoded) (hpos'.trans hpos)
              (hinner'.trans hinner) (hahead.trans hahead')
        | closed hahead' => exact .closed (hahead.trans hahead')
        | failed hahead' => exact .failed (hahead.trans hahead')
        | decoded hne hzero hinner' hahead' =>
            exact .decoded hne hzero (hinner'.trans hinner) (hahead.trans hahead')
  · intro st r hb
    have hpass := framePass_scanned st
    rw [show st.framePass = .inr r from hb] at hpass
    cases hpass with
    | stop hscans => exact hscans

/-! ## What a poll leaves -/

def stalls (st : WebSocketStream Transport) : Nat := RustClash.stalls st.inner.inner.reads

/-- What is decoded and not delivered, and what is ahead. -/
def Holds (st : WebSocketStream Transport) (items : Bytes) (o : End IoError) : Prop :=
  st.decodedPos ≤ st.decoded.length ∧
    (items, o) = End.after (st.decoded.drop st.decodedPos) st.ahead

variable {items : Bytes} {cap : Nat}

theorem takeDecoded_holds (hpos : st.decodedPos < st.decoded.length) (h : Holds st items o)
    (hcap : 0 < cap) : Leaves Holds stalls st items o (st.takeDecoded cap) := by
  obtain ⟨hle, heq⟩ := h
  obtain ⟨rfl, rfl⟩ := Prod.mk.inj heq
  have hne : st.decoded.drop st.decodedPos ≠ [] := by
    rw [← List.length_pos_iff, List.length_drop]
    exact Nat.sub_pos_of_lt hpos
  refine leaves_fill hne hcap ?_ ?_
  · rw [List.drop_drop]
    split
    · next hall =>
        have hnil : st.decoded.drop (st.decodedPos + cap) = [] := List.drop_eq_nil_of_le (by omega)
        rw [hnil]
        exact ⟨Nat.le_refl _, rfl⟩
    · next hsome =>
        have hmin : min (st.decoded.length - st.decodedPos) cap = cap :=
          Nat.min_eq_right (by omega)
        rw [hmin] at hsome ⊢
        exact ⟨by dsimp only; omega, rfl⟩
  · split <;> exact Nat.le_refl _

/-- A reader that waits takes what comes next, or ends as the layer below does. -/
theorem readMore_holds (cap : Nat) (hparse : parseWsFrame st.rx = .ok none)
    (hnil : st.decoded.drop st.decodedPos = []) (hle : st.decodedPos ≤ st.decoded.length) :
    PassLeaves Holds stalls st st.ahead.1 st.ahead.2 (st.readMore cap) := by
  have hy : (PrefixedStream.readSpec Transport.readSpec).Yields st.inner (below st.inner)
      st.inner.inner.readEnd := ⟨_, ⟨rfl, rfl⟩, rfl⟩
  have hleaves := (PrefixedStream.readSpec Transport.readSpec).leaves hy (by decide : 0 < 4096)
  have hlast (hbelow : below st.inner = []) : st.ahead = ([], st.inner.inner.readEnd) := by
    rw [ahead, hbelow, List.append_nil, decode_none hparse]
  simp only [readMore]
  generalize pollRead st.inner 4096 = r at hleaves ⊢
  rcases r with ⟨_ | e | d, inner⟩
  · obtain ⟨⟨_, ⟨rfl, hend⟩, hbelow⟩, hlt⟩ := hleaves
    refine ⟨⟨hle, ?_⟩, hlt⟩
    show _ = End.after (st.decoded.drop st.decodedPos)
      (decode inner.inner.readEnd st.emptyFrames (st.rx ++ below inner))
    rw [hnil, ahead, hbelow, hend]
    rfl
  · obtain ⟨hbelow, hend⟩ := hleaves
    rw [hlast hbelow]
    exact ⟨rfl, hend⟩
  · dsimp only
    by_cases hd : d.items = []
    · obtain ⟨hbelow, hend⟩ := (leaves_eof_iff hd).mp hleaves
      rw [if_pos (by simpa using hd), hlast hbelow]
      exact ⟨rfl, hend⟩
    · obtain ⟨_, hbelow, ⟨_, ⟨rfl, hend⟩, rfl⟩, hstalls⟩ := (leaves_data_iff hd).mp hleaves
      rw [if_neg (by simpa using hd)]
      refine ⟨⟨hle, ?_⟩, hstalls⟩
      show _ = End.after (st.decoded.drop st.decodedPos)
        (decode inner.inner.readEnd st.emptyFrames (st.rx ++ d.items ++ below inner))
      rw [hnil, ahead, hbelow, hend, List.append_assoc]
      rfl

theorem pass_holds (h : Holds st items o) (hcap : 0 < cap) :
    PassLeaves Holds stalls st items o (st.pass cap) := by
  simp only [pass]
  split
  · next hpos => exact takeDecoded_holds hpos h hcap
  · next hpos =>
      obtain ⟨hle, heq⟩ := h
      have hnil : st.decoded.drop st.decodedPos = [] :=
        List.drop_eq_nil_of_le (Nat.not_lt.mp hpos)
      rw [hnil] at heq
      obtain ⟨rfl, rfl⟩ := Prod.mk.inj heq
      have hscans := frames_scans st
      generalize st.frames = r at hscans ⊢
      cases hscans with
      | @waits st' hparse hdecoded hpos' hinner hahead =>
          dsimp only
          have hmore := readMore_holds cap hparse (by rw [hdecoded, hpos', hnil])
            (by rw [hdecoded, hpos']; exact hle)
          rw [← hahead] at hmore
          have hstalls : stalls st' = stalls st := by rw [stalls, stalls, hinner]
          rcases hr : st'.readMore cap with st'' | r
          · rw [hr] at hmore
            exact ⟨hmore.1, hstalls ▸ hmore.2⟩
          · rw [hr] at hmore
            exact Leaves.mono (Nat.le_of_eq hstalls) hmore
      | closed hahead =>
          rw [hahead]
          exact passLeaves_empty _ _
      | failed hahead =>
          rw [hahead]
          exact ⟨rfl, rfl⟩
      | @decoded st' hne hzero hinner hahead =>
          refine ⟨⟨hzero ▸ Nat.zero_le _, ?_⟩, ?_⟩
          · rw [hzero, List.drop_zero, hahead]
            rfl
          · rw [stalls, stalls, hinner]

/-- What a WebSocket reader yields, whatever comes. -/
def streamSpec : ReadSpec (pollRead : ReadFn (WebSocketStream Transport) UInt8 IoError) :=
  .ofLoop readLoop Holds stalls pass_holds

/-- A new stream delivers what its leftover and the bytes behind it hold. -/
theorem delivers_new (leftover : Bytes) (t : Transport) (rng : Nat → UInt8) :
    Delivers pollRead (new t leftover rng) (decode t.readEnd 0 (leftover ++ unread t.reads)).1
      (decode t.readEnd 0 (leftover ++ unread t.reads)).2 :=
  streamSpec.delivers ⟨Nat.le_refl _, rfl⟩

/-! ## Bytes that are frames -/

variable {fs : List Frame}

/-- The frames of a patient peer mean their payloads, and a frame that is not complete nothing. -/
theorem decode_frames (hfits : ∀ f ∈ fs, f.Fits) (hpatient : Patient n fs) {tail : Bytes}
    (htail : parseWsFrame tail = .ok none) :
    decode o n (fs.flatMap Frame.bytes ++ tail) = (payloads fs, endOf o fs) := by
  induction fs generalizing n with
  | nil => exact decode_none htail
  | cons f fs ih =>
      obtain ⟨hf, hfs⟩ := List.forall_mem_cons.mp hfits
      rw [List.flatMap_cons, List.append_assoc]
      have hparse := parseWsFrame_bytes hf (fs.flatMap Frame.bytes ++ tail)
      have hdrop : (f.bytes ++ (fs.flatMap Frame.bytes ++ tail)).drop f.bytes.length =
          fs.flatMap Frame.bytes ++ tail := List.drop_left
      rw [Patient] at hpatient
      rw [payloads, endOf]
      generalize f.event = ev at hparse hpatient ⊢
      cases ev with
      | close => exact decode_close hparse
      | skip => rw [decode_skip hparse, hdrop, ih hfs hpatient]
      | payload p =>
          dsimp only at hpatient ⊢
          split at hpatient
          · next hp =>
              subst hp
              rw [decode_empty hparse, if_neg (Nat.not_lt.mpr hpatient.1), hdrop,
                ih hfs hpatient.2]
              rfl
          · next hp =>
              rw [decode_payload hparse hp, hdrop, ih hfs hpatient]
              rfl

/-- A frame that is written is taken off whatever follows it.  However frames come in, with at most
64 empty data frames in a row, a reader delivers the payloads up to the first close frame, and
does not end before it. -/
theorem delivers_payloads :
    (∀ (mask : Octets 4) (payload suffix : Bytes), payload.length < 2 ^ 63 →
      parseWsFrame (encodeClientBinaryFrame mask payload ++ suffix) =
        .ok (some ((encodeClientBinaryFrame mask payload).length, .payload payload))) ∧
    ∀ (fs : List Frame) (leftover : Bytes) (reads : List ReadEvent) (readEnd : End IoError)
      (rng : Nat → UInt8), (∀ f ∈ fs, f.Fits) →
      (∀ k, List.replicate k [] <:+: dataPayloads fs → k ≤ maxEmptyFrames) →
      leftover ++ unread reads = fs.flatMap Frame.bytes →
      Delivers pollRead (new (Transport.serving reads readEnd) leftover rng) (payloads fs)
        (endOf readEnd fs) := by
  refine ⟨fun mask payload suffix h => parseWsFrame_encode mask h suffix, ?_⟩
  intro fs leftover reads readEnd rng hfits hruns hbytes
  have hpatient : Patient 0 fs := patient_of_runs hruns fun k hk => hruns k hk.isInfix
  have hdecode := @decode_frames readEnd 0 fs hfits hpatient [] rfl
  rw [List.append_nil, ← hbytes] at hdecode
  have hdelivers := delivers_new leftover (Transport.serving reads readEnd) rng
  rw [show decode (Transport.serving reads readEnd).readEnd 0
    (leftover ++ unread (Transport.serving reads readEnd).reads) = _ from hdecode] at hdelivers
  exact hdelivers

/-- A ping, a masked frame and an empty one before a close frame. -/
theorem delivers_payloads_closed :
    let fs : List Frame := [⟨0x89, none, .short, [7]⟩,
      ⟨0x02, some ⟨[1, 2, 3, 4], rfl⟩, .medium, [5, 6]⟩, ⟨0x80, none, .long, []⟩,
      ⟨0x88, none, .short, []⟩]
    Delivers pollRead (new (Transport.serving (arrive (fs.flatMap Frame.bytes) []) .eof) [] fun _ => 0)
      [5, 6] .eof := by
  intro fs
  refine delivers_payloads.2 fs [] (arrive (fs.flatMap Frame.bytes) []) .eof (fun _ => 0) ?_ ?_ ?_
  · simp only [fs, List.forall_mem_cons, Frame.Fits]
    exact ⟨by decide, by decide, by decide, by decide, List.forall_mem_nil _⟩
  · intro k hk
    have hlen := hk.length_le
    rw [List.length_replicate] at hlen
    exact Nat.le_trans hlen (by decide)
  · exact (unread_arrive _ _).trans (List.append_nil _)

end WebSocketStream

end RustClash
