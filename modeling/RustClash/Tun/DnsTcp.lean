import RustClash.Lib.Framing
import RustClash.Net.Exchange
import RustClash.Tun.DnsReply

/-!
# Queries over a stream

A connection of a program to port 53 is not relayed: `handle_dns_tcp` reads its messages,
each behind a length of two bytes, and answers them one by one from the pool of fake
addresses.  The pool and the table of flows are shared, so `Others` says what the rest of
the program does with them before each lookup.

`messages` cuts the same messages off all the bytes of the stream, however they arrive;
what is written is the frames of what it yields.
-/

namespace RustClash

open Str Checked

namespace Routing

/-! ## The loop -/

/-- The rest of the program: what is called on the pool before a message is answered, and
the flows there are then. -/
structure Others where
  calls : Nat → List FakeIpPool.Call
  nat : Nat → TcpNat

/-- `handle_dns_tcp` between two messages. -/
structure DnsTcp where
  stream : Transport
  pool : FakeIpPool
  answered : Nat

section

variable (idna : String → Option String) (others : Others)

/-- What a message is answered at its turn. -/
def answerAt (turn : Nat) (pool : FakeIpPool) (msg : Bytes) : Checked (Option Bytes × FakeIpPool) :=
  handleDns idna (others.nat turn) ((others.calls turn).foldl (FakeIpPool.perform idna) pool) msg

def frame (answer : Bytes) : Bytes := toBe16 answer.length ++ answer

/-- One round of the loop of `handle_dns_tcp`. -/
def handleDnsTcpRound (s : DnsTcp) : DnsTcp ⊕ (Checked (IoResult Unit) × DnsTcp) :=
  match s.stream.readBytes 2 with
  | (.error _, stream) => .inr (.ok (.ok ()), { s with stream })
  | (.ok lenb, stream) =>
      let msgLen := ofBe16 (lenb.getD 0 0) (lenb.getD 1 0)
      if msgLen < 12 ∨ 4096 < msgLen then .inr (.ok (.ok ()), { s with stream })
      else
        match stream.readBytes msgLen with
        | (.error _, stream) => .inr (.ok (.ok ()), { s with stream })
        | (.ok msg, stream) =>
            match answerAt idna others s.answered s.pool msg with
            | .error fault => .inr (.error fault, { s with stream })
            | .ok (none, pool) => .inr (.ok (.ok ()), { s with stream, pool })
            | .ok (some answer, pool) =>
                match stream.writeAll (frame answer) with
                | (.error e, stream) => .inr (.ok (.error e), { s with stream, pool })
                | (.ok (), stream) => .inl ⟨stream, pool, s.answered + 1⟩

/-! ## The messages of a stream -/

/-- A message of this length at the front, its answer and what is behind it. -/
def nextBody (st : Nat × FakeIpPool) (msgLen : Nat) (input : Bytes) :
    Except Unit (Option (Bytes × (Nat × FakeIpPool) × Bytes)) :=
  if msgLen < 12 ∨ 4096 < msgLen then .error ()
  else if input.length < msgLen then .ok none
  else
    match answerAt idna others st.1 st.2 (input.take msgLen) with
    | .ok (some answer, pool) => .ok (some (answer, (st.1 + 1, pool), input.drop msgLen))
    | .ok (none, _) => .error ()
    | .error _ => .error ()

def nextMessage (st : Nat × FakeIpPool) (input : Bytes) :
    Except Unit (Option (Bytes × (Nat × FakeIpPool) × Bytes)) :=
  if input.length < 2 then .ok none
  else nextBody idna others st (ofBe16 (input.getD 0 0) (input.getD 1 0)) (input.drop 2)

end

section

variable {idna : String → Option String} {others : Others} {st st' : Nat × FakeIpPool}
  {msgLen : Nat} {msg input rest answer : Bytes} {pool : FakeIpPool}

theorem nextBody_more (more : Bytes) (h : nextBody idna others st msgLen input ≠ .ok none) :
    nextBody idna others st msgLen (input ++ more) =
      (nextBody idna others st msgLen input).map
        (Option.map fun found => (found.1, found.2.1, found.2.2 ++ more)) := by
  rw [nextBody] at h ⊢
  rw [nextBody]
  by_cases hrange : msgLen < 12 ∨ 4096 < msgLen
  · rw [if_pos hrange, if_pos hrange]
    rfl
  rw [if_neg hrange] at h
  rw [if_neg hrange, if_neg hrange]
  by_cases hbody : input.length < msgLen
  · rw [if_pos hbody] at h
    exact absurd rfl h
  have hle := Nat.not_lt.mp hbody
  have hsize : ¬ (input ++ more).length < msgLen := by
    rw [List.length_append]
    omega
  rw [if_neg hsize, if_neg hbody, List.take_append_of_le_length hle,
    List.drop_append_of_le_length hle]
  split <;> rfl

theorem nextMessage_more (more : Bytes) (h : nextMessage idna others st input ≠ .ok none) :
    nextMessage idna others st (input ++ more) =
      (nextMessage idna others st input).map
        (Option.map fun found => (found.1, found.2.1, found.2.2 ++ more)) := by
  cases input with
  | nil => exact absurd rfl h
  | cons hi input =>
      cases input with
      | nil => exact absurd rfl h
      | cons lo input => exact nextBody_more more h

/-- The messages on a stream, with their answers. -/
def messages (idna : String → Option String) (others : Others) :
    Framer (Nat × FakeIpPool) UInt8 Bytes Unit where
  cut := nextMessage idna others
  waits _ := rfl
  grows := by
    intro st st' input rest answer more h
    rw [nextMessage_more more (by rw [h]; exact fun h => by cases h), h]
    rfl
  fails := by
    intro st input e more h
    rw [nextMessage_more more (by rw [h]; exact fun h => by cases h), h]
    rfl

theorem length_frame (answer : Bytes) : (frame answer).length = 2 + answer.length := by
  rw [frame, List.length_append, length_toBe16]

theorem ofBe16_frame (h : msg.length ≤ 4096) :
    ofBe16 ((frame msg ++ rest).getD 0 0) ((frame msg ++ rest).getD 1 0) = msg.length :=
  ofBe16_toBe16 (Nat.lt_of_le_of_lt h (by decide))

/-- A message of a length that is served is cut off, if it is one to answer. -/
theorem nextMessage_frame (hlen : 12 ≤ msg.length ∧ msg.length ≤ 4096)
    (hanswer : answerAt idna others st.1 st.2 msg = .ok (some answer, pool)) :
    nextMessage idna others st (frame msg ++ rest) =
      .ok (some (answer, (st.1 + 1, pool), rest)) := by
  have hfront : ¬ (frame msg ++ rest).length < 2 := by
    rw [List.length_append, length_frame]
    omega
  have hbody : ¬ (msg ++ rest).length < msg.length := by
    rw [List.length_append]
    omega
  rw [nextMessage, if_neg hfront, ofBe16_frame hlen.2, frame, List.append_assoc,
    List.drop_left' (length_toBe16 _), nextBody, if_neg (by omega), if_neg hbody, List.take_left,
    List.drop_left, hanswer]

theorem toBe16_front (h : 2 ≤ input.length) :
    toBe16 (ofBe16 (input.getD 0 0) (input.getD 1 0)) = input.take 2 := by
  cases input with
  | nil => cases h
  | cons hi input =>
      cases input with
      | nil => exact absurd h (Nat.not_succ_le_self 1)
      | cons lo input => exact toBe16_ofBe16 hi lo

/-- Only such messages are cut off. -/
theorem nextMessage_some (h : nextMessage idna others st input = .ok (some (answer, st', rest))) :
    ∃ msg, input = frame msg ++ rest ∧ (12 ≤ msg.length ∧ msg.length ≤ 4096) ∧
      answerAt idna others st.1 st.2 msg = .ok (some answer, st'.2) ∧ st'.1 = st.1 + 1 := by
  rw [nextMessage] at h
  by_cases hlen : input.length < 2
  · rw [if_pos hlen] at h
    cases h
  have hfront := toBe16_front (Nat.not_lt.mp hlen)
  rw [if_neg hlen, nextBody] at h
  generalize ofBe16 (input.getD 0 0) (input.getD 1 0) = msgLen at h hfront
  by_cases hrange : msgLen < 12 ∨ 4096 < msgLen
  · rw [if_pos hrange] at h
    cases h
  by_cases hbody : (input.drop 2).length < msgLen
  · rw [if_neg hrange, if_pos hbody] at h
    cases h
  have hsize := List.length_take_of_le (Nat.not_lt.mp hbody)
  rw [if_neg hrange, if_neg hbody] at h
  split at h
  · next answer' pool hanswer =>
      cases h
      refine ⟨(input.drop 2).take msgLen, ?_, by omega, hanswer, rfl⟩
      rw [frame, hsize, hfront, List.append_assoc, List.take_append_drop, List.take_append_drop]
  · cases h
  · cases h

end

/-! ## The loop and the messages -/

/-- What is shared, as the messages thread it. -/
def DnsTcp.shared (s : DnsTcp) : Nat × FakeIpPool := (s.answered, s.pool)

/-- All that a round can do: answer the next message, stop where there is none to answer, or
fail to write the answer. -/
inductive Round (idna : String → Option String) (others : Others) (s : DnsTcp) :
    DnsTcp ⊕ (Checked (IoResult Unit) × DnsTcp) -> Prop where
| again :
  nextMessage idna others s.shared (unread s.stream.reads) =
    .ok (some (answer, s'.shared, unread s'.stream.reads)) ->
  s'.stream.written = s.stream.written ++ frame answer ->
  (s.stream.Takes → s'.stream.Takes) ->
  Round idna others s (.inl s')
| stop :
  (∀ found, nextMessage idna others s.shared (unread s.stream.reads) ≠ .ok (some found)) ->
  s'.stream.written = s.stream.written ->
  Round idna others s (.inr (.ok (.ok ()), s'))
| cut :
  nextMessage idna others s.shared (unread s.stream.reads) = .ok (some (answer, st, rest)) ->
  sent <+: frame answer ->
  s'.stream.written = s.stream.written ++ sent ->
  ¬ s.stream.Takes ->
  Round idna others s (.inr (.ok (.error e), s'))

theorem runs_answerAt (idna : String → Option String) (others : Others) (turn : Nat)
    (pool : FakeIpPool) (msg : Bytes) : Runs (answerAt idna others turn pool msg) := by
  obtain ⟨query, hquery⟩ := Dns.runs_parseDnsQuery msg
  rw [answerAt, handleDns, hquery, ok_bind]
  cases query with
  | none => exact ⟨_, rfl⟩
  | some query =>
      obtain ⟨id, qname, qtype⟩ := query
      dsimp only
      split
      · exact ⟨_, rfl⟩
      · exact ⟨_, rfl⟩

variable {idna : String → Option String} {others : Others}

theorem getD_take {input : Bytes} {n i : Nat} (h : i < n) :
    (input.take n).getD i 0 = input.getD i 0 := by
  rw [List.getD_eq_getElem?_getD, List.getElem?_take_of_lt h, List.getD_eq_getElem?_getD]

theorem round_handleDnsTcpRound (s : DnsTcp) :
    Round idna others s (handleDnsTcpRound idna others s) := by
  simp only [handleDnsTcpRound]
  have hlenb := Transport.readBytes_cases s.stream 2
  generalize s.stream.readBytes 2 = lenb at hlenb
  cases hlenb with
  | short hshort hwritten =>
      refine .stop (fun found h => ?_) hwritten
      rw [nextMessage, if_pos hshort] at h
      cases h
  | got hlen hrest hwritten hwrites =>
  next stream =>
  have hnext : nextMessage idna others s.shared (unread s.stream.reads) =
      nextBody idna others s.shared _ _ := if_neg (Nat.not_lt.mpr hlen)
  dsimp only
  rw [getD_take (by decide), getD_take (by decide)]
  generalize ofBe16 _ _ = msgLen at hnext ⊢
  rw [← hrest, nextBody] at hnext
  by_cases hrange : msgLen < 12 ∨ 4096 < msgLen
  · rw [if_pos hrange] at hnext ⊢
    exact .stop (fun found h => by cases hnext.symm.trans h) hwritten
  rw [if_neg hrange] at hnext ⊢
  have hmsg := Transport.readBytes_cases stream msgLen
  generalize stream.readBytes msgLen = msg at hmsg
  cases hmsg with
  | short hshort hwritten' =>
      rw [if_pos hshort] at hnext
      exact .stop (fun found h => by cases hnext.symm.trans h) (hwritten'.trans hwritten)
  | got hbody hrest' hwritten' hwrites' =>
  next stream' =>
  obtain ⟨⟨reply, pool⟩, hanswer⟩ := runs_answerAt idna others s.answered s.pool
    ((unread stream.reads).take msgLen)
  have hanswer' : answerAt idna others s.shared.1 s.shared.2 _ = _ := hanswer
  rw [if_neg (Nat.not_lt.mpr hbody), hanswer'] at hnext
  dsimp only
  rw [hanswer]
  cases reply with
  | none =>
      exact .stop (fun found h => by cases hnext.symm.trans h) (hwritten'.trans hwritten)
  | some answer =>
      dsimp only at hnext ⊢
      obtain ⟨sent, hsent, hwrote, hall⟩ := stream'.writeAll_spec (frame answer)
      have htakes (h : s.stream.Takes) :=
        Transport.takes_writeAll (h.congr (hwrites'.trans hwrites)) (frame answer)
      generalize stream'.writeAll (frame answer) = r at hwrote hall htakes
      obtain ⟨result, stream''⟩ := r
      have hwritten'' := hwrote.written
      rw [hwritten', hwritten] at hwritten''
      cases result with
      | error e =>
          exact .cut hnext hsent hwritten'' fun h => by cases (htakes h).1
      | ok =>
          rw [← hrest', ← hwrote.reads] at hnext
          rw [hall rfl] at hwritten''
          exact .again hnext hwritten'' fun h => (htakes h).2

variable (idna others) in
def handleDnsTcpLoop : Loop DnsTcp (Checked (IoResult Unit) × DnsTcp) where
  body := handleDnsTcpRound idna others
  measure s := (unread s.stream.reads).length
  decreases := by
    intro s s' hround
    have hcases := @round_handleDnsTcpRound idna others s
    rw [hround] at hcases
    cases hcases with
    | again hnext _ _ =>
        obtain ⟨msg, hinput, -⟩ := nextMessage_some hnext
        rw [hinput, List.length_append, length_frame]
        omega

variable (idna others) in
/-- `handle_dns_tcp`. -/
def handleDnsTcp (stream : Transport) (pool : FakeIpPool) : Checked (IoResult Unit) × DnsTcp :=
  (handleDnsTcpLoop idna others).run ⟨stream, pool, 0⟩

/-- How a run from here ends: where no message is next, or at an answer that was not written. -/
inductive Served (idna : String → Option String) (others : Others) (s : DnsTcp) :
    Checked (IoResult Unit) × DnsTcp -> Prop where
| stopped :
  (messages idna others).Frames s.shared (unread s.stream.reads) answers st rest ->
  (∀ found, nextMessage idna others st rest ≠ .ok (some found)) ->
  s'.stream.written = s.stream.written ++ answers.flatMap frame ->
  Served idna others s (.ok (.ok ()), s')
| failed :
  (messages idna others).Frames s.shared (unread s.stream.reads) (answers ++ [last]) st rest ->
  sent <+: frame last ->
  s'.stream.written = s.stream.written ++ answers.flatMap frame ++ sent ->
  ¬ s.stream.Takes ->
  Served idna others s (.ok (.error e), s')

theorem served_handleDnsTcpLoop (s : DnsTcp) :
    Served idna others s ((handleDnsTcpLoop idna others).run s) := by
  refine Loop.rule (l := handleDnsTcpLoop idna others) (P := Served idna others) ?_ ?_ s
  · intro s s' r hround ih
    have hcases := @round_handleDnsTcpRound idna others s
    rw [show handleDnsTcpRound idna others s = .inl s' from hround] at hcases
    cases hcases with
    | again hnext hwritten htakes =>
        cases ih with
        | stopped hframes hstops hall =>
            refine .stopped (.cons hnext hframes) hstops ?_
            rw [hall, hwritten, List.flatMap_cons, List.append_assoc]
        | failed hframes hsent hall hnot =>
            have hframes' := Framer.Frames.cons hnext hframes
            rw [← List.cons_append] at hframes'
            refine .failed hframes' hsent ?_ fun h => hnot (htakes h)
            rw [hall, hwritten, List.flatMap_cons]
            simp only [List.append_assoc]
  · intro s r hround
    have hcases := @round_handleDnsTcpRound idna others s
    rw [show handleDnsTcpRound idna others s = .inr r from hround] at hcases
    cases hcases with
    | stop hstops hwritten =>
        exact .stopped .nil hstops (hwritten.trans (List.append_nil _).symm)
    | cut hnext hsent hwritten hnot =>
        have hframes : (messages idna others).Frames _ _ [_] _ _ := .single hnext
        rw [← List.nil_append [_]] at hframes
        refine .failed hframes hsent ?_ hnot
        rw [hwritten, List.flatMap_nil, List.append_nil]

/-! ## The answers -/

theorem handleDns_answer (hidna : Dns.Compact idna) {nat : TcpNat} {pool pool' : FakeIpPool}
    {msg answer : Bytes} (hpool : pool.WF)
    (h : handleDns idna nat pool msg = .ok (some answer, pool')) :
    pool'.WF ∧ answer.length ≤ 60518 ∧ answer.take 2 = msg.take 2 ∧
      ∀ labels k next, Dns.NameAt msg 12 k (labels.map bytes) next →
        (∀ label ∈ labels, Dns.IsNameLabel label) → Dns.Echoes msg labels next answer := by
  obtain ⟨query, hquery⟩ := Dns.runs_parseDnsQuery msg
  rw [handleDns, hquery, ok_bind] at h
  cases query with
  | none => cases h
  | some query =>
      obtain ⟨id, qname, qtype⟩ := query
      have hlen := Dns.length_answer_le hidna hquery
      have hid := @Dns.id_answer idna _ _ _ _ hquery
      dsimp only at h
      by_cases hq : qtype = 1
      · rw [if_pos hq] at h
        cases h
        exact ⟨hpool.lookupAvoiding _ _ _, hlen.1 _, hid.1 _, fun labels k next hname hvalid =>
          (Dns.echoes_answer hvalid hname hquery).1 hq _⟩
      · rw [if_neg hq] at h
        cases h
        exact ⟨hpool, hlen.2, hid.2, fun labels k next hname hvalid =>
          (Dns.echoes_answer hvalid hname hquery).2⟩

theorem WF_foldl_perform {pool : FakeIpPool} (hpool : pool.WF) (calls : List FakeIpPool.Call) :
    (calls.foldl (FakeIpPool.perform idna) pool).WF := by
  induction calls generalizing pool with
  | nil => exact hpool
  | cons call calls ih => exact ih (hpool.perform call)

/-- The pool stays well-formed, and the length in front of each answer is its own. -/
theorem frames_messages (hidna : Dns.Compact idna) {st st' : Nat × FakeIpPool}
    {input rest : Bytes} {answers : List Bytes} (hpool : st.2.WF)
    (h : (messages idna others).Frames st input answers st' rest) :
    st'.2.WF ∧ ∀ answer ∈ answers, answer.length ≤ 60518 := by
  induction h with
  | nil =>
      refine ⟨hpool, fun answer hmem => ?_⟩
      cases hmem
  | cons hnext _ ih =>
      obtain ⟨msg, -, -, hanswer, -⟩ := nextMessage_some hnext
      obtain ⟨hpool', hlen, -⟩ := handleDns_answer hidna (WF_foldl_perform hpool _) hanswer
      obtain ⟨hwf, hall⟩ := ih hpool'
      refine ⟨hwf, fun answer hmem => ?_⟩
      rcases List.mem_cons.mp hmem with rfl | hmem
      · exact hlen
      · exact hall answer hmem

/-- However a stream arrives and whatever the rest of the program does with the pool, the
messages at its front are answered in their order, each behind its own length: all of them
up to the first that is none to answer, or up to an answer that the stream does not take. -/
theorem handleDnsTcp_answers (hidna : Dns.Compact idna) (others : Others) (stream : Transport)
    {pool : FakeIpPool} (hpool : pool.WF) :
    ∃ result s' answers st rest,
      handleDnsTcp idna others stream pool = (.ok result, s') ∧
      (messages idna others).Frames (0, pool) (unread stream.reads) answers st rest ∧
      st.2.WF ∧ (∀ answer ∈ answers, answer.length ≤ 60518) ∧
      ((result = .ok () ∧ (∀ found, nextMessage idna others st rest ≠ .ok (some found)) ∧
          s'.stream.written = stream.written ++ answers.flatMap frame) ∨
        ∃ e front last sent, result = .error e ∧ answers = front ++ [last] ∧
          sent <+: frame last ∧
          s'.stream.written = stream.written ++ front.flatMap frame ++ sent) := by
  have hserved := @served_handleDnsTcpLoop idna others ⟨stream, pool, 0⟩
  rw [handleDnsTcp]
  generalize (handleDnsTcpLoop idna others).run ⟨stream, pool, 0⟩ = r at hserved
  cases hserved with
  | stopped hframes hstops hwritten =>
      obtain ⟨hwf, hlen⟩ := frames_messages hidna hpool hframes
      exact ⟨_, _, _, _, _, rfl, hframes, hwf, hlen, .inl ⟨rfl, hstops, hwritten⟩⟩
  | failed hframes hsent hwritten _ =>
      obtain ⟨hwf, hlen⟩ := frames_messages hidna hpool hframes
      exact ⟨_, _, _, _, _, rfl, hframes, hwf, hlen,
        .inr ⟨_, _, _, _, rfl, rfl, hsent, hwritten⟩⟩

/-- The query of `exampleQuery`, and the one for the address of version 4. -/
def exampleQueries : List Bytes :=
  [Stack.exampleQuery.drop 28,
    [0xAB, 0xCE, 1, 0, 0, 1, 0, 0, 0, 0, 0, 0, 1, 65, 1, 98, 0, 0, 1, 0, 1]]

/-- Both queries, the first byte alone and all else at once, over a stream that takes four bytes
and then the rest. -/
def exampleStream : Transport :=
  ⟨[.data 0 [], .pending, .data 21 ((exampleQueries.flatMap frame).drop 2)], .eof,
    [.accept 4, .pending], []⟩

/-- Another name is looked up before each answer. -/
def exampleOthers : Others := ⟨fun turn => [.lookup (toString turn)], fun _ => .new 5⟩

theorem handleDnsTcp_answers_example : ∃ result s' answers st rest,
    handleDnsTcp Stack.asciiNames exampleOthers exampleStream .new = (.ok result, s') ∧
    (messages Stack.asciiNames exampleOthers).Frames (0, .new) (unread exampleStream.reads) answers
      st rest ∧
    st.2.WF ∧ (∀ answer ∈ answers, answer.length ≤ 60518) ∧
    ((result = .ok () ∧
        (∀ found, nextMessage Stack.asciiNames exampleOthers st rest ≠ .ok (some found)) ∧
        s'.stream.written = [] ++ answers.flatMap frame) ∨
      ∃ e front last sent, result = .error e ∧ answers = front ++ [last] ∧ sent <+: frame last ∧
        s'.stream.written = [] ++ front.flatMap frame ++ sent) :=
  handleDnsTcp_answers Stack.compact_asciiNames exampleOthers exampleStream .new

/-! ## Queries that are sent together -/

/-- What a program may send: a query of a length that is served. -/
structure IsQuery (msg : Bytes) : Prop where
  length : 12 ≤ msg.length ∧ msg.length ≤ 4096
  query : ∃ q, Dns.parseDnsQuery msg = .ok (some q)

/-- The id comes back, and the question where its name is one of plain labels. -/
def Answers (msg answer : Bytes) : Prop :=
  answer.length ≤ 60518 ∧ answer.take 2 = msg.take 2 ∧
    ∀ labels k next, Dns.NameAt msg 12 k (labels.map bytes) next →
      (∀ label ∈ labels, Dns.IsNameLabel label) → Dns.Echoes msg labels next answer

theorem IsQuery.answerAt {msg : Bytes} (h : IsQuery msg) (idna : String → Option String)
    (others : Others) (turn : Nat) (pool : FakeIpPool) :
    ∃ answer pool', answerAt idna others turn pool msg = .ok (some answer, pool') := by
  obtain ⟨⟨id, qname, qtype⟩, hquery⟩ := h.query
  rw [Routing.answerAt, handleDns, hquery, ok_bind]
  dsimp only
  by_cases hq : qtype = 1
  · rw [if_pos hq]
    exact ⟨_, _, rfl⟩
  · rw [if_neg hq]
    exact ⟨_, _, rfl⟩

theorem messages_queries (hidna : Dns.Compact idna) (others : Others) {msgs : List Bytes}
    (rest : Bytes) (hmsgs : ∀ msg ∈ msgs, IsQuery msg) {st : Nat × FakeIpPool} (hpool : st.2.WF) :
    ∃ answers st',
      (messages idna others).Frames st (msgs.flatMap frame ++ rest) answers st' rest ∧
      List.Forall₂ Answers msgs answers := by
  induction msgs generalizing st with
  | nil => exact ⟨[], st, .nil, .nil⟩
  | cons msg msgs ih =>
      have hmsg := hmsgs msg List.mem_cons_self
      obtain ⟨answer, pool, hanswer⟩ := hmsg.answerAt idna others st.1 st.2
      obtain ⟨hpool', hone⟩ := handleDns_answer hidna (WF_foldl_perform hpool _) hanswer
      obtain ⟨answers, st', hframes, hall⟩ :=
        @ih (fun msg hmem => hmsgs msg (List.mem_cons_of_mem _ hmem)) (st.1 + 1, pool) hpool'
      refine ⟨answer :: answers, st', ?_, .cons hone hall⟩
      rw [List.flatMap_cons, List.append_assoc]
      exact .cons (nextMessage_frame hmsg.length hanswer) hframes

/-- Queries that arrive together, in whatever pieces, are all answered in their order, over a
stream that goes on to take what is written. -/
theorem handleDnsTcp_pipelined (hidna : Dns.Compact idna) (others : Others) {stream : Transport}
    (htakes : stream.Takes) {pool : FakeIpPool} (hpool : pool.WF) {msgs : List Bytes} {rest : Bytes}
    (hinput : unread stream.reads = msgs.flatMap frame ++ rest)
    (hmsgs : ∀ msg ∈ msgs, IsQuery msg) :
    ∃ s' answers, handleDnsTcp idna others stream pool = (.ok (.ok ()), s') ∧
      List.Forall₂ Answers msgs answers ∧
      stream.written ++ answers.flatMap frame <+: s'.stream.written := by
  obtain ⟨answers, st, hframes, hanswers⟩ :=
    @messages_queries _ hidna others _ rest hmsgs (0, pool) hpool
  have hserved := @served_handleDnsTcpLoop idna others ⟨stream, pool, 0⟩
  rw [← hinput] at hframes
  rw [handleDnsTcp]
  generalize (handleDnsTcpLoop idna others).run ⟨stream, pool, 0⟩ = r at hserved
  cases hserved with
  | stopped hrun hstops hwritten =>
      obtain ⟨more, rfl, -⟩ := hrun.of_stops hstops hframes
      refine ⟨_, answers, rfl, hanswers, ?_⟩
      rw [hwritten, List.flatMap_append, ← List.append_assoc]
      exact List.prefix_append _ _
  | failed _ _ _ hnot => exact absurd htakes hnot

theorem isQuery_exampleQueries : ∀ msg ∈ exampleQueries, IsQuery msg := by
  have hparse : ∀ msg ∈ exampleQueries, (12 ≤ msg.length ∧ msg.length ≤ 4096) ∧
      ((Dns.parseDnsQuery msg).toOption.bind id).isSome = true := by decide +kernel
  intro msg hmem
  obtain ⟨hlen, hsome⟩ := hparse msg hmem
  obtain ⟨query, hquery⟩ := Dns.runs_parseDnsQuery msg
  rw [hquery] at hsome
  obtain ⟨q, hq⟩ := Option.isSome_iff_exists.mp hsome
  exact ⟨hlen, q, hquery.trans (congrArg Except.ok hq)⟩

theorem handleDnsTcp_pipelined_example : ∃ s' answers,
    handleDnsTcp Stack.asciiNames exampleOthers exampleStream .new = (.ok (.ok ()), s') ∧
    List.Forall₂ Answers exampleQueries answers ∧
    [] ++ answers.flatMap frame <+: s'.stream.written :=
  handleDnsTcp_pipelined Stack.compact_asciiNames exampleOthers (by decide) .new
    (show _ = exampleQueries.flatMap frame ++ [] by decide +kernel) isQuery_exampleQueries

end Routing

end RustClash
