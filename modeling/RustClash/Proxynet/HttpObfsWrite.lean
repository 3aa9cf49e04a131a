import RustClash.Core.Utf8
import RustClash.Proxynet.HttpObfsRead

/-!
# What an HTTP obfs writer sends

The first write is staged with the request around it, and the rest is handed on.  A
request is what a receiver makes of it: `Requests` says how it is split.
-/

namespace RustClash

open HttpObfs

namespace HttpObfs

/-! ## Requests -/

/-- A text that stays on its line. -/
def LineText (s : String) : Prop := '\r' ∉ s.toList ∧ '\n' ∉ s.toList

/-- The first empty line ends the header, one field of it gives the length of the body, and the
body stands behind it. -/
def Requests (path host : String) (body request : Bytes) : Prop :=
  ∃ fields v,
    (∀ later, ∃ header, Http.splitHead (request ++ later) = some (header, body ++ later) ∧
      Http.splitPair 13 10 header = startLine path :: fields) ∧
    (∀ line ∈ startLine path :: fields, 13 ∉ line ∧ 10 ∉ line) ∧
    hostLine host ∈ fields ∧
    Http.lineValues "content-length" fields = [v] ∧ Http.decimal v = some body.length

/-- Bytes that stay on their line. -/
def OneLine (bs : Bytes) : Prop := 13 ∉ bs ∧ 10 ∉ bs

instance (bs : Bytes) : Decidable (OneLine bs) := inferInstanceAs (Decidable (_ ∧ _))

theorem OneLine.append {xs ys : Bytes} (hx : OneLine xs) (hy : OneLine ys) : OneLine (xs ++ ys) := by
  constructor
  · rw [List.mem_append, not_or]
    exact ⟨hx.1, hy.1⟩
  · rw [List.mem_append, not_or]
    exact ⟨hx.2, hy.2⟩

theorem oneLine_utf8 {s : String} (h : LineText s) : OneLine (utf8 s) :=
  ⟨fun hmem => h.1 (Str.mem_of_mem_bytes (by decide) hmem),
    fun hmem => h.2 (Str.mem_of_mem_bytes (by decide) hmem)⟩

theorem oneLine_digits (n : Nat) : OneLine (Http.digits n) := by
  have hdigit := List.all_eq_true.mp (Http.isDigit_digits n)
  exact ⟨fun hmem => absurd (hdigit 13 hmem) (by decide),
    fun hmem => absurd (hdigit 10 hmem) (by decide)⟩

theorem lineText_base64 {b : Base64} (hb : b.Standard) (bs : Bytes) : LineText (b.encode bs) :=
  ⟨fun hmem => absurd (hb bs _ hmem) (by decide), fun hmem => absurd (hb bs _ hmem) (by decide)⟩

variable {b : Base64} {path host : String} {body : Bytes} {draws : Draws}

theorem oneLine_requestLines (hb : b.Standard) (hpath : LineText path) (hhost : LineText host) :
    ∀ line ∈ requestLines b path host body draws, line ≠ [] ∧ OneLine line := by
  have hp : LineText (if path.isEmpty then "/" else path) := by
    split
    · exact (by decide : '\r' ∉ "/".toList ∧ '\n' ∉ "/".toList)
    · exact hpath
  simp only [requestLines, List.forall_mem_cons]
  refine ⟨⟨nofun, ?_⟩, ⟨nofun, ?_⟩, ⟨nofun, ?_⟩, ⟨nofun, by decide⟩, ⟨nofun, by decide⟩,
    ⟨nofun, ?_⟩, ⟨nofun, ?_⟩, nofun⟩
  · exact .append (.append (by decide) (oneLine_utf8 hp)) (by decide)
  · exact .append (by decide) (oneLine_utf8 hhost)
  · exact .append (.append (by decide) (oneLine_digits _)) (.append (by decide) (oneLine_digits _))
  · exact .append (by decide) (oneLine_utf8 (lineText_base64 hb _))
  · exact .append (by decide) (oneLine_digits _)

/-- Of the lines behind the first one, one has the length. -/
theorem lineValues_requestLines (b : Base64) (path host : String) (body : Bytes) (draws : Draws) :
    Http.lineValues "content-length" (requestLines b path host body draws).tail =
      [Http.digits body.length] := by
  have hother {n : Bytes} (value : Bytes) (hn : 58 ∉ n)
      (hname : (n.map Http.toChar).map Http.lower ≠ "content-length".toList) :
      Http.lineValue "content-length" (n ++ 58 :: value) = none := Http.lineValue_other hn hname value
  have hlength : Http.lineValue "content-length"
      (ascii "Content-Length" ++ 58 :: 32 :: Http.digits body.length) =
        some (Http.digits body.length) := by
    rw [Http.lineValue_named (by decide) (by decide),
      Http.trimBlanks_digits (Http.isDigit_digits _) (Http.digits_ne_nil _)]
  show List.filterMap (Http.lineValue "content-length")
    [ascii "Host" ++ 58 :: 32 :: utf8 host,
      ascii "User-Agent" ++ 58 :: ((32 :: ascii "curl/7." ++ Http.digits (draws.minor % 51).toNat) ++
        (ascii "." ++ Http.digits (draws.patch % 2).toNat)),
      ascii "Upgrade" ++ 58 :: 32 :: ascii "websocket",
      ascii "Connection" ++ 58 :: 32 :: ascii "Upgrade",
      ascii "Sec-WebSocket-Key" ++ 58 :: 32 :: utf8 (b.encode draws.key.bytes),
      ascii "Content-Length" ++ 58 :: 32 :: Http.digits body.length] = _
  rw [List.filterMap_cons_none (hother _ (by decide) (by decide)),
    List.filterMap_cons_none (hother _ (by decide) (by decide)),
    List.filterMap_cons_none (hother _ (by decide) (by decide)),
    List.filterMap_cons_none (hother _ (by decide) (by decide)),
    List.filterMap_cons_none (hother _ (by decide) (by decide)),
    List.filterMap_cons_some hlength, List.filterMap_nil]

theorem requests_buildHttpRequest (hb : b.Standard) (hpath : LineText path) (hhost : LineText host) :
    Requests path host body (buildHttpRequest b path host body draws) := by
  have hlines := @oneLine_requestLines b path host body draws hb hpath hhost
  refine ⟨(requestLines b path host body draws).tail, Http.digits body.length, ?_,
    fun line hline => (hlines line hline).2, List.mem_cons_self,
    lineValues_requestLines b path host body draws, Http.decimal_digits _⟩
  intro later
  refine ⟨Http.between 13 10 (requestLines b path host body draws), ?_, ?_⟩
  · have hbytes : buildHttpRequest b path host body draws ++ later =
        Http.between 13 10 (requestLines b path host body draws) ++
          13 :: 10 :: 13 :: 10 :: (body ++ later) := by
      rw [buildHttpRequest, requestLines, Http.joinPair_eq_between, List.append_assoc,
        List.append_assoc]
      rfl
    rw [hbytes]
    exact Http.splitHead_between _ (List.cons_ne_nil _ _)
      fun line hline => ⟨(hlines line hline).1, (hlines line hline).2.1⟩
  · exact Http.splitPair_between (List.cons_ne_nil _ _) fun line hline => (hlines line hline).2.1

end HttpObfs

namespace HttpObfsStream

variable {b : Base64} {σ : Type} [AsyncWrite σ]
  {spec : SinkSpec (pollWrite : WriteFn σ UInt8 IoError) pollFlush} {st : HttpObfsStream b σ}
  {first request buf : Bytes} {out : Option Bytes} {pieces : List Bytes}

/-! ## What a writer hands on -/

/-- Where a writer stands whose first write was `first`: the request is on its way, or the sink has
it and what came later. -/
inductive Sent (spec : SinkSpec (pollWrite : WriteFn σ UInt8 IoError) pollFlush)
    (first request : Bytes) (st : HttpObfsStream b σ) : Option Bytes → List Bytes → Prop
| flush {cur : Cursor} :
  st.write = .flush cur ->
  cur.data = request ->
  cur.remaining ≠ [] ->
  spec.Holding cur.remaining st.inner request ->
  Sent spec first request st (some first) []
| transfer {out : Option Bytes} {pieces innerPieces : List Bytes} {later : Bytes} :
  st.write = .transfer ->
  spec.Reports st.inner out innerPieces ->
  innerPieces.flatten = request ++ later ->
  pieces.flatten = first ++ later ->
  Sent spec first request st out pieces

section

variable [ZeroLaw σ]

/-- The request is reported once the sink has all of it. -/
theorem flush_answered {cur : Cursor} (hwrite : st.write = .flush cur) (hdata : cur.data = request)
    (hne : cur.remaining ≠ []) (hheld : spec.Holding cur.remaining st.inner request) :
    Answered (Sent spec first request) [] first ((writeLoop b σ first).run st) := by
  induction st using (writeLoop b σ first).pass_induction generalizing cur with
  | _ st ih =>
      have hpass : (writeLoop b σ first).body st = st.writePass first := rfl
      have hans := pollWriteBuf_answer hheld hne
      simp only [writePass, hwrite] at hpass
      generalize pollWriteBuf st.inner cur = a at hans hpass
      cases hans with
      | pending cur' s hdata' hne' hheld' =>
          rw [Loop.run_inr hpass]
          exact .pending _ (.flush rfl (hdata'.trans hdata) hne' hheld')
      | error e cur' s hdata' hne' hheld' =>
          rw [Loop.run_inr hpass]
          exact .error _ _ (.flush rfl (hdata'.trans hdata) hne' hheld')
      | count n cur' s hdata' hheld' =>
          dsimp only at hpass
          split at hpass
          · next hpos =>
              rw [Cursor.remaining_eq_nil.mpr hpos] at hheld'
              obtain ⟨innerPieces, hr, hflat⟩ := hheld'.done
              rw [Loop.run_inr hpass]
              refine .count _ _ (Nat.le_refl _)
                (.transfer rfl hr (hflat.trans (List.append_nil _).symm) ?_)
              rw [flatten_report, List.take_length]
              exact (List.append_nil _).symm
          · next hpos =>
              rw [Loop.run_inl hpass]
              exact ih _ hpass rfl (hdata'.trans hdata)
                (fun h => hpos (Cursor.remaining_eq_nil.mp h)) hheld'

theorem transfer_run (hwrite : st.write = .transfer) (buf : Bytes) :
    (writeLoop b σ buf).run st =
      ((pollWrite st.inner buf).1, { st with inner := (pollWrite st.inner buf).2 }) := by
  refine Loop.run_inr ?_
  show st.writePass buf = _
  rw [writePass, hwrite]

theorem pollWrite_answered (h : Sent spec first request st out pieces) (hne : buf ≠ [])
    (hagain : ∀ b, out = some b → buf = b) :
    Answered (Sent spec first request) pieces buf (pollWrite st buf) := by
  show Answered _ _ _ ((writeLoop b σ buf).run st)
  cases h with
  | flush hwrite hdata hrem hheld =>
      rw [hagain first rfl]
      exact flush_answered hwrite hdata hrem hheld
  | @transfer _ _ innerPieces later hwrite hr hinner hpieces =>
      have hans := spec.write hr hne hagain
      rw [transfer_run hwrite]
      generalize pollWrite st.inner buf = r at hans ⊢
      cases hans with
      | count n s hn hr' =>
          have hinner' : (report innerPieces (buf.take n)).flatten =
              request ++ (later ++ buf.take n) := by
            rw [flatten_report, hinner, List.append_assoc]
          have hpieces' : (report pieces (buf.take n)).flatten = first ++ (later ++ buf.take n) := by
            rw [flatten_report, hpieces, List.append_assoc]
          exact .count n _ hn (.transfer hwrite hr' hinner' hpieces')
      | error e s hr' => exact .error _ _ (.transfer hwrite hr' hinner hpieces)
      | pending s hr' => exact .pending _ (.transfer hwrite hr' hinner hpieces)

theorem pollFlush_sent (h : Sent spec first request st out pieces) :
    Sent spec first request (pollFlush st).2 out pieces := by
  cases h with
  | flush hwrite hdata hrem hheld => exact .flush hwrite hdata hrem hheld.flushed
  | transfer hwrite hr hinner hpieces => exact .transfer hwrite (spec.flush hr) hinner hpieces

/-- A stream that has written nothing yet. -/
structure Fresh (spec : SinkSpec (pollWrite : WriteFn σ UInt8 IoError) pollFlush)
    (path host : String) (draws : Draws) (st : HttpObfsStream b σ) : Prop where
  write : st.write = .first
  path : st.path = path
  host : st.host = host
  draws : st.draws = draws
  reports : spec.Reports st.inner none []

/-- An HTTP obfs stream over a sink is a sink. -/
def opening (b : Base64) (spec : SinkSpec (pollWrite : WriteFn σ UInt8 IoError) pollFlush)
    (path host : String) (draws : Draws) :
    Opening (pollWrite : WriteFn (HttpObfsStream b σ) UInt8 IoError) pollFlush where
  Fresh := Fresh spec path host draws
  settled first :=
    { Reports := Sent spec first (buildHttpRequest b path host first draws)
      write := pollWrite_answered
      flush := pollFlush_sent }
  write := by
    rintro st buf ⟨hwrite, rfl, rfl, rfl, hr⟩ hne
    show Answered _ _ _ ((writeLoop b σ buf).run st)
    have hpass : (writeLoop b σ buf).body st = .inl { st with
        write := .flush (.new (buildHttpRequest b st.path st.host buf st.draws)) } := by
      show st.writePass buf = _
      rw [writePass, hwrite]
    rw [Loop.run_inl hpass]
    refine flush_answered rfl rfl ?_ (SinkSpec.Holding.start hr _)
    rw [Cursor.remaining_new, buildHttpRequest]
    exact List.append_ne_nil_of_right_ne_nil _ (List.cons_ne_nil _ _)
  flush h := ⟨h.write, h.path, h.host, h.draws, spec.flush h.reports⟩

end

/-! ## Over a transport -/

/-- What the transport has of a stream that has written: a part of the request, or the request and
what was accepted later. -/
theorem Sent.written {st : HttpObfsStream b Transport}
    (h : Sent (WriteLaw.spec.sink WriteLaw.flush_accepted []) first request st out pieces) :
    out = some first ∧ pieces = [] ∧ st.inner.written <+: request ∨
      ∃ later, st.inner.written = request ++ later ∧ pieces.flatten = first ++ later := by
  cases h with
  | @flush cur hwrite hdata hne hheld =>
      have hacc : st.inner.written ++ cur.remaining = request := hheld.accepted
      exact Or.inl ⟨rfl, rfl, ⟨_, hacc⟩⟩
  | @transfer _ _ innerPieces later hwrite hr hinner hpieces =>
      have hacc : st.inner.written = innerPieces.flatten := hr
      exact Or.inr ⟨later, hacc.trans hinner, hpieces⟩

variable {path host : String}

/-- Whatever the transport accepts when: of the writes of a stream it has a part of one request
with the first of them as its body, or that request and exactly the bytes that were accepted later.
However the response comes in, a header block of at most 4096 bytes is taken off, and what is behind
it is delivered. -/
theorem tunnels (hb : b.Standard) (hpath : LineText path) (hhost : LineText host) (draws : Draws) :
    (∀ (writes : List WriteEvent) (calls : List (SinkCall UInt8))
      (c : Caller (HttpObfsStream b Transport) UInt8),
      Run (Calls pollWrite pollFlush)
        (.start (new b (Transport.accepting writes) path host draws)) calls c →
      (firstWrite calls = none → c.sink.inner.written = [] ∧ c.pieces = []) ∧
      ∀ first, firstWrite calls = some first → ∃ request, Requests path host first request ∧
        (c.outstanding = some first ∧ c.pieces = [] ∧ c.sink.inner.written <+: request ∨
          ∃ later, c.sink.inner.written = request ++ later ∧ c.pieces.flatten = first ++ later)) ∧
    ∀ (block body : Bytes) (reads : List ReadEvent) (readEnd : End IoError),
      HeaderBlock block → block.length ≤ maxHeader → unread reads = block ++ body →
      Delivers pollRead (new b (Transport.serving reads readEnd) path host draws) body readEnd := by
  constructor
  · intro writes calls c hrun
    have hfresh : Fresh (WriteLaw.spec.sink WriteLaw.flush_accepted []) path host draws
        (new b (Transport.accepting writes) path host draws) := ⟨rfl, rfl, rfl, rfl, rfl⟩
    have hstands : (opening b (WriteLaw.spec.sink WriteLaw.flush_accepted []) path host
        draws).Stands calls c := Opening.stands_run hfresh hrun
    cases hstands with
    | fresh hfirst hfresh hstart =>
        refine ⟨fun _ => ⟨?_, ?_⟩, fun first h => ?_⟩
        · have hacc : c.sink.inner.written = [] := hfresh.reports
          exact hacc
        · rw [hstart]
          rfl
        · cases hfirst.symm.trans h
    | settled first hfirst hr =>
        refine ⟨fun h => ?_, fun first' h => ?_⟩
        · cases h.symm.trans hfirst
        · cases hfirst.symm.trans h
          exact ⟨_, requests_buildHttpRequest hb hpath hhost, hr.written⟩
  · intro block body reads readEnd hblock hmax hbytes
    obtain ⟨head, hhead⟩ := hblock
    have hpos : ([] : Bytes).length < block.length := by
      rw [Http.splitHead_eq_some hhead, List.length_append]
      exact Nat.lt_add_left _ (Nat.zero_lt_succ _)
    exact (readSpec b Transport.readSpec).delivers
      ⟨unread reads, ⟨rfl, rfl⟩, .header ⟨head, hhead⟩ hmax hpos hbytes⟩

/-- The first of two writes is accepted in parts, and the terminator of the response comes in two
reads. -/
theorem tunnels_parts :
    let b : Base64 := ⟨fun _ => "AAAAAAAAAAAAAAAAAAAAAA=="⟩
    let draws : Draws := ⟨⟨List.replicate 16 0, rfl⟩, 60, 3⟩
    (∃ c, Run (Calls pollWrite pollFlush)
      (.start (new b (Transport.accepting [.accept 7, .pending, .accept 0]) "" "example.com" draws))
      [.write [1, 2], .write [1, 2], .flush, .write [3]] c ∧
      ∃ request, Requests "" "example.com" [1, 2] request ∧
        (c.outstanding = some [1, 2] ∧ c.pieces = [] ∧ c.sink.inner.written <+: request ∨
          ∃ later, c.sink.inner.written = request ++ later ∧
            c.pieces.flatten = [1, 2] ++ later)) ∧
    Delivers pollRead
      (new b (Transport.serving [.data 72 [13, 10], .pending, .data 13 [10, 5, 6], .data 7 []] .eof)
        "" "example.com" draws) [5, 6, 7] .eof := by
  intro b draws
  have hb : b.Standard := by
    intro bs c hc
    have hall : ("AAAAAAAAAAAAAAAAAAAAAA==".toList.all fun c =>
        c.isAlphanum || c = '+' || c = '/' || c = '=') = true := by decide
    have hc' := List.all_eq_true.mp hall c hc
    simpa [or_assoc] using hc'
  have hrun : Run (Calls pollWrite pollFlush)
      (.start (new b (Transport.accepting [.accept 7, .pending, .accept 0]) "" "example.com" draws))
      [.write [1, 2], .write [1, 2], .flush, .write [3]] _ :=
    .snoc (.snoc (.snoc (.snoc .nil (.write _ _ nofun nofun))
      (.write _ _ nofun (by intro b h; exact Caller.again h))) (.flush _))
      (.write _ _ nofun (by decide +kernel))
  have hpath : LineText "" := ⟨by decide, by decide⟩
  have hhost : LineText "example.com" := ⟨by decide, by decide⟩
  have htunnels := tunnels hb hpath hhost draws
  refine ⟨⟨_, hrun, (htunnels.1 _ _ _ hrun).2 _ rfl⟩, ?_⟩
  exact htunnels.2 [72, 13, 10, 13, 10] [5, 6, 7] _ _ ⟨[72], by decide⟩ (by decide) rfl

end HttpObfsStream

end RustClash
