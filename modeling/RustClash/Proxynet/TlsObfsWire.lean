import RustClash.Lib.TlsHello
import RustClash.Proxynet.TlsObfsWrite

/-!
# What a TLS obfs writer puts on the wire

`helloOf` is the message that a receiver reads of the first record.  Behind it the wire
is cut by the headers: whole records, and at most the beginning of one more.
-/

namespace RustClash

open TlsObfs

namespace TlsObfs

/-! ## The ClientHello -/

def otherExtensions : List Tls.Extension :=
  [⟨11, [0x03, 0x01, 0x00, 0x02]⟩,
    ⟨10, [0x00, 0x08, 0x00, 0x1d, 0x00, 0x17, 0x00, 0x19, 0x00, 0x18]⟩,
    ⟨13, [0x00, 0x1e, 0x06, 0x01, 0x06, 0x02, 0x06, 0x03, 0x05, 0x01, 0x05, 0x02, 0x05, 0x03, 0x04,
      0x01, 0x04, 0x02, 0x04, 0x03, 0x03, 0x01, 0x03, 0x02, 0x03, 0x03, 0x02, 0x01, 0x02, 0x02,
      0x02, 0x03]⟩,
    ⟨22, []⟩, ⟨23, []⟩]

def helloOf (host ticket : Bytes) (draws : HelloDraws) : Tls.ClientHello where
  version := [3, 3]
  random := toBe 4 draws.unix.toNat ++ draws.random.bytes.drop 4
  sessionId := draws.session.bytes
  cipherSuites := suites
  compressionMethods := [0]
  extensions := ⟨35, ticket⟩ :: ⟨0, Tls.vector 2 (0 :: Tls.vector 2 host)⟩ :: otherExtensions

variable {host ticket : Bytes} {draws : HelloDraws}

/-- The extensions as `build_tls_client_hello` puts them together. -/
theorem extensions_helloOf (host ticket : Bytes) (draws : HelloDraws) :
    (helloOf host ticket draws).extensions.flatMap Tls.Extension.bytes =
      (toBe16 0x0023 ++ (toBe16 ticket.length ++ ticket)) ++
        ((toBe16 0x0000 ++ (toBe16 (3 + host.length + 2) ++ (toBe16 (3 + host.length) ++
          0 :: (toBe16 host.length ++ host)))) ++ others) := by
  have hname : (0 :: Tls.vector 2 host).length = 3 + host.length := by
    rw [List.length_cons, Tls.length_vector]
    omega
  have hlist : Tls.vector 2 (0 :: Tls.vector 2 host) =
      toBe16 (3 + host.length) ++ 0 :: (toBe16 host.length ++ host) := by
    rw [Tls.vector, hname]
    rfl
  have hdata : Tls.vector 2 (Tls.vector 2 (0 :: Tls.vector 2 host)) =
      toBe16 (3 + host.length + 2) ++ Tls.vector 2 (0 :: Tls.vector 2 host) := by
    rw [Tls.vector, Tls.length_vector, hname, Nat.add_comm 2]
    rfl
  show (toBe16 35 ++ (toBe16 ticket.length ++ ticket)) ++
    ((toBe16 0 ++ Tls.vector 2 (Tls.vector 2 (0 :: Tls.vector 2 host))) ++ others) = _
  rw [hdata, hlist]

theorem toBe_three (n : Nat) : toBe 3 n = UInt8.ofNat ((n >>> 16) &&& 0xff) :: toBe16 n := by
  have hhigh : UInt8.ofNat ((n >>> 16) &&& 0xff) = UInt8.ofNat (n / 256 / 256) := by
    apply UInt8.toNat_inj.mp
    rw [UInt8.toNat_ofNat', UInt8.toNat_ofNat', Nat.shiftRight_eq_div_pow,
      Nat.and_two_pow_sub_one_eq_mod _ 8, Nat.div_div_eq_div_mul, Nat.mod_mod]
  rw [hhigh]
  rfl

theorem buildTlsClientHello_eq (host ticket : Bytes) (draws : HelloDraws) :
    buildTlsClientHello host ticket draws = (helloOf host ticket draws).record := by
  have hexts := extensions_helloOf host ticket draws
  have hsession : Tls.vector 1 draws.session.bytes = 32 :: draws.session.bytes := by
    rw [Tls.vector, draws.session.size]
    rfl
  have hbody : (helloOf host ticket draws).body =
      toBe16 0x0303 ++ ((toBe 4 draws.unix.toNat ++ draws.random.bytes.drop 4) ++
        32 :: (draws.session.bytes ++ (toBe16 suites.length ++ (suites ++ 1 :: 0 ::
          Tls.vector 2 ((helloOf host ticket draws).extensions.flatMap Tls.Extension.bytes))))) := by
    rw [← List.append_assoc (toBe16 suites.length), ← List.cons_append, ← hsession]
    rfl
  simp only [buildTlsClientHello]
  generalize hticket : toBe16 0x0023 ++ (toBe16 ticket.length ++ ticket) = ticketExt at hexts ⊢
  generalize hsni : toBe16 0x0000 ++ (toBe16 (3 + host.length + 2) ++ (toBe16 (3 + host.length) ++
    0 :: (toBe16 host.length ++ host))) = sni at hexts ⊢
  have hvector : Tls.vector 2 ((helloOf host ticket draws).extensions.flatMap Tls.Extension.bytes) =
      toBe16 (ticketExt.length + sni.length + others.length) ++ (ticketExt ++ (sni ++ others)) := by
    rw [hexts, Tls.vector, List.length_append, List.length_append, Nat.add_assoc]
    rfl
  rw [hvector] at hbody
  rw [← hbody, Tls.ClientHello.record]
  generalize (helloOf host ticket draws).body = body
  have hlen : (1 :: Tls.vector 3 body).length = 4 + body.length := by
    rw [List.length_cons, Tls.length_vector]
    omega
  rw [Tls.vector, hlen, Tls.vector, toBe_three]
  rfl

theorem length_body_helloOf (host ticket : Bytes) (draws : HelloDraws) :
    (helloOf host ticket draws).body.length = 208 + host.length + ticket.length := by
  have hexts := congrArg List.length (extensions_helloOf host ticket draws)
  have hothers : others.length = 66 := rfl
  have hsuites : suites.length = 56 := rfl
  simp only [List.length_append, List.length_cons, length_toBe16, hothers] at hexts
  have hbody : (helloOf host ticket draws).body.length = 2 +
      ((toBe 4 draws.unix.toNat ++ draws.random.bytes.drop 4).length +
        ((1 + draws.session.bytes.length) + ((2 + suites.length) + (2 + (2 +
          ((helloOf host ticket draws).extensions.flatMap Tls.Extension.bytes).length))))) := by
    rw [Tls.ClientHello.body, List.length_append, List.length_append, List.length_append,
      List.length_append, List.length_append, Tls.length_vector, Tls.length_vector,
      Tls.length_vector, Tls.length_vector]
    rfl
  rw [hbody, hexts, hsuites, List.length_append, length_toBe, List.length_drop, draws.random.size,
    draws.session.size]
  omega

/-- A host of at most 255 bytes leaves every length its room. -/
theorem helloOf_fits (hhost : host.length ≤ 255) (hticket : ticket.length ≤ maxPayload) :
    (helloOf host ticket draws).Fits where
  version := rfl
  random := by
    rw [helloOf, List.length_append, length_toBe, List.length_drop, draws.random.size]
  sessionId := by
    rw [helloOf, draws.session.size]
    decide
  cipherSuites := (by decide : suites.length < 256 ^ 2)
  compressionMethods := (by decide : ([0] : Bytes).length < 256 ^ 1)
  extensions := by
    have hothers : ∀ e ∈ otherExtensions, e.Fits := by
      simp only [otherExtensions, List.forall_mem_cons]
      exact ⟨⟨by decide, by decide⟩, ⟨by decide, by decide⟩, ⟨by decide, by decide⟩,
        ⟨by decide, by decide⟩, ⟨by decide, by decide⟩, nofun⟩
    refine List.forall_mem_cons.mpr ⟨⟨(by decide : 35 < 256 ^ 2), ?_⟩,
      List.forall_mem_cons.mpr ⟨⟨(by decide : 0 < 256 ^ 2), ?_⟩, hothers⟩⟩
    · exact Nat.lt_of_le_of_lt hticket (by decide)
    · rw [Tls.length_vector, List.length_cons, Tls.length_vector]
      omega
  record := by
    rw [maxPayload] at hticket
    rw [length_body_helloOf]
    omega

/-- What a receiver reads of the first record, and what is behind it. -/
def Announces (host ticket wire rest : Bytes) : Prop :=
  ∃ hello, Tls.ClientHello.parse wire = some (hello, rest) ∧ hello.serverName = some host ∧
    hello.sessionTicket = some ticket ∧ (hello.extensions.map (·.type)).Nodup

theorem announces_hello (hhost : host.length ≤ 255) (hticket : ticket.length ≤ maxPayload)
    (rest : Bytes) :
    Announces host ticket (buildTlsClientHello host ticket draws ++ rest) rest := by
  refine ⟨helloOf host ticket draws, ?_, ?_, rfl, (by decide : [35, 0, 11, 10, 13, 22, 23].Nodup)⟩
  · rw [buildTlsClientHello_eq]
    exact Tls.ClientHello.parse_record (helloOf_fits hhost hticket) rest
  · have hname : (0 :: Tls.vector 2 host).length < 256 ^ 2 := by
      rw [List.length_cons, Tls.length_vector]
      omega
    show (Tls.onlyVector 2 (Tls.vector 2 (0 :: Tls.vector 2 host))).bind _ = _
    rw [Tls.onlyVector_vector hname]
    exact Tls.onlyVector_vector (Nat.lt_of_le_of_lt hhost (by decide))

/-! ## Records -/

/-- Whole records, and what their bodies come to. -/
inductive Records : Bytes → Bytes → Prop
| nil :
  Records [] []
| snoc {wire bodies body : Bytes} {payload : UInt16} :
  Records wire bodies ->
  body.length = payload.toNat ->
  Records (wire ++ (header payload ++ body)) (bodies ++ body)

/-- A part of a record that is not complete, and what there is of its body. -/
inductive Incomplete : Bytes → Bytes → Prop
| header (payload : UInt16) {part : Bytes} :
  part <+: header payload ->
  part.length < 5 ->
  Incomplete part []
| body {payload : UInt16} {body : Bytes} :
  body.length < payload.toNat ->
  Incomplete (header payload ++ body) body

end TlsObfs

namespace TlsObfsWriteHalf

variable {σ : Type} [AsyncWrite σ]
  {spec : SinkSpec (pollWrite : WriteFn σ UInt8 IoError) pollFlush} {st : TlsObfsWriteHalf σ}
  {hello ticket first buf : Bytes} {out : Option Bytes} {pieces : List Bytes} {payload : UInt16}
  {off left : Nat}

/-! ## What a writer hands on -/

/-- Behind the ClientHello are whole records and `part`, of which `rest` is to be handed on. -/
def Wrote (spec : SinkSpec (pollWrite : WriteFn σ UInt8 IoError) pollFlush)
    (hello ticket : Bytes) (st : TlsObfsWriteHalf σ) (pieces : List Bytes) (part rest : Bytes) :
    Prop :=
  ∃ records bodies, Records records bodies ∧ pieces.flatten = ticket ++ bodies ∧
    spec.Holding rest st.inner (hello ++ (records ++ part))

/-- Behind the ClientHello and whole records are a header and `body`; the sink waits for `out`. -/
def Filling (spec : SinkSpec (pollWrite : WriteFn σ UInt8 IoError) pollFlush)
    (hello ticket : Bytes) (st : TlsObfsWriteHalf σ) (out : Option Bytes) (pieces : List Bytes)
    (payload : UInt16) (body : Bytes) : Prop :=
  ∃ records bodies innerPieces, Records records bodies ∧
    pieces.flatten = ticket ++ (bodies ++ body) ∧ spec.Reports st.inner out innerPieces ∧
    innerPieces.flatten = hello ++ (records ++ (header payload ++ body))

/-- Where a writer stands whose first write was `first`. -/
inductive Sent (spec : SinkSpec (pollWrite : WriteFn σ UInt8 IoError) pollFlush)
    (first hello : Bytes) (st : TlsObfsWriteHalf σ) : Option Bytes → List Bytes → Prop
| flush {cur : Cursor} :
  st.write = .flush cur ->
  cur.data = hello ->
  cur.remaining ≠ [] ->
  spec.Holding cur.remaining st.inner hello ->
  Sent spec first hello st (some first) []
| header {buf : Bytes} {pieces : List Bytes} {off : Nat} :
  st.write = .recHdr (payloadOf buf) off ->
  off < 5 ->
  Wrote spec hello (first.take maxPayload) st pieces (header (payloadOf buf))
    ((header (payloadOf buf)).drop off) ->
  Sent spec first hello st (some buf) pieces
| idle {pieces : List Bytes} :
  st.write = .recBody 0 ->
  Wrote spec hello (first.take maxPayload) st pieces [] [] ->
  Sent spec first hello st none pieces
| body {out innerOut : Option Bytes} {pieces : List Bytes} {payload : UInt16} {body : Bytes}
    {left : Nat} :
  st.write = .recBody left ->
  0 < left ->
  body.length + left = payload.toNat ->
  (∀ b, innerOut = some b -> ∃ buf, out = some buf ∧ b = buf.take left) ->
  Filling spec hello (first.take maxPayload) st innerOut pieces payload body ->
  Sent spec first hello st out pieces

/-! ### One record -/

section

variable [ZeroLaw σ]

omit [ZeroLaw σ] in
theorem writePass_body (hwrite : st.write = .recBody left) (hleft : 0 < left) (buf : Bytes) :
    st.writePass buf = st.passBody buf left := by
  cases left with
  | zero => exact absurd hleft (Nat.lt_irrefl _)
  | succ left => rw [writePass, hwrite]

/-- The body of a record is reported as the sink reports it. -/
theorem body_answered {innerOut : Option Bytes} {body : Bytes} (hwrite : st.write = .recBody left)
    (hleft : 0 < left) (hcount : body.length + left = payload.toNat)
    (hagain : ∀ b, innerOut = some b → buf.take left = b) (hne : buf ≠ [])
    (h : Filling spec hello (first.take maxPayload) st innerOut pieces payload body) :
    Answered (Sent spec first hello) pieces buf ((writeLoop σ buf).run st) := by
  obtain ⟨records, bodies, innerPieces, hrecords, hpieces, hreports, hinner⟩ := h
  have htake : buf.take left ≠ [] := by
    rw [ne_eq, List.take_eq_nil_iff]
    exact not_or.mpr ⟨Nat.ne_of_gt hleft, hne⟩
  have hans := spec.write hreports htake hagain
  have hpass : (writeLoop σ buf).body st = st.passBody buf left := writePass_body hwrite hleft buf
  have hstays : ∀ (s : σ) (o : Option Bytes), spec.Reports s o innerPieces →
      (∀ b, o = some b → b = buf.take left) →
      Sent spec first hello { st with inner := s } (some buf) pieces :=
    fun s o hs ho => .body hwrite hleft hcount (fun b hb => ⟨buf, rfl, ho b hb⟩)
      ⟨records, bodies, innerPieces, hrecords, hpieces, hs, hinner⟩
  simp only [passBody] at hpass
  generalize pollWrite st.inner (buf.take left) = a at hans hpass
  cases hans with
  | pending s hs =>
      rw [Loop.run_inr hpass]
      exact .pending _ (hstays s _ hs fun b hb => (Option.some.inj hb).symm)
  | error e s hs =>
      rw [Loop.run_inr hpass]
      exact .error _ _ (hstays s _ hs fun b hb => (Option.some.inj hb).symm)
  | count n s hn hs =>
      rw [List.length_take] at hn
      cases n with
      | zero =>
          rw [List.take_zero, report_nil] at hs
          rw [Loop.run_inr hpass]
          exact .error _ _ (hstays s none hs (by rintro b ⟨⟩))
      | succ n =>
          have hlen : (buf.take (n + 1)).length = n + 1 := List.length_take_of_le (by omega)
          rw [List.take_take, Nat.min_eq_left (Nat.le_trans hn (Nat.min_le_left _ _))] at hs
          have hpieces' : (report pieces (buf.take (n + 1))).flatten =
              first.take maxPayload ++ (bodies ++ (body ++ buf.take (n + 1))) := by
            rw [flatten_report, hpieces, List.append_assoc, List.append_assoc]
          have hinner' : (report innerPieces (buf.take (n + 1))).flatten =
              hello ++ (records ++ (header payload ++ (body ++ buf.take (n + 1)))) := by
            rw [flatten_report, hinner, List.append_assoc, List.append_assoc, List.append_assoc]
          rw [Loop.run_inr hpass]
          refine .count _ _ (by omega) ?_
          rcases Nat.eq_zero_or_pos (left - (n + 1)) with hzero | hpos
          · have hrecords' : Records (records ++ (header payload ++ (body ++ buf.take (n + 1))))
                (bodies ++ (body ++ buf.take (n + 1))) := by
              refine .snoc hrecords ?_
              rw [List.length_append, hlen]
              omega
            refine .idle (congrArg TlsWrite.recBody hzero) ⟨_, _, hrecords', hpieces', ?_⟩
            rw [List.append_nil, ← hinner', ← List.append_nil (List.flatten _)]
            exact .start hs []
          · have hnone : ∀ b, (none : Option Bytes) = some b → ∃ buf', (none : Option Bytes) = some buf' ∧
                b = buf'.take (left - (n + 1)) := by
              rintro b ⟨⟩
            refine .body rfl hpos ?_ hnone ⟨_, _, _, hrecords, hpieces', hs, hinner'⟩
            rw [List.length_append, hlen]
            omega

/-- A header that is handed on is followed by the body. -/
theorem header_answered (hne : buf ≠ []) (hwrite : st.write = .recHdr (payloadOf buf) off)
    (hoff : off < 5) (h : Wrote spec hello (first.take maxPayload) st pieces (header (payloadOf buf))
      ((header (payloadOf buf)).drop off)) :
    Answered (Sent spec first hello) pieces buf ((writeLoop σ buf).run st) := by
  induction st using (writeLoop σ buf).pass_induction generalizing off with
  | _ st ih =>
      obtain ⟨records, bodies, hrecords, hpieces, hheld⟩ := h
      have hpass : (writeLoop σ buf).body st = st.writePass buf := rfl
      have hrest : (header (payloadOf buf)).drop off ≠ [] := by
        rw [ne_eq, List.drop_eq_nil_iff, length_header]
        exact Nat.not_le.mpr hoff
      have hans := hheld.written hrest
      simp only [writePass, hwrite, passHdr] at hpass
      generalize pollWrite st.inner ((header (payloadOf buf)).drop off) = a at hans hpass
      cases hans with
      | pending s hs =>
          rw [Loop.run_inr hpass]
          exact .pending _ (.header rfl hoff ⟨records, bodies, hrecords, hpieces, hs⟩)
      | error e s hs =>
          rw [Loop.run_inr hpass]
          exact .error _ _ (.header rfl hoff ⟨records, bodies, hrecords, hpieces, hs⟩)
      | count n s hn hs =>
          rw [List.drop_drop] at hs
          cases n with
          | zero =>
              rw [Loop.run_inr hpass]
              exact .error _ _ (.header rfl hoff ⟨records, bodies, hrecords, hpieces, hs⟩)
          | succ n =>
              dsimp only at hpass
              split at hpass
              · next hdone =>
                  rw [if_neg fun h => hne h.2] at hpass
                  rw [List.drop_eq_nil_of_le hdone] at hs
                  obtain ⟨innerPieces, hr, hflat⟩ := hs.done
                  have hpos : 0 < (payloadOf buf).toNat :=
                    Nat.pos_of_ne_zero fun h => payloadOf_ne_zero hne (UInt16.toNat_inj.mp h)
                  have hcount : ([] : Bytes).length + (payloadOf buf).toNat = (payloadOf buf).toNat :=
                    Nat.zero_add _
                  have hnone : ∀ b, (none : Option Bytes) = some b →
                      buf.take (payloadOf buf).toNat = b := by
                    rintro b ⟨⟩
                  rw [Loop.run_inl hpass]
                  refine body_answered rfl hpos hcount hnone hne
                    ⟨records, bodies, innerPieces, hrecords, hpieces.trans ?_, hr, hflat.trans ?_⟩
                  · rw [List.append_nil]
                  · rw [List.append_nil]
              · next hmore =>
                  rw [Loop.run_inl hpass]
                  exact ih _ hpass rfl (Nat.not_le.mp hmore) ⟨records, bodies, hrecords, hpieces, hs⟩

/-- A write that finds no record begun begins one. -/
theorem idle_answered (hne : buf ≠ []) (hwrite : st.write = .recBody 0)
    (h : Wrote spec hello (first.take maxPayload) st pieces [] []) :
    Answered (Sent spec first hello) pieces buf ((writeLoop σ buf).run st) := by
  obtain ⟨records, bodies, hrecords, hpieces, hheld⟩ := h
  have hpass : (writeLoop σ buf).body st = .inl { st with write := .recHdr (payloadOf buf) 0 } := by
    show st.writePass buf = _
    rw [writePass, hwrite]
  have hnext := hheld.restart (header (payloadOf buf))
  rw [List.append_nil, List.append_assoc] at hnext
  rw [Loop.run_inl hpass]
  exact header_answered hne rfl (by decide) ⟨records, bodies, hrecords, hpieces, hnext⟩

/-! ### The first write -/

theorem flush_answered {cur : Cursor} (hwrite : st.write = .flush cur) (hdata : cur.data = hello)
    (hne : cur.remaining ≠ []) (hheld : spec.Holding cur.remaining st.inner hello) :
    Answered (Sent spec first hello) [] first ((writeLoop σ first).run st) := by
  induction st using (writeLoop σ first).pass_induction generalizing cur with
  | _ st ih =>
      have hpass : (writeLoop σ first).body st = st.writePass first := rfl
      have hans := pollWriteBuf_answer hheld hne
      simp only [writePass, hwrite, passFlush] at hpass
      generalize pollWriteBuf st.inner cur = a at hans hpass
      cases hans with
      | pending cur' s hdata' hne' hheld' =>
          rw [Loop.run_inr hpass]
          exact .pending _ (.flush rfl (hdata'.trans hdata) hne' hheld')
      | error e cur' s hdata' hne' hheld' =>
          rw [Loop.run_inr hpass]
          exact .error _ _ (.flush rfl (hdata'.trans hdata) hne' hheld')
      | count n cur' s hdata' hheld' =>
          dsimp only at hpass
          split at hpass
          · next hpos =>
              rw [Cursor.remaining_eq_nil.mpr hpos, ← List.append_nil hello] at hheld'
              rw [Loop.run_inr hpass]
              refine .count _ _ (Nat.min_le_left _ _) (.idle rfl ⟨[], [], .nil, ?_, hheld'⟩)
              rw [flatten_report, Nat.min_comm, ← List.take_eq_take_min]
              exact (List.append_nil _).symm
          · next hpos =>
              rw [Loop.run_inl hpass]
              exact ih _ hpass rfl (hdata'.trans hdata)
                (fun h => hpos (Cursor.remaining_eq_nil.mp h)) hheld'

theorem pollWrite_answered (h : Sent spec first hello st out pieces) (hne : buf ≠ [])
    (hagain : ∀ b, out = some b → buf = b) :
    Answered (Sent spec first hello) pieces buf (pollWrite st buf) := by
  show Answered _ _ _ ((writeLoop σ buf).run st)
  cases h with
  | flush hwrite hdata hrem hheld =>
      rw [hagain first rfl]
      exact flush_answered hwrite hdata hrem hheld
  | header hwrite hoff h =>
      cases hagain _ rfl
      exact header_answered hne hwrite hoff h
  | idle hwrite h => exact idle_answered hne hwrite h
  | body hwrite hleft hcount hout h =>
      refine body_answered hwrite hleft hcount (fun b hb => ?_) hne h
      obtain ⟨buf', hbuf, rfl⟩ := hout b hb
      rw [hagain buf' hbuf]

theorem pollFlush_sent (h : Sent spec first hello st out pieces) :
    Sent spec first hello (pollFlush st).2 out pieces := by
  cases h with
  | flush hwrite hdata hrem hheld => exact .flush hwrite hdata hrem hheld.flushed
  | header hwrite hoff h =>
      obtain ⟨records, bodies, hrecords, hpieces, hheld⟩ := h
      exact .header hwrite hoff ⟨records, bodies, hrecords, hpieces, hheld.flushed⟩
  | idle hwrite h =>
      obtain ⟨records, bodies, hrecords, hpieces, hheld⟩ := h
      exact .idle hwrite ⟨records, bodies, hrecords, hpieces, hheld.flushed⟩
  | body hwrite hleft hcount hout h =>
      obtain ⟨records, bodies, innerPieces, hrecords, hpieces, hr, hinner⟩ := h
      exact .body hwrite hleft hcount hout
        ⟨records, bodies, innerPieces, hrecords, hpieces, spec.flush hr, hinner⟩

/-- A stream that has written nothing yet. -/
structure Fresh (spec : SinkSpec (pollWrite : WriteFn σ UInt8 IoError) pollFlush) (host : String)
    (draws : HelloDraws) (st : TlsObfsWriteHalf σ) : Prop where
  write : st.write = .hello
  host : st.host = host
  draws : st.draws = draws
  reports : spec.Reports st.inner none []

/-- A TLS obfs stream over a sink is a sink. -/
def opening (spec : SinkSpec (pollWrite : WriteFn σ UInt8 IoError) pollFlush) (host : String)
    (draws : HelloDraws) :
    Opening (pollWrite : WriteFn (TlsObfsWriteHalf σ) UInt8 IoError) pollFlush where
  Fresh := Fresh spec host draws
  settled first :=
    { Reports := Sent spec first (buildTlsClientHello (utf8 host) (first.take maxPayload) draws)
      write := pollWrite_answered
      flush := pollFlush_sent }
  write := by
    rintro st buf ⟨hwrite, rfl, rfl, hr⟩ hne
    show Answered _ _ _ ((writeLoop σ buf).run st)
    have hpass : (writeLoop σ buf).body st = .inl { st with
        write := .flush (.new (buildTlsClientHello (utf8 st.host) (buf.take maxPayload) st.draws)) } := by
      show st.writePass buf = _
      rw [writePass, hwrite]
    rw [Loop.run_inl hpass]
    exact flush_answered rfl rfl (List.cons_ne_nil _ _) (SinkSpec.Holding.start hr _)
  flush h := ⟨h.write, h.host, h.draws, spec.flush h.reports⟩

end

/-! ## Over a transport -/

/-- What the transport has of a stream that has written: a part of the ClientHello, or the
ClientHello, whole records and a part of one more. -/
theorem Sent.written {st : TlsObfsWriteHalf Transport}
    (h : Sent (WriteLaw.spec.sink WriteLaw.flush_accepted []) first hello st out pieces) :
    (out = some first ∧ pieces = [] ∧ ∃ unsent, unsent ≠ [] ∧ st.inner.written ++ unsent = hello) ∨
      ∃ records bodies part body, st.inner.written = hello ++ (records ++ part) ∧
        Records records bodies ∧ Incomplete part body ∧
        first.take maxPayload ++ (bodies ++ body) = pieces.flatten := by
  cases h with
  | @flush cur hwrite hdata hne hheld =>
      have hacc : st.inner.written ++ cur.remaining = hello := hheld.accepted
      exact Or.inl ⟨rfl, rfl, _, hne, hacc⟩
  | @header buf _ off hwrite hoff h =>
      obtain ⟨records, bodies, hrecords, hpieces, hheld⟩ := h
      have hacc : st.inner.written ++ (TlsObfs.header (payloadOf buf)).drop off =
          hello ++ (records ++ TlsObfs.header (payloadOf buf)) := hheld.accepted
      refine Or.inr ⟨records, bodies, (TlsObfs.header (payloadOf buf)).take off, [], ?_, hrecords,
        .header _ (List.take_prefix _ _) ?_, ?_⟩
      · refine List.append_cancel_right (hacc.trans ?_)
        rw [List.append_assoc, List.append_assoc, List.take_append_drop]
      · rw [List.length_take]
        exact Nat.lt_of_le_of_lt (Nat.min_le_left _ _) hoff
      · rw [List.append_nil, hpieces]
  | idle hwrite h =>
      obtain ⟨records, bodies, hrecords, hpieces, hheld⟩ := h
      have hacc : st.inner.written ++ [] = hello ++ (records ++ []) := hheld.accepted
      refine Or.inr ⟨records, bodies, [], [], ?_, hrecords,
        .header 0 (List.nil_prefix) (by decide), ?_⟩
      · rwa [List.append_nil] at hacc
      · rw [List.append_nil, hpieces]
  | body hwrite hleft hcount hout h =>
      obtain ⟨records, bodies, innerPieces, hrecords, hpieces, hr, hinner⟩ := h
      have hacc : st.inner.written = innerPieces.flatten := hr
      exact Or.inr ⟨records, bodies, _, _, hacc.trans hinner, hrecords, .body (by omega),
        hpieces.symm⟩

/-- Whatever the transport accepts when: of the writes of a stream it has a part of a ClientHello,
or a ClientHello, whole records and a part of one more.  The ClientHello names the host and carries
the first write, as much of it as a record takes; this and the bodies are the bytes that were
accepted. -/
theorem announces_writes {host : String} (hhost : (utf8 host).length ≤ 255) (draws : HelloDraws)
    (writes : List WriteEvent) {calls : List (SinkCall UInt8)}
    {c : Caller (TlsObfsWriteHalf Transport) UInt8}
    (hrun : Run (Calls pollWrite pollFlush)
      (.start (new (Transport.accepting writes) host draws)) calls c) :
    (firstWrite calls = none → c.sink.inner.written = [] ∧ c.pieces = []) ∧
    ∀ first, firstWrite calls = some first →
      (c.outstanding = some first ∧ c.pieces = [] ∧ ∃ unsent, unsent ≠ [] ∧
        Announces (utf8 host) (first.take maxPayload) (c.sink.inner.written ++ unsent) []) ∨
      ∃ records bodies part body,
        Announces (utf8 host) (first.take maxPayload) c.sink.inner.written (records ++ part) ∧
        Records records bodies ∧ Incomplete part body ∧
        first.take maxPayload ++ (bodies ++ body) = c.pieces.flatten := by
  have hfresh : Fresh (WriteLaw.spec.sink WriteLaw.flush_accepted []) host draws
      (new (Transport.accepting writes) host draws) := ⟨rfl, rfl, rfl, rfl⟩
  have hstands : (opening (WriteLaw.spec.sink WriteLaw.flush_accepted []) host draws).Stands calls c :=
    Opening.stands_run hfresh hrun
  cases hstands with
  | fresh hfirst hfresh hstart =>
      refine ⟨fun _ => ⟨?_, ?_⟩, fun first h => ?_⟩
      · have hacc : c.sink.inner.written = [] := hfresh.reports
        exact hacc
      · rw [hstart]
        rfl
      · cases hfirst.symm.trans h
  | settled first hfirst hr =>
      refine ⟨fun h => ?_, fun first' h => ?_⟩
      · cases h.symm.trans hfirst
      · cases hfirst.symm.trans h
        have hhello := @announces_hello (utf8 host) (first.take maxPayload) draws hhost
          (List.length_take_le _ _)
        rcases Sent.written hr with ⟨hout, hpieces, unsent, hne, hwritten⟩ |
          ⟨records, bodies, part, body, hwritten, hrecords, hpart, hbytes⟩
        · refine Or.inl ⟨hout, hpieces, unsent, hne, ?_⟩
          rw [hwritten, ← List.append_nil (buildTlsClientHello _ _ _)]
          exact hhello []
        · refine Or.inr ⟨records, bodies, part, body, ?_, hrecords, hpart, hbytes⟩
          rw [hwritten]
          exact hhello _

/-- Three bytes are reported with the ClientHello; of the record with the next two the header and
one byte are accepted. -/
theorem announces_writes_parts :
    let draws : HelloDraws := ⟨1, ⟨List.replicate 32 2, rfl⟩, ⟨List.replicate 32 3, rfl⟩⟩
    ∃ c, Run (Calls pollWrite pollFlush) (.start (new (Transport.accepting
        [.accept 9, .pending, .accept 400, .accept 3, .accept 2, .accept 1]) "example.com" draws))
      [.write [1, 2, 3], .write [1, 2, 3], .flush, .write [4, 5]] c ∧
      ((c.outstanding = some [1, 2, 3] ∧ c.pieces = [] ∧ ∃ unsent, unsent ≠ [] ∧
        Announces (utf8 "example.com") [1, 2, 3] (c.sink.inner.written ++ unsent) []) ∨
      ∃ records bodies part body,
        Announces (utf8 "example.com") [1, 2, 3] c.sink.inner.written (records ++ part) ∧
        Records records bodies ∧ Incomplete part body ∧
        [1, 2, 3] ++ (bodies ++ body) = c.pieces.flatten) := by
  intro draws
  have hrun : Run (Calls pollWrite pollFlush) (.start (new (Transport.accepting
        [.accept 9, .pending, .accept 400, .accept 3, .accept 2, .accept 1]) "example.com" draws))
      [.write [1, 2, 3], .write [1, 2, 3], .flush, .write [4, 5]] _ :=
    .snoc (.snoc (.snoc (.snoc .nil (.write _ _ nofun nofun))
      (.write _ _ nofun (by intro b h; exact Caller.again h))) (.flush _))
      (.write _ _ nofun (by decide +kernel))
  exact ⟨_, hrun, (announces_writes (by decide) draws _ hrun).2 _ rfl⟩

end TlsObfsWriteHalf

end RustClash
