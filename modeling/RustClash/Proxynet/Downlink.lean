import RustClash.Proxynet.ServerRecords
import RustClash.Proxynet.VisionWrite
import RustClash.Proxynet.Vless

/-!
# What comes down a connection

A VLESS connection with Vision over REALITY has three streams on the transport: one opens
records, one takes the response header off, and one takes the frames apart.  Each is
specified over whatever the one below yields, so what the server framed and sealed comes out
at the top, however it arrives.

For that the stream that opens records must stay at its end once it has said so.
-/

namespace RustClash

open Reality Vision

/-! ## Streams that open records -/

namespace RealityTlsStream

variable {st st' : RealityTlsStream Transport} {items : Bytes} {o : End IoError} {cap : Nat}

/-- What is still to come, also behind the end. -/
inductive Yields (st : RealityTlsStream Transport) : Bytes → End IoError → Prop
| opened {rest items : Bytes} {o : End IoError} :
  FillYields rest st items o ->
  Yields st items o
| closed :
  st.receivedClose = true ->
  Yields st st.undelivered .eof

/-- The pending answers that are left, of which there are none behind the end. -/
def waits (st : RealityTlsStream Transport) : Nat := if st.receivedClose then 0 else stalls st

theorem FillYields.waits_eq {rest : Bytes} (h : FillYields rest st items o) :
    st.waits = stalls st := by
  obtain ⟨records, hfills, -⟩ := h
  rw [waits, hfills.opened]
  rfl

theorem passFill_undelivered (h : st.passFill cap = .inl st') :
    st'.undelivered = st.undelivered := by
  simp only [passFill] at h
  split at h
  · cases h
  · split at h <;> cases h
  · have hcount := passRecord_inl h
    simp only [countEmpty] at hcount
    split at hcount
    · cases hcount
    · cases hcount
      rfl

/-- A pass that says the end of the stream remembers it. -/
theorem passFill_closes (hcap : 0 < cap) (hnil : st.undelivered = []) {d : Filled UInt8 cap}
    (h : st.passFill cap = .inr (.ready (.ok d), st')) (hd : d.items = []) :
    st'.receivedClose = true ∧ st'.undelivered = [] := by
  simp only [passFill] at h
  split at h
  · cases h
  · split at h
    · cases h
      exact ⟨rfl, hnil⟩
    · cases h
  · next r records hpoll =>
      rw [passRecord_eq] at h
      cases hmeaning : meaning r with
      | data =>
          rw [hmeaning] at h
          obtain ⟨hne, -⟩ := meaning_data hmeaning
          cases h
          rw [takePending_fill, Filled.fill_items, List.take_eq_nil_iff] at hd
          exact absurd (hd.resolve_left (Nat.ne_of_gt hcap)) hne
      | nothing =>
          rw [hmeaning] at h
          simp only [countEmpty] at h
          split at h <;> cases h
      | ends o =>
          rw [hmeaning] at h
          cases o with
          | eof =>
              cases h
              exact ⟨rfl, hnil⟩
          | error e => cases h

theorem fillLoop_closes (hcap : 0 < cap) (hnil : st.undelivered = []) {d : Filled UInt8 cap}
    (h : (fillLoop Transport cap).run st = (.ready (.ok d), st')) (hd : d.items = []) :
    st'.receivedClose = true ∧ st'.undelivered = [] := by
  refine Loop.rule (l := fillLoop Transport cap) (P := fun st r => st.undelivered = [] →
    r = (.ready (.ok d), st') → st'.receivedClose = true ∧ st'.undelivered = []) ?_ ?_ st hnil h
  · intro s s' r hpass ih hnil hr
    exact ih ((passFill_undelivered hpass).trans hnil) hr
  · intro s r hpass hnil hr
    rw [hr] at hpass
    exact passFill_closes hcap hnil hpass hd

theorem pollRead_closes (hcap : 0 < cap) {d : Filled UInt8 cap}
    (h : pollRead st cap = (.ready (.ok d), st')) (hd : d.items = []) :
    st'.receivedClose = true ∧ st'.undelivered = [] := by
  simp only [pollRead] at h
  rw [if_neg (Nat.ne_of_gt hcap)] at h
  have hleft := st.takePending_undelivered cap
  split at h
  · next hne =>
      cases h
      rw [hd] at hne
      cases hne
  · next hempty =>
      have htake : (st.takePending cap).1.items = [] := by simpa using hempty
      rw [takePending_fill, Filled.fill_items, List.take_eq_nil_iff] at htake
      rw [htake.resolve_left (Nat.ne_of_gt hcap), List.drop_nil] at hleft
      split at h
      · next hclosed =>
          cases h
          exact ⟨hclosed, hleft⟩
      · exact fillLoop_closes hcap hleft h hd

theorem FillYields.leaves {rest : Bytes} (h : FillYields rest st items o) (hcap : 0 < cap) :
    Leaves Yields waits st items o (pollRead st cap) := by
  have hleaves := (pollRead_leaves h hcap).1
  have hbefore := h.waits_eq
  generalize pollRead st cap = r at hleaves
  obtain ⟨r, st'⟩ := r
  cases r with
  | pending =>
      obtain ⟨hy, hlt⟩ := hleaves
      refine ⟨.opened hy, ?_⟩
      rwa [hy.waits_eq, hbefore]
  | ready r =>
      cases r with
      | error e => exact hleaves
      | ok d =>
          by_cases hd : d.items = []
          · exact (leaves_eof_iff hd).mpr ((leaves_eof_iff hd).mp hleaves)
          · obtain ⟨rest', hitems, hy, hle⟩ := (leaves_data_iff hd).mp hleaves
            refine (leaves_data_iff hd).mpr ⟨rest', hitems, .opened hy, ?_⟩
            rwa [hy.waits_eq, hbefore]

theorem closed_leaves (hclosed : st.receivedClose = true) (hcap : 0 < cap) :
    Leaves Yields waits st st.undelivered .eof (pollRead st cap) := by
  have hitems : (st.takePending cap).1.items = st.undelivered.take cap := rfl
  have hclosed' : (st.takePending cap).2.receivedClose = true := hclosed
  simp only [pollRead]
  rw [if_neg (Nat.ne_of_gt hcap), hitems]
  by_cases hnil : st.undelivered = []
  · rw [hnil, List.take_nil, if_neg (by simp), if_pos hclosed']
    exact (leaves_eof_iff (Filled.empty_items cap)).mpr ⟨rfl, rfl⟩
  · have htake : st.undelivered.take cap ≠ [] := by
      rw [ne_eq, List.take_eq_nil_iff]
      exact not_or.mpr ⟨Nat.ne_of_gt hcap, hnil⟩
    have hy : Yields (st.takePending cap).2 (st.undelivered.drop cap ++ []) .eof := by
      rw [List.append_nil, ← takePending_undelivered]
      exact .closed hclosed'
    have hle : waits (st.takePending cap).2 ≤ waits st := by
      rw [waits, hclosed']
      exact Nat.zero_le _
    rw [if_pos (by simpa using htake), takePending_fill]
    have hfill := leaves_fill hnil hcap hy hle
    rwa [List.append_nil] at hfill

theorem pollRead_yields (h : Yields st items o) (hcap : 0 < cap) :
    Leaves Yields waits st items o (pollRead st cap) := by
  cases h with
  | opened hy => exact hy.leaves hcap
  | closed hclosed => exact closed_leaves hclosed hcap

instance : ReadLaw (RealityTlsStream Transport) where
  spec := ⟨Yields, waits, pollRead_yields⟩
  steady := by
    intro st items o cap st' d h hcap hr hd
    obtain ⟨hclosed, hnil⟩ := pollRead_closes hcap hr hd
    refine ⟨hnil ▸ .closed hclosed, ?_⟩
    show waits st' ≤ waits st
    rw [waits, hclosed]
    exact Nat.zero_le _

end RealityTlsStream

/-! ## The connection -/

/-- The streams of a connection whose records come from here. -/
def connection (records : TlsRecordStream Transport) (host : String) (port : UInt16)
    (uuid : Octets uuidSize) (draws : Nat → Nat) :
    VisionStream (VlessResponseStream (RealityTlsStream Transport)) :=
  .new (.new (.new records []) host port) uuid draws

/-- What a server answers: a response header with addons, frames, and raw bytes behind them. -/
def response (addons : Bytes) (uuid : Octets uuidSize) (frames : List Frame) (raw : Bytes) :
    Bytes :=
  VlessResponseStream.version :: UInt8.ofNat addons.length :: (addons ++ wire uuid frames raw)

theorem decodeResponse_response (eof : IoError) {addons : Bytes} (haddons : addons.length < 256)
    (uuid : Octets uuidSize) (frames : List Frame) (raw : Bytes) (o : End IoError) :
    VlessResponseStream.decodeResponse eof (response addons uuid frames raw) o =
      (wire uuid frames raw, o) := by
  have hlen : (UInt8.ofNat addons.length).toNat = addons.length :=
    UInt8.toNat_ofNat_of_lt' haddons
  rw [response, VlessResponseStream.decodeResponse, if_neg (by simp),
    VlessResponseStream.decodeAddons, hlen, if_neg, List.drop_left]
  rw [List.length_append]
  omega

section

variable {p : RecordProtection} {s : RealityTlsStream.ServerStream}
  {records : TlsRecordStream Transport} {after addons raw : Bytes} {uuid : Octets uuidSize}
  {frames : List Frame}

/-- What the server framed and sealed is delivered, up to its end, in any chunks and with any
buffers: the contents of the frames and what follows them. -/
theorem connection_delivers (hp : p.aead.Lawful tagLen) (hs : s.Allowed)
    (hhead : ∀ f ∈ s.fragments, f.head? = some RealityTlsStream.handshakeNewSessionTicket)
    (hread : records.read = some p) (htotal : records.total = s.wire p ++ after)
    (haddons : addons.length < 256) (hframes : Sendable frames)
    (hraw : Open frames ∧ raw = [] ∨ Ended frames)
    (hdata : s.data = response addons uuid frames raw) (host : String) (port : UInt16)
    (draws : Nat → Nat) :
    Delivers pollRead (connection records host port uuid draws) (contents frames ++ raw) .eof := by
  have hfill := RealityTlsStream.fillYields_wire hp hs hread htotal hhead
  have hvless : VlessResponseStream.Yields
      (.new (.new records []) host port : VlessResponseStream (RealityTlsStream Transport))
      (wire uuid frames raw) .eof := by
    refine ⟨s.data, .eof, .opened hfill, ?_⟩
    rw [hdata]
    exact decodeResponse_response _ haddons uuid frames raw .eof
  exact VisionStream.readSpec.delivers
    ⟨rfl, fun _ => ⟨rfl, rfl, rfl, rfl⟩, wire uuid frames raw, .eof, hvless,
      decode_wire uuid hframes hraw⟩

/-- Records that are opened under `p`, and come in two pieces. -/
def inPieces (p : RecordProtection) (bytes : Bytes) : TlsRecordStream Transport :=
  { TlsRecordStream.new (Transport.serving
      (.pending :: arrive (bytes.take 3) (arrive (bytes.drop 3) [])) .eof) with read := some p }

theorem total_inPieces (p : RecordProtection) (bytes : Bytes) :
    (inPieces p bytes).total = bytes ++ [] := by
  show [] ++ unread (.pending :: arrive (bytes.take 3) (arrive (bytes.drop 3) [])) = _
  rw [List.nil_append, unread, unread_arrive, unread_arrive, unread, List.append_nil,
    List.append_nil, List.take_append_drop]

/-- A server of one ticket and of three records of data, in which a frame that is not the last, the
last frame and a byte behind it lie across the records. -/
theorem connection_delivers_two :
    let p : RecordProtection := ⟨⟨List.replicate 12 0, rfl⟩, keyTagged [1], 0⟩
    let uuid : Octets uuidSize := ⟨List.replicate 16 7, rfl⟩
    let frames : List Frame := [⟨cmdContinue, [1, 2], 3⟩, ⟨cmdEnd, [3], 0⟩]
    let data := response [5] uuid frames [4]
    let s : RealityTlsStream.ServerStream :=
      ⟨[.newSessionTickets [[9, 9]] [([4, 0, 0, 2, 9, 9], 0)], .applicationData (data.take 1) 2,
        .applicationData ((data.drop 1).take 30) 0, .applicationData (data.drop 31) 0], 1, 0⟩
    Delivers pollRead (connection (inPieces p (s.wire p)) "a" 443 uuid fun _ => 0) [1, 2, 3, 4]
      .eof := by
  intro p uuid frames data s
  have hs : s.Allowed := RealityTlsStream.ServerStream.allowed_of_few (by decide +kernel)
    (by decide +kernel) (by decide +kernel)
  have hfits : ∀ f ∈ frames, f.content ≠ [] ∧ uuidSize + f.size ≤ maxFrame := by decide
  have hframes : Sendable frames := by
    refine ⟨fun f hf => ⟨(hfits f hf).1, Nat.le_of_add_left_le (hfits f hf).2⟩, fun f hf => ?_⟩
    exact (hfits f (List.mem_of_mem_head? hf)).2
  have hopen : Open [⟨cmdContinue, [1, 2], 3⟩] := by
    intro f hf
    rw [List.mem_singleton.mp hf]
  have hended : Ended frames := ⟨[⟨cmdContinue, [1, 2], 3⟩], ⟨cmdEnd, [3], 0⟩, rfl, hopen, rfl⟩
  have haddons : ([5] : Bytes).length < 256 := by decide
  have hdata : s.data = response [5] uuid frames [4] := by decide +kernel
  exact connection_delivers (keyTagged_lawful _) hs (by decide) rfl (total_inPieces p _) haddons
    hframes (.inr hended) hdata "a" 443 fun _ => 0

end

end RustClash
