import RustClash.Proxynet.RealityRead

/-!
# Servers after the handshake

A server sends application data, ChangeCipherSpec records and NewSessionTicket
messages, and ends with a close_notify alert.  The messages of one flight may be
cut into handshake records anywhere; `readsToClose_iff` says when the stream delivers
what such a server sends.
-/

namespace RustClash

open Reality

namespace RealityTlsStream

/-! ## What a server sends -/

/-- A NewSessionTicket message. -/
def newSessionTicket (body : Bytes) : Bytes :=
  handshakeNewSessionTicket :: toBe 3 body.length ++ body

/-- Data, a ChangeCipherSpec, or tickets in consecutive handshake records. -/
inductive ServerItem where
  | applicationData (payload : Bytes) (pad : Nat)
  | changeCipherSpec (major minor : UInt8) (payload : Bytes)
  | newSessionTickets (bodies : List Bytes) (fragments : List (Bytes × Nat))

namespace ServerItem

def records : ServerItem → List WireRecord
  | applicationData payload pad => [.sealed .applicationData payload pad]
  | changeCipherSpec major minor payload => [.changeCipherSpec major minor payload]
  | newSessionTickets _ fragments => fragments.map fun f => .sealed .handshake f.1 f.2

def data : ServerItem → Bytes
  | applicationData payload _ => payload
  | _ => []

/-- The payloads of the handshake records. -/
def fragments : ServerItem → List Bytes
  | newSessionTickets _ fragments => fragments.map (·.1)
  | _ => []

/-- The fragments, none of them empty, are the messages. -/
def Allowed : ServerItem → Prop
  | newSessionTickets bodies fragments =>
      fragments.flatMap (·.1) = bodies.flatMap newSessionTicket ∧
        (∀ body ∈ bodies, body.length < 2 ^ 24) ∧ ∀ f ∈ fragments, f.1 ≠ []
  | _ => True

instance : (item : ServerItem) → Decidable item.Allowed
  | newSessionTickets bodies fragments => inferInstanceAs (Decidable
      (fragments.flatMap (·.1) = bodies.flatMap newSessionTicket ∧
        (∀ body ∈ bodies, body.length < 2 ^ 24) ∧ ∀ f ∈ fragments, f.1 ≠ []))
  | applicationData _ _ => inferInstanceAs (Decidable True)
  | changeCipherSpec _ _ _ => inferInstanceAs (Decidable True)

end ServerItem

/-- The records up to the close_notify alert, and that alert. -/
structure ServerStream where
  items : List ServerItem
  closeLevel : UInt8
  closePad : Nat

/-- A record with application data in it. -/
def CarriesData (r : Record) : Prop := r.ty = .applicationData ∧ r.payload ≠ []

namespace ServerStream

def itemRecords (s : ServerStream) : List WireRecord := s.items.flatMap ServerItem.records

def closeNotify (s : ServerStream) : WireRecord := .sealed .alert [s.closeLevel, 0] s.closePad

def data (s : ServerStream) : Bytes := s.items.flatMap ServerItem.data

def fragments (s : ServerStream) : List Bytes := s.items.flatMap ServerItem.fragments

def wire (s : ServerStream) (p : RecordProtection) : Bytes :=
  (p.sealAll (s.itemRecords ++ [s.closeNotify])).1

/-- What RFC 8446 and the limit of the client allow. -/
structure Allowed (s : ServerStream) : Prop where
  fits : ∀ r ∈ s.itemRecords ++ [s.closeNotify], r.Fits
  items : ∀ item ∈ s.items, item.Allowed
  spaced : ∀ run, run <:+: s.itemRecords.map WireRecord.record → (∀ r ∈ run, ¬ CarriesData r) →
    run.length ≤ maxEmptyRecords

end ServerStream

/-- Whatever the buffers, `data` is delivered and then the end of the stream, which is said
only where the close_notify was read. -/
structure ReadsToClose (st : RealityTlsStream Transport) (data after : Bytes) : Prop where
  delivers : Delivers pollRead st data .eof
  closed : ∀ caps, NonEmptyBuffers caps → (readAll pollRead caps st).ended = some .eof →
    (readAll pollRead caps st).state.records.total = after

/-! ## What the records mean -/

def Meaning.isEnd : Meaning → Bool
  | .ends _ => true
  | _ => false

theorem not_isEnd_data {r : Record} (h : CarriesData r) : meaning r = .data := by
  obtain ⟨ty, payload⟩ := r
  obtain ⟨rfl, hne⟩ := h
  simp only [meaning]
  rw [if_neg (by rwa [List.isEmpty_iff])]

/-- Records far enough apart are quiet. -/
theorem quiet_of_spaced {records : List Record} (before : List Record)
    (hnone : ∀ r ∈ records, (meaning r).isEnd = false) (hbefore : ∀ r ∈ before, ¬ CarriesData r)
    (hspaced : ∀ run, run <:+: before ++ records → (∀ r ∈ run, ¬ CarriesData r) →
      run.length ≤ maxEmptyRecords) : Quiet before.length records := by
  induction records generalizing before with
  | nil => trivial
  | cons r records ih =>
    obtain ⟨hr, hrest⟩ := List.forall_mem_cons.mp hnone
    rw [Quiet]
    cases hmeaning : meaning r with
    | data =>
      refine ih [] hrest (List.forall_mem_nil _) fun run hrun => hspaced run (hrun.trans ?_)
      exact ⟨before ++ [r], [], by simp⟩
    | nothing =>
      have hempty : ∀ x ∈ before ++ [r], ¬ CarriesData x := by
        intro x hx
        rcases List.mem_append.mp hx with hx | hx
        · exact hbefore x hx
        · rw [List.mem_singleton.mp hx]
          intro hdata
          rw [not_isEnd_data hdata] at hmeaning
          cases hmeaning
      have heq : before ++ r :: records = (before ++ [r]) ++ records := by simp
      refine ⟨?_, ?_⟩
      · have hlen := hspaced (before ++ [r]) ⟨[], records, by simp⟩ hempty
        rwa [List.length_append] at hlen
      · have hnext := ih _ hrest hempty (heq ▸ hspaced)
        rwa [List.length_append] at hnext
    | ends o =>
      rw [hmeaning] at hr
      cases hr

/-- A fragment of tickets is understood when it begins as a ticket does. -/
theorem isEnd_fragment {payload : Bytes} (hne : payload ≠ []) :
    (meaning ⟨.handshake, payload⟩).isEnd = true ↔
      payload.head? ≠ some handshakeNewSessionTicket := by
  obtain ⟨message, rest, rfl⟩ := List.exists_cons_of_ne_nil hne
  simp only [meaning, List.head?_cons]
  split
  · next h =>
    rw [h]
    exact ⟨fun _ => by decide, fun _ => rfl⟩
  · split
    · next h =>
      rw [h]
      exact ⟨fun h => (by cases h), fun h => absurd rfl h⟩
    · next h => exact ⟨fun _ hsome => h (Option.some.inj hsome), fun _ => rfl⟩

theorem meaning_ne_eof {r : Record} (h : r.ty ≠ .alert) : meaning r ≠ .ends .eof := by
  obtain ⟨ty, payload⟩ := r
  intro hr
  cases ty with
  | alert => exact h rfl
  | changeCipherSpec => cases hr
  | applicationData =>
    simp only [meaning] at hr
    split at hr <;> cases hr
  | handshake =>
    simp only [meaning] at hr
    split at hr
    · cases hr
    · split at hr
      · cases hr
      · split at hr <;> cases hr

namespace ServerItem

/-- The records of an item, as they are opened. -/
def opened (item : ServerItem) : List Record := item.records.map WireRecord.record

theorem opened_tickets (bodies : List Bytes) (fragments : List (Bytes × Nat)) :
    (newSessionTickets bodies fragments).opened = fragments.map fun f => ⟨.handshake, f.1⟩ :=
  List.map_map

theorem applicationData_opened (item : ServerItem) :
    RealityTlsStream.applicationData item.opened = item.data := by
  cases item with
  | applicationData payload pad => exact List.append_nil _
  | changeCipherSpec major minor payload => rfl
  | newSessionTickets bodies fragments =>
    have hnone : ∀ r ∈ (newSessionTickets bodies fragments).opened,
        ¬ (decide (r.ty = .applicationData) = true) := by
      rw [opened_tickets]
      intro r hr
      obtain ⟨f, -, rfl⟩ := List.mem_map.mp hr
      exact nofun
    rw [RealityTlsStream.applicationData, List.filter_eq_nil_iff.mpr hnone]
    rfl

theorem ty_opened {item : ServerItem} {r : Record} (hr : r ∈ item.opened) : r.ty ≠ .alert := by
  cases item with
  | applicationData payload pad =>
    rw [List.mem_singleton.mp hr]
    exact nofun
  | changeCipherSpec major minor payload =>
    rw [List.mem_singleton.mp hr]
    exact nofun
  | newSessionTickets bodies fragments =>
    rw [opened_tickets] at hr
    obtain ⟨f, -, rfl⟩ := List.mem_map.mp hr
    exact nofun

theorem isEnd_opened {item : ServerItem} (hitem : item.Allowed) :
    (∃ r ∈ item.opened, (meaning r).isEnd = true) ↔
      ∃ f ∈ item.fragments, f.head? ≠ some handshakeNewSessionTicket := by
  cases item with
  | applicationData payload pad =>
    have hnot : (meaning ⟨.applicationData, payload⟩).isEnd = false := by
      simp only [meaning]
      split <;> rfl
    constructor
    swap
    · rintro ⟨f, hf, -⟩
      exact absurd hf List.not_mem_nil
    rintro ⟨r, hr, hend⟩
    rw [List.mem_singleton.mp hr, show WireRecord.record _ = ⟨.applicationData, payload⟩ from rfl,
      hnot] at hend
    cases hend
  | changeCipherSpec major minor payload =>
    constructor
    swap
    · rintro ⟨f, hf, -⟩
      exact absurd hf List.not_mem_nil
    rintro ⟨r, hr, hend⟩
    rw [List.mem_singleton.mp hr] at hend
    cases hend
  | newSessionTickets bodies fragments =>
    rw [opened_tickets]
    show (∃ r ∈ fragments.map _, _) ↔ ∃ f ∈ fragments.map (·.1), _
    simp only [List.mem_map, exists_exists_and_eq_and]
    constructor
    · rintro ⟨f, hf, hend⟩
      exact ⟨f, hf, (isEnd_fragment (hitem.2.2 f hf)).mp hend⟩
    · rintro ⟨f, hf, hend⟩
      exact ⟨f, hf, (isEnd_fragment (hitem.2.2 f hf)).mpr hend⟩

end ServerItem

namespace ServerStream

/-- The records before the alert, as they are opened. -/
def opened (s : ServerStream) : List Record := s.itemRecords.map WireRecord.record

theorem opened_eq (s : ServerStream) : s.opened = s.items.flatMap ServerItem.opened :=
  List.map_flatMap

theorem applicationData_opened (s : ServerStream) : applicationData s.opened = s.data := by
  rw [opened_eq, data]
  induction s.items with
  | nil => rfl
  | cons item items ih =>
    rw [List.flatMap_cons, applicationData_append, item.applicationData_opened, ih,
      List.flatMap_cons]

theorem isEnd_opened {s : ServerStream} (hs : s.Allowed) :
    (∃ r ∈ s.opened, (meaning r).isEnd = true) ↔
      ∃ f ∈ s.fragments, f.head? ≠ some handshakeNewSessionTicket := by
  simp only [opened_eq, fragments, List.mem_flatMap]
  constructor
  · rintro ⟨r, ⟨item, hitem, hr⟩, hend⟩
    obtain ⟨f, hf, hhead⟩ := (ServerItem.isEnd_opened (hs.items item hitem)).mp ⟨r, hr, hend⟩
    exact ⟨f, ⟨item, hitem, hf⟩, hhead⟩
  · rintro ⟨f, ⟨item, hitem, hf⟩, hhead⟩
    obtain ⟨r, hr, hend⟩ := (ServerItem.isEnd_opened (hs.items item hitem)).mpr ⟨f, hf, hhead⟩
    exact ⟨r, ⟨item, hitem, hr⟩, hend⟩

theorem ty_opened {s : ServerStream} {r : Record} (hr : r ∈ s.opened) : r.ty ≠ .alert := by
  rw [opened_eq, List.mem_flatMap] at hr
  obtain ⟨item, -, hr⟩ := hr
  exact ServerItem.ty_opened hr

end ServerStream

/-! ## Reading it -/

section

variable {p : RecordProtection} {s : ServerStream} {records : TlsRecordStream Transport}
  {after : Bytes}

/-- The stream right after the handshake, with the bytes of the server still to come. -/
theorem frames_stream (hp : p.aead.Lawful tagLen) (hs : s.Allowed) (hread : records.read = some p)
    (htotal : records.total = s.wire p ++ after) :
    ∃ read, recordFramer.Frames records.read records.total
      (s.opened ++ [⟨.alert, [s.closeLevel, 0]⟩]) read after := by
  have hframes := (RecordProtection.frames_sealAll hs.fits hp).grow after
  rw [List.map_append] at hframes
  rw [hread, htotal]
  exact ⟨_, hframes⟩

/-- Where every fragment begins as a ticket does, the stream has the data to yield. -/
theorem fillYields_wire (hp : p.aead.Lawful tagLen) (hs : s.Allowed) (hread : records.read = some p)
    (htotal : records.total = s.wire p ++ after)
    (hhead : ∀ f ∈ s.fragments, f.head? = some handshakeNewSessionTicket) :
    FillYields after (new records []) s.data .eof := by
  obtain ⟨read, hframes⟩ := frames_stream hp hs hread htotal
  have hnone : ∀ r ∈ s.opened, (meaning r).isEnd = false := by
    intro r hr
    by_contra hend
    obtain ⟨f, hf, hne⟩ := (ServerStream.isEnd_opened hs).mp ⟨r, hr, by simpa using hend⟩
    exact hne (hhead f hf)
  have hquiet : Quiet 0 s.opened := quiet_of_spaced [] hnone nofun hs.spaced
  exact ⟨s.opened, .of_last rfl hquiet rfl hframes, s.applicationData_opened.symm⟩

/-- It is then read to its close. -/
theorem readsToClose (hp : p.aead.Lawful tagLen) (hs : s.Allowed) (hread : records.read = some p)
    (htotal : records.total = s.wire p ++ after)
    (hhead : ∀ f ∈ s.fragments, f.head? = some handshakeNewSessionTicket) :
    ReadsToClose (new records []) s.data after := by
  have hy : (fillSpec after).Yields (new records []) s.data .eof :=
    fillYields_wire hp hs hread htotal hhead
  refine ⟨(fillSpec after).delivers hy, fun caps hcaps hend => ?_⟩
  exact (fillSpec after).readAll_end (E := fun st => st.records.total = after)
    (fun hy hcap hr hd => (pollRead_leaves hy hcap).2 _ _ hr hd) hy hcaps hend

/-- A fragment that begins otherwise ends the stream with an error. -/
theorem ends_in_error (hp : p.aead.Lawful tagLen) (hs : s.Allowed) (hread : records.read = some p)
    (htotal : records.total = s.wire p ++ after)
    (hbad : ∃ f ∈ s.fragments, f.head? ≠ some handshakeNewSessionTicket) :
    ∃ data e, Delivers pollRead (new records []) data (.error e) := by
  obtain ⟨read, hframes⟩ := frames_stream hp hs hread htotal
  obtain ⟨r, hr, hend⟩ := (ServerStream.isEnd_opened hs).mpr hbad
  -- The first record that ends the stream.
  obtain ⟨last, hfind⟩ : ∃ last, s.opened.find? (fun r => (meaning r).isEnd) = some last :=
    Option.isSome_iff_exists.mp (List.find?_isSome.mpr ⟨r, hr, hend⟩)
  obtain ⟨hlast, before, behind, hopened, hbefore⟩ := List.find?_eq_some_iff_append.mp hfind
  have hspaced : ∀ run, run <:+: before → (∀ r ∈ run, ¬ CarriesData r) →
      run.length ≤ maxEmptyRecords := fun run hrun =>
    hs.spaced run (hrun.trans ⟨[], last :: behind, hopened.symm⟩)
  have hquiet : Quiet 0 before := quiet_of_spaced []
    (fun r hr => by simpa using hbefore r hr) nofun hspaced
  have hty := meaning_ne_eof (ServerStream.ty_opened (List.mem_of_find?_eq_some hfind))
  rw [hopened, show before ++ last :: behind ++ [⟨.alert, [s.closeLevel, 0]⟩] =
    (before ++ [last]) ++ (behind ++ [⟨.alert, [s.closeLevel, 0]⟩]) by simp] at hframes
  obtain ⟨read', rest, hfirst, -⟩ := hframes.split
  cases hmeaning : meaning last with
  | data => rw [hmeaning] at hlast; cases hlast
  | nothing => rw [hmeaning] at hlast; cases hlast
  | ends o =>
    cases o with
    | eof => exact absurd hmeaning hty
    | error e =>
      have hy : (fillSpec rest).Yields (new records []) (applicationData before) (.error e) :=
        ⟨before, .of_last rfl hquiet hmeaning hfirst, rfl⟩
      exact ⟨_, e, (fillSpec rest).delivers hy⟩

/-- Few records are never too far apart. -/
theorem ServerStream.allowed_of_few {s : ServerStream}
    (hfits : ∀ r ∈ s.itemRecords ++ [s.closeNotify], r.Fits)
    (hitems : ∀ item ∈ s.items, item.Allowed) (hfew : s.opened.length ≤ maxEmptyRecords) :
    s.Allowed :=
  ⟨hfits, hitems, fun _ hrun _ => Nat.le_trans hrun.length_le hfew⟩

/-- A server that RFC 8446 allows is read to its close, in any chunks and with any buffers,
exactly when each of its handshake records begins as a NewSessionTicket does. -/
theorem readsToClose_iff (hp : p.aead.Lawful tagLen) (hs : s.Allowed)
    (hread : records.read = some p) (htotal : records.total = s.wire p ++ after) :
    ReadsToClose (new records []) s.data after ↔
      ∀ f ∈ s.fragments, f.head? = some handshakeNewSessionTicket := by
  refine ⟨fun h => ?_, readsToClose hp hs hread htotal⟩
  by_contra hbad
  simp only [not_forall] at hbad
  obtain ⟨f, hf, hne⟩ := hbad
  obtain ⟨data, e, hdata⟩ := ends_in_error hp hs hread htotal ⟨f, hf, hne⟩
  cases (h.delivers.unique hdata).2

end

/-- A stream that has just been set up under `p`. -/
def fresh (p : RecordProtection) (reads : List ReadEvent) : RealityTlsStream Transport :=
  new { TlsRecordStream.new (Transport.serving reads .eof) with read := some p } []

/-- Two tickets in one record, after data. -/
theorem readsToClose_tickets :
    let p : RecordProtection := ⟨⟨List.replicate 12 0, rfl⟩, keyTagged [1], 0⟩
    let s : ServerStream :=
      ⟨[.applicationData [104, 105] 3, .changeCipherSpec 3 3 [1],
        .newSessionTickets [[9, 9], []] [([4, 0, 0, 2, 9, 9, 4, 0, 0, 0], 0)]], 1, 0⟩
    ReadsToClose (fresh p (.pending :: arrive (s.wire p) [])) [104, 105] [] := by
  intro p s
  have hs : s.Allowed := ServerStream.allowed_of_few (by decide) (by decide) (by decide)
  have htotal : ([] : Bytes) ++ unread (.pending :: arrive (s.wire p) []) = s.wire p ++ [] := by
    rw [List.nil_append, unread, unread_arrive]
    rfl
  have hiff : ReadsToClose (fresh p (.pending :: arrive (s.wire p) [])) s.data [] ↔ _ :=
    readsToClose_iff (keyTagged_lawful _) hs rfl htotal
  exact hiff.mpr (by decide)

/-- A ticket in two records. -/
theorem not_readsToClose :
    let p : RecordProtection := ⟨⟨List.replicate 12 0, rfl⟩, keyTagged [1], 0⟩
    let s : ServerStream := ⟨[.newSessionTickets [[9, 9]] [([4, 0, 0], 0), ([2, 9, 9], 0)]], 1, 0⟩
    s.Allowed ∧ ¬ ReadsToClose (fresh p (arrive (s.wire p) [])) s.data [] := by
  intro p s
  refine ⟨ServerStream.allowed_of_few (by decide) (by decide) (by decide), fun h => ?_⟩
  have hend : (readAll pollRead [1, 1, 1] (fresh p (arrive (s.wire p) []))).ended =
      some (.error (unexpectedMessage 2)) := by decide +kernel
  cases (h.delivers.at_end _ _ (by decide) hend).2

end RealityTlsStream

end RustClash
