import RustClash.Lib.Loop
import RustClash.Proxynet.Error

/-!
# The VLESS response layer

`VlessResponseStream` strips the response header, a version byte and addons with
a length byte before them, from what it reads, and passes writes on.  What came
with the header is `pending` until it is read.
-/

namespace RustClash

structure VlessResponseStream (σ : Type) where
  inner : σ
  host : String
  port : UInt16
  headerRead : Bool
  pending : Bytes
  addonsLeft : Option Nat

namespace VlessResponseStream

variable {σ : Type}

def version : UInt8 := 0x00

/-- The stream that `establish_vless` makes of the layer it sent the request on. -/
def new (inner : σ) (host : String) (port : UInt16) : VlessResponseStream σ :=
  ⟨inner, host, port, false, [], none⟩

def takePending (st : VlessResponseStream σ) : Bytes × VlessResponseStream σ :=
  (st.pending, { st with pending := [] })

/-- `{:02X}`. -/
def hex2 (b : UInt8) : String :=
  let digit (n : Nat) : Char := if n < 10 then Char.ofNat (48 + n) else Char.ofNat (55 + n)
  String.ofList [digit (b.toNat / 16), digit (b.toNat % 16)]

def handshakeEof (st : VlessResponseStream σ) : IoError :=
  let host := st.host
  let port := st.port.toNat
  ⟨.unexpectedEof, s!"VLESS server closed the connection before completing the handshake for {host}:{port} (wrong UUID or rejected request?)."⟩

def badVersion (b : UInt8) : IoError :=
  let hex := hex2 b
  ⟨.invalidData, s!"Unexpected VLESS response version. Expected 0x00, got 0x{hex}."⟩

/-- What one pass of the loop of `poll_read` does. -/
abbrev Pass (σ : Type) (cap : Nat) :=
  VlessResponseStream σ ⊕ (Answer UInt8 IoError cap × VlessResponseStream σ)

section

variable [AsyncRead σ] (cap : Nat) (st : VlessResponseStream σ)

/-- Read more of the header. -/
def passFill : Pass σ cap :=
  match pollRead st.inner 256 with
  | (.ready (.ok d), inner) =>
      if d.items.isEmpty then .inr (.ready (.error st.handshakeEof), { st with inner })
      else .inl { st with inner, pending := st.pending ++ d.items }
  | (.ready (.error e), inner) => .inr (.ready (.error e), { st with inner })
  | (.pending, inner) => .inr (.pending, { st with inner })

def pass : Pass σ cap :=
  if st.headerRead then
    if !st.pending.isEmpty then
      .inr (.ready (.ok (.fill cap st.pending)), { st with pending := st.pending.drop cap })
    else
      let (r, inner) := pollRead st.inner cap
      .inr (r, { st with inner })
  else
    match st.addonsLeft with
    | some left =>
        if left ≤ st.pending.length then
          .inl { st with pending := st.pending.drop left, headerRead := true }
        else st.passFill cap
    | none =>
        match st.pending with
        | v :: left :: rest =>
            if v ≠ version then .inr (.ready (.error (badVersion v)), st)
            else .inl { st with addonsLeft := some left.toNat, pending := rest }
        | _ => st.passFill cap

end

def measure (st : VlessResponseStream σ) : Nat :=
  if st.headerRead then 0
  else
    match st.addonsLeft with
    | some left => left - st.pending.length + 1
    | none => 258 + (2 - st.pending.length)

theorem passFill_inl [AsyncRead σ] {cap : Nat} {st st' : VlessResponseStream σ}
    (h : st.passFill cap = .inl st') : ∃ inner d, d ≠ [] ∧
      st' = { st with inner, pending := st.pending ++ d } := by
  simp only [passFill] at h
  split at h
  · next d inner hr =>
      split at h
      · cases h
      · next hd =>
          cases h
          exact ⟨inner, d.items, by simpa using hd, rfl⟩
  · cases h
  · cases h

/-- One pass of the loop of `poll_read`: each that goes round again reads a byte of
the header, or finishes a part of it. -/
def readLoop (σ : Type) [AsyncRead σ] (cap : Nat) :
    Loop (VlessResponseStream σ) (Answer UInt8 IoError cap × VlessResponseStream σ) where
  body st := st.pass cap
  measure := measure
  decreases := by
    intro st st' h
    simp only [pass] at h
    split at h
    · split at h <;> cases h
    · next hread =>
        split at h
        · next left hleft =>
            split at h
            · cases h
              simp [measure, hread, hleft]
            · next hlen =>
                obtain ⟨inner, d, hd, rfl⟩ := passFill_inl h
                have := List.length_pos_iff.mpr hd
                simp only [measure, hread, hleft, List.length_append]
                simp only [Bool.false_eq_true, if_false]
                omega
        · next hnone =>
            split at h
            · next v left rest hp =>
                split at h
                · cases h
                · cases h
                  have := left.toNat_lt
                  simp only [measure, hread, hnone]
                  simp only [Bool.false_eq_true, if_false]
                  omega
            · next hshort =>
                obtain ⟨inner, d, hd, rfl⟩ := passFill_inl h
                have := List.length_pos_iff.mpr hd
                have hlt : st.pending.length < 2 := by
                  rcases hp : st.pending with _ | ⟨v, _ | ⟨left, rest⟩⟩
                  · decide
                  · simp
                  · exact absurd hp (hshort v left rest)
                simp only [measure, hread, hnone, List.length_append]
                simp only [Bool.false_eq_true, if_false]
                omega

instance [AsyncRead σ] : AsyncRead (VlessResponseStream σ) where
  pollRead st cap := (readLoop σ cap).run st

instance [AsyncWrite σ] : AsyncWrite (VlessResponseStream σ) where
  pollWrite st buf :=
    let (r, inner) := pollWrite st.inner buf
    (r, { st with inner })
  pollFlush st :=
    let (r, inner) := pollFlush st.inner
    (r, { st with inner })

instance [AsyncIo σ] : AsyncIo (VlessResponseStream σ) where
  visionDetach st leftover :=
    let (pending, st) := st.takePending
    let (raw, inner) := visionDetach st.inner (leftover ++ pending)
    (raw, { st with inner })
  pollReadShared st cap :=
    let (r, inner) := pollReadShared st.inner cap
    (r, { st with inner })

/-- What is pending goes behind the leftover, to the layer below. -/
theorem visionDetach_eq [AsyncIo σ] (st : VlessResponseStream σ) (leftover : Bytes) :
    visionDetach st leftover = ((visionDetach st.inner (leftover ++ st.pending)).1,
      { st with pending := [], inner := (visionDetach st.inner (leftover ++ st.pending)).2 }) := rfl

/-! ## The header, once read, stays read -/

/-- Reading the header delivers nothing. -/
theorem passFill_ne_ok [AsyncRead σ] {cap : Nat} {st st' : VlessResponseStream σ}
    {d : Filled UInt8 cap} : st.passFill cap ≠ .inr (.ready (.ok d), st') := by
  intro h
  simp only [passFill] at h
  split at h
  · split at h <;> cases h
  · cases h
  · cases h

/-- A read keeps the header read, and delivers only once it is. -/
theorem pollRead_header [AsyncRead σ] (st : VlessResponseStream σ) (cap : Nat) :
    (st.headerRead = true → (pollRead st cap).2.headerRead = true) ∧
      ∀ d, (pollRead st cap).1 = .ready (.ok d) → (pollRead st cap).2.headerRead = true := by
  refine Loop.rule (l := readLoop σ cap) (P := fun st r =>
    (st.headerRead = true → r.2.headerRead = true) ∧
      ∀ d, r.1 = .ready (.ok d) → r.2.headerRead = true) ?_ ?_ st
  · intro st st' r hb ih
    change st.pass cap = .inl st' at hb
    refine ⟨fun hread => ?_, ih.2⟩
    simp only [pass] at hb
    rw [if_pos hread] at hb
    split at hb <;> cases hb
  · intro st r hb
    change st.pass cap = .inr r at hb
    simp only [pass] at hb
    split at hb
    · next hread => split at hb <;> (cases hb; exact ⟨fun _ => hread, fun _ _ => hread⟩)
    · next hread =>
        refine ⟨fun h => absurd h hread, fun d hd => ?_⟩
        obtain ⟨a, st'⟩ := r
        cases hd
        split at hb
        · split at hb
          · cases hb
          · exact absurd hb passFill_ne_ok
        · split at hb
          · split at hb <;> cases hb
          · exact absurd hb passFill_ne_ok

/-! ## What the layer yields -/

/-- What comes after `left` bytes of addons. -/
def decodeAddons (eof : IoError) (left : Nat) (bs : Bytes) (o : End IoError) : Bytes × End IoError :=
  if bs.length < left then ([], o.truncated eof) else (bs.drop left, o)

/-- What comes after a response header. -/
def decodeResponse (eof : IoError) (bs : Bytes) (o : End IoError) : Bytes × End IoError :=
  match bs with
  | v :: left :: rest =>
      if v ≠ version then ([], .error (badVersion v)) else decodeAddons eof left.toNat rest o
  | _ => ([], o.truncated eof)

/-- A state read through the header: `bs` are the pending bytes and those the layer
below has yet to yield. -/
def decoded (st : VlessResponseStream σ) (bs : Bytes) (o : End IoError) : Bytes × End IoError :=
  if st.headerRead then (bs, o)
  else
    match st.addonsLeft with
    | some left => decodeAddons st.handshakeEof left bs o
    | none => decodeResponse st.handshakeEof bs o

section

variable [AsyncRead σ] [ReadLaw σ]

def Yields (st : VlessResponseStream σ) (items : Bytes) (o : End IoError) : Prop :=
  ∃ rest o', ReadLaw.spec.Yields st.inner rest o' ∧ st.decoded (st.pending ++ rest) o' = (items, o)

def stalls (st : VlessResponseStream σ) : Nat := ReadLaw.spec.stalls st.inner

variable {cap : Nat} {st : VlessResponseStream σ} {items : Bytes} {o : End IoError}

/-- A header that is not complete is read on; the layer below must not end in it. -/
theorem passFill_leaves (hy : Yields st items o)
    (hshort : ∀ o', st.decoded st.pending o' = ([], o'.truncated st.handshakeEof)) :
    PassLeaves Yields stalls st items o (st.passFill cap) := by
  obtain ⟨rest, o', hs, hdec⟩ := hy
  have hstop : rest = [] → ([], o'.truncated st.handshakeEof) = (items, o) := by
    intro hrest
    rw [← hdec, hrest, List.append_nil, hshort]
  simp only [passFill]
  split
  · next d inner hr =>
      by_cases hd : d.items = []
      · obtain ⟨hrest, rfl⟩ := ReadLaw.spec.eof hs (by decide) hr hd
        cases hstop hrest
        rw [if_pos (by simpa using hd)]
        exact ⟨rfl, rfl⟩
      · obtain ⟨rest', rfl, hs', hle⟩ := ReadLaw.spec.data hs (by decide) hr hd
        rw [if_neg (by simpa using hd)]
        refine ⟨⟨rest', o', hs', ?_⟩, hle⟩
        rw [← hdec, ← List.append_assoc]
        rfl
  · next e inner hr =>
      obtain ⟨hrest, rfl⟩ := ReadLaw.spec.error hs (by decide) hr
      cases hstop hrest
      exact ⟨rfl, rfl⟩
  · next inner hr =>
      obtain ⟨hs', hlt⟩ := ReadLaw.spec.pending hs (by decide) hr
      exact ⟨⟨rest, o', hs', hdec⟩, hlt⟩

theorem passRead_leaves (hy : Yields st items o) (hread : st.headerRead = true) (hcap : 0 < cap) :
    PassLeaves Yields stalls st items o (st.pass cap) := by
  obtain ⟨rest, o', hs, hdec⟩ := hy
  obtain ⟨rfl, rfl⟩ : st.pending ++ rest = items ∧ o' = o := by
    simpa [decoded, hread] using hdec
  simp only [pass]
  rw [if_pos hread]
  by_cases hp : st.pending = []
  · rw [if_neg (by simp [hp])]
    have hnil : st.pending ++ rest = rest := by rw [hp, List.nil_append]
    rw [hnil]
    refine (ReadLaw.spec.leaves hs hcap).handOn ?_ rfl rfl
    intro items o hs'
    refine ⟨items, o, hs', ?_⟩
    rw [decoded, if_pos hread]
    show (st.pending ++ items, o) = _
    rw [hp, List.nil_append]
  · rw [if_pos (by simpa using hp)]
    exact leaves_fill hp hcap ⟨rest, o', hs, by rw [decoded, if_pos hread]⟩ (Nat.le_refl _)

theorem pass_leaves (hy : Yields st items o) (hcap : 0 < cap) :
    PassLeaves Yields stalls st items o (st.pass cap) := by
  cases hread : st.headerRead with
  | true => exact passRead_leaves hy hread hcap
  | false =>
      simp only [pass]
      rw [hread, if_neg Bool.false_ne_true]
      split
      · next left hleft =>
          split
          · next hle =>
              obtain ⟨rest, o', hs, hdec⟩ := hy
              refine ⟨⟨rest, o', hs, ?_⟩, Nat.le_refl _⟩
              rw [← hdec]
              simp only [decoded, hread, hleft, decodeAddons]
              simp only [if_true, Bool.false_eq_true, if_false]
              rw [if_neg (by rw [List.length_append]; omega), List.drop_append_of_le_length hle]
          · next hgt =>
              refine passFill_leaves hy fun o' => ?_
              simp only [decoded, hread, hleft, decodeAddons, Bool.false_eq_true, if_false]
              rw [if_pos (by omega)]
      · next hnone =>
          split
          · next v left rest' hp =>
              obtain ⟨rest, o', hs, hdec⟩ := hy
              simp only [decoded, hread, hnone, hp, List.cons_append, decodeResponse,
                Bool.false_eq_true, if_false] at hdec
              by_cases hv : v ≠ version
              · rw [if_pos hv] at hdec ⊢
                cases hdec
                exact ⟨rfl, rfl⟩
              · rw [if_neg hv] at hdec ⊢
                refine ⟨⟨rest, o', hs, ?_⟩, Nat.le_refl _⟩
                rw [← hdec]
                simp [decoded]
                rfl
          · next hshort =>
              refine passFill_leaves hy fun o' => ?_
              simp only [decoded, hread, hnone, Bool.false_eq_true, if_false]
              rcases hp : st.pending with _ | ⟨v, _ | ⟨left, rest⟩⟩
              · rfl
              · rfl
              · exact absurd hp (hshort v left rest)

/-- The layer yields what comes after the response header. -/
def readSpec : ReadSpec (pollRead : ReadFn (VlessResponseStream σ) UInt8 IoError) :=
  ReadSpec.ofLoop (readLoop σ) Yields stalls pass_leaves

omit [ReadLaw σ] in
/-- Only the layer below answers that it is at its end. -/
theorem pass_eof {st' : VlessResponseStream σ} {d : Filled UInt8 cap} (hcap : 0 < cap)
    (hp : st.pass cap = .inr (.ready (.ok d), st')) (hd : d.items = []) :
    st.headerRead = true ∧ st.pending = [] ∧ ∃ inner,
      pollRead st.inner cap = (.ready (.ok d), inner) ∧ st' = { st with inner } := by
  simp only [pass] at hp
  split at hp
  · next hread =>
      split at hp
      · next hne =>
          cases hp
          obtain ⟨n, rfl⟩ := Nat.exists_eq_succ_of_ne_zero (Nat.ne_of_gt hcap)
          have hnil : st.pending = [] := by simpa using hd
          simp [hnil] at hne
      · next hnil =>
          rcases hr : pollRead st.inner cap with ⟨r, inner⟩
          rw [hr] at hp
          cases hp
          exact ⟨hread, by simpa using hnil, inner, rfl, rfl⟩
  · split at hp
    · split at hp
      · cases hp
      · exact absurd hp passFill_ne_ok
    · split at hp
      · split at hp <;> cases hp
      · exact absurd hp passFill_ne_ok

instance : ReadLaw (VlessResponseStream σ) where
  spec := readSpec
  steady := ReadSpec.ofLoop_steady <| by
    rintro st items o cap st' d ⟨rest, o', hs, hdec⟩ hcap hp hd
    obtain ⟨hread, hnil, inner, hr, rfl⟩ := pass_eof hcap hp hd
    obtain ⟨hs', hle⟩ := ReadLaw.steady hs hcap hr hd
    exact ⟨⟨[], .eof, hs', by simp [decoded, hread, hnil]⟩, hle⟩

end

instance [AsyncIo σ] [SharedLaw σ] : SharedLaw (VlessResponseStream σ) where
  spec :=
    { Yields := fun st items o => SharedLaw.spec.Yields st.inner items o
      stalls := fun st => SharedLaw.spec.stalls st.inner
      leaves := fun hy hcap => (SharedLaw.spec.leaves hy hcap).handOn (fun _ _ h => h) rfl rfl }

end VlessResponseStream

end RustClash
