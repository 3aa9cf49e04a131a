import RustClash.Lib.Play
import RustClash.Net.Await

/-!
# Exchanges over a transport

`AsyncReadExt::read_exact`, and a `write_all` with the `flush` behind it.  Both keep account
of what the transport has yet to yield, so scripts can be played over it.
-/

namespace RustClash

namespace Transport

def earlyEof : IoError := ⟨.unexpectedEof, "early eof"⟩

/-- One round of `read_exact`: `got` is what has been read by now. -/
def exactRound (n : Nat) (got : Bytes) (t : Transport) :
    (Bytes × Transport) ⊕ (IoResult Bytes × Transport) :=
  if got.length < n then
    match t.read (n - got.length) with
    | (.error e, t) => .inr (.error e, t)
    | (.ok d, t) => if d.items.isEmpty then .inr (.error earlyEof, t) else .inl (got ++ d.items, t)
  else .inr (.ok got, t)

theorem exactRound_inl {n : Nat} {got : Bytes} {t : Transport} {st : Bytes × Transport}
    (h : exactRound n got t = .inl st) : ∃ d : Bytes, d ≠ [] ∧ (got ++ d).length ≤ n ∧
      st.1 = got ++ d ∧ unread t.reads = d ++ unread st.2.reads ∧ st.2.readEnd = t.readEnd ∧
      st.2.writes = t.writes := by
  simp only [exactRound] at h
  split at h
  · next hlt =>
      have hspec := read_spec (Nat.sub_pos_of_lt hlt) t
      have hwritten := read_written (n - got.length) t
      generalize t.read (n - got.length) = r at h hspec hwritten
      split at h
      · cases h
      · next d t' =>
          split at h
          · cases h
          · next hd =>
              cases h
              have hbound := d.bound
              cases hspec with
              | data hne hunread hend =>
                  exact ⟨d.items, hne, by rw [List.length_append]; omega, rfl, hunread, hend, hwritten.2⟩
              | eof hnil => exact absurd (by simpa using hnil) hd
  · cases h

def exactRounds (n : Nat) : Loop (Bytes × Transport) (IoResult Bytes × Transport) where
  body st := exactRound n st.1 st.2
  measure st := n - st.1.length
  decreases := by
    intro st st' h
    obtain ⟨d, hd, hlen, hgot, -⟩ := exactRound_inl h
    have hpos := List.length_pos_iff.mpr hd
    rw [hgot]
    rw [List.length_append] at hlen ⊢
    omega

/-- `AsyncReadExt::read_exact` into a buffer of `n` bytes. -/
def readBytes (t : Transport) (n : Nat) : IoResult Bytes × Transport := (exactRounds n).run ([], t)

/-- What `read_exact` leaves, with `got` at hand. -/
structure Took (n : Nat) (got : Bytes) (t : Transport) (r : IoResult Bytes × Transport) : Prop where
  enough : n ≤ (got ++ unread t.reads).length →
    r.1 = .ok ((got ++ unread t.reads).take n) ∧
      unread r.2.reads = (got ++ unread t.reads).drop n ∧ r.2.readEnd = t.readEnd ∧
      r.2.writes = t.writes
  short : (got ++ unread t.reads).length < n → ∃ e, r.1 = .error e

theorem readBytes_took (t : Transport) (n : Nat) : Took n [] t (t.readBytes n) := by
  suffices h : ∀ st : Bytes × Transport, st.1.length ≤ n →
      Took n st.1 st.2 ((exactRounds n).run st) from h ([], t) (Nat.zero_le n)
  intro st
  refine Loop.rule (l := exactRounds n) (P := fun st r => st.1.length ≤ n → Took n st.1 st.2 r)
    ?_ ?_ st
  · rintro ⟨got, t⟩ ⟨got', t'⟩ r hb ih hle
    obtain ⟨d, -, hlen, rfl, hunread, hend, hwrites⟩ := exactRound_inl hb
    dsimp only at ih hle hunread hend hwrites ⊢
    have ih := ih hlen
    have hall : got ++ d ++ unread t'.reads = got ++ unread t.reads := by
      rw [hunread, List.append_assoc]
    exact ⟨fun h => hall ▸ hend ▸ hwrites ▸ ih.enough (hall ▸ h), fun h => ih.short (hall ▸ h)⟩
  · rintro ⟨got, t⟩ r hb hle
    change exactRound n got t = .inr r at hb
    dsimp only at hle ⊢
    simp only [exactRound] at hb
    split at hb
    · next hlt =>
        have hspec := read_spec (Nat.sub_pos_of_lt hlt) t
        generalize t.read (n - got.length) = x at hb hspec
        split at hb
        · next e t' =>
            cases hb
            cases hspec with
            | error hnil hend =>
                rw [← List.append_nil got, ← hnil] at hlt
                exact ⟨fun h => absurd hlt (Nat.not_lt.mpr h), fun _ => ⟨e, rfl⟩⟩
        · next d t' =>
            split at hb
            · next hd =>
                cases hb
                cases hspec with
                | data hne _ _ => exact absurd (by simpa using hd) hne
                | eof _ hnil hend =>
                    rw [← List.append_nil got, ← hnil] at hlt
                    exact ⟨fun h => absurd hlt (Nat.not_lt.mpr h), fun _ => ⟨earlyEof, rfl⟩⟩
            · cases hb
    · next hge =>
        cases hb
        have hlen : got.length = n := Nat.le_antisymm hle (Nat.not_lt.mp hge)
        refine ⟨fun _ => ⟨?_, ?_, rfl, rfl⟩, fun h => ?_⟩
        · rw [List.take_left' hlen]
        · rw [List.drop_left' hlen]
        · rw [List.length_append] at h
          omega

theorem readBytes_written (t : Transport) (n : Nat) : (t.readBytes n).2.written = t.written := by
  refine Loop.rule (l := exactRounds n) (P := fun st r => r.2.written = st.2.written) ?_ ?_ ([], t)
  · rintro ⟨got, t⟩ st' r hb ih
    change exactRound n got t = .inl st' at hb
    refine ih.trans ?_
    simp only [exactRound] at hb
    split at hb
    · have hwritten := (read_written (n - got.length) t).1
      split at hb
      · cases hb
      · next hread =>
          split at hb
          · cases hb
          · cases hb
            rw [hread] at hwritten
            exact hwritten
    · cases hb
  · rintro ⟨got, t⟩ r hb
    change exactRound n got t = .inr r at hb
    simp only [exactRound] at hb
    split at hb
    · have hwritten := (read_written (n - got.length) t).1
      split at hb
      · next hread =>
          cases hb
          rw [hread] at hwritten
          exact hwritten
      · next hread =>
          split at hb
          · cases hb
            rw [hread] at hwritten
            exact hwritten
          · cases hb
    · cases hb
      rfl

/-- All that `read_exact` can do: take the bytes it is to take, or come to the end of too few. -/
inductive ReadExact (t : Transport) (n : Nat) : IoResult Bytes × Transport -> Prop where
| got :
  n ≤ (unread t.reads).length ->
  unread t'.reads = (unread t.reads).drop n ->
  t'.written = t.written ->
  t'.writes = t.writes ->
  ReadExact t n (.ok ((unread t.reads).take n), t')
| short :
  (unread t.reads).length < n ->
  t'.written = t.written ->
  ReadExact t n (.error e, t')

theorem readBytes_cases (t : Transport) (n : Nat) : ReadExact t n (t.readBytes n) := by
  have htook := readBytes_took t n
  have hwritten := readBytes_written t n
  generalize t.readBytes n = r at htook hwritten
  obtain ⟨r, t'⟩ := r
  by_cases hn : n ≤ (unread t.reads).length
  · obtain ⟨hr, hrest, -, hwrites⟩ := htook.enough hn
    cases hr
    exact .got hn hrest hwritten hwrites
  · obtain ⟨e, he⟩ := htook.short (Nat.lt_of_not_le hn)
    cases he
    exact .short (Nat.lt_of_not_le hn) hwritten

/-- `write_all`, and `flush`. -/
def send (t : Transport) (bs : Bytes) : IoResult Unit × Transport :=
  match t.writeAll bs with
  | (.error e, t) => (.error e, t)
  | (.ok (), t) => t.flush

theorem send_keeps (t : Transport) (bs : Bytes) :
    (t.send bs).2.reads = t.reads ∧ (t.send bs).2.readEnd = t.readEnd := by
  obtain ⟨sent, -, hwrote, -⟩ := writeAll_spec t bs
  rw [send]
  generalize t.writeAll bs = r at hwrote
  rcases r with ⟨_ | _, t'⟩
  · exact ⟨hwrote.reads, hwrote.readEnd⟩
  · have hflush := flush_spec t'
    exact ⟨hflush.reads.trans hwrote.reads, hflush.readEnd.trans hwrote.readEnd⟩

/-! ## Transports that take all writes -/

theorem drain_willing (zero : IoError) (buf : Bytes) (off : Nat) {t : Transport}
    (h : t.writes = []) : (drain pollWrite zero buf off t).1 = .ready (.ok ()) ∧
      (drain pollWrite zero buf off t).2.2.writes = [] := by
  refine Loop.rule (l := drainLoop pollWrite zero buf) (P := fun st r => st.2.writes = [] →
    r.1 = .ready (.ok ()) ∧ r.2.2.writes = []) ?_ ?_ (off, t) h
  · rintro ⟨off, t⟩ st' r hb ih h
    change drainPass pollWrite zero buf off t = .inl st' at hb
    dsimp only at h
    refine ih ?_
    simp only [drainPass] at hb
    split at hb
    · simp only [pollWrite, h] at hb
      split at hb
      · cases hb
      · cases hb
      · cases hb
      · next hw =>
          cases hb
          injection hw with _ hw
          rw [← hw]
          exact h
    · cases hb
  · rintro ⟨off, t⟩ r hb h
    change drainPass pollWrite zero buf off t = .inr r at hb
    dsimp only at h
    simp only [drainPass] at hb
    split at hb
    · next hlt =>
        have hlen : (buf.drop off).length ≠ 0 := by
          rw [List.length_drop]
          omega
        simp only [pollWrite, h] at hb
        split at hb
        · next hw => cases hw
        · next hw => cases hw
        · next hw =>
            injection hw with hw _
            injection hw with hw
            injection hw with hw
            exact absurd hw hlen
        · cases hb
    · cases hb
      exact ⟨rfl, h⟩

theorem writeAll_willing (buf : Bytes) {t : Transport} (h : t.writes = []) :
    (t.writeAll buf).1 = .ok () ∧ (t.writeAll buf).2.writes = [] := by
  obtain ⟨hdone, hwrites⟩ := drain_willing writeAllZero buf 0 h
  have hrun : (writeAllLoop buf).run (0, t) =
      (.ok (), (drain pollWrite writeAllZero buf 0 t).2) :=
    awaitLoop_ready (Prod.ext hdone rfl)
  simp only [writeAll, hrun]
  exact ⟨trivial, hwrites⟩

theorem flush_willing {t : Transport} (h : t.writes = []) : t.flush = (.ok (), t) :=
  awaitLoop_ready (by simp only [pollFlush, h])

theorem send_willing (bs : Bytes) {t : Transport} (h : t.writes = []) :
    (t.send bs).1 = .ok () ∧ (t.send bs).2.writes = [] := by
  obtain ⟨hok, hwrites⟩ := writeAll_willing bs h
  rw [send]
  generalize t.writeAll bs = r at hok hwrites
  obtain ⟨_ | _, t'⟩ := r
  · cases hok
  · show (t'.flush).1 = _ ∧ (t'.flush).2.writes = _
    rw [flush_willing hwrites]
    exact ⟨rfl, hwrites⟩

/-! ## Transports that take all writes in pieces -/

/-- Every answer to a write takes something or asks to wait. -/
def Takes (t : Transport) : Prop := ∀ w ∈ t.writes, w = .pending ∨ ∃ n, w = .accept (n + 1)

instance (w : WriteEvent) : Decidable (w = .pending ∨ ∃ n, w = .accept (n + 1)) :=
  match w with
  | .pending => isTrue (Or.inl rfl)
  | .fail _ => isFalse (by rintro (h | ⟨n, h⟩) <;> cases h)
  | .accept 0 => isFalse (by rintro (h | ⟨n, h⟩) <;> cases h)
  | .accept (n + 1) => isTrue (Or.inr ⟨n, rfl⟩)

instance (t : Transport) : Decidable t.Takes := List.decidableBAll _ _

theorem Takes.congr {t t' : Transport} (h : t.Takes) (hwrites : t'.writes = t.writes) :
    t'.Takes := by
  rw [Takes, hwrites]
  exact h

/-- A write that is not empty waits or takes something. -/
theorem takes_pollWrite {t : Transport} (h : t.Takes) {buf : Bytes} (hbuf : buf ≠ []) :
    (pollWrite t buf).2.Takes ∧ ((pollWrite t buf).1 = .pending ∨
      ∃ n, (pollWrite t buf).1 = .ready (.ok (n + 1))) := by
  have hlen := List.length_pos_iff.mpr hbuf
  simp only [pollWrite]
  split
  · refine ⟨h, Or.inr ⟨buf.length - 1, ?_⟩⟩
    rw [Nat.sub_add_cancel hlen]
  · next writes hw =>
    refine ⟨fun w hmem => h w ?_, Or.inl rfl⟩
    rw [hw]
    exact List.mem_cons_of_mem _ hmem
  · next e writes hw =>
    obtain hfail | ⟨n, hfail⟩ := h (.fail e) (hw ▸ List.mem_cons_self) <;> cases hfail
  · next n writes hw =>
    refine ⟨fun w hmem => h w ?_, ?_⟩
    · rw [hw]
      exact List.mem_cons_of_mem _ hmem
    · obtain htake | ⟨n, htake⟩ := h (.accept n) (hw ▸ List.mem_cons_self) <;> cases htake
      refine Or.inr ⟨min (n + 1) buf.length - 1, ?_⟩
      rw [Nat.sub_add_cancel (by omega)]

theorem takes_drain {t : Transport} (h : t.Takes) (zero : IoError) (buf : Bytes) (off : Nat) :
    (drain pollWrite zero buf off t).2.2.Takes ∧
      ((drain pollWrite zero buf off t).1 = .pending ∨
        (drain pollWrite zero buf off t).1 = .ready (.ok ())) := by
  refine Loop.rule (l := drainLoop pollWrite zero buf) (P := fun st r => st.2.Takes →
    r.2.2.Takes ∧ (r.1 = .pending ∨ r.1 = .ready (.ok ()))) ?_ ?_ (off, t) h
  · rintro ⟨off, t⟩ st' r hb ih h
    change drainPass pollWrite zero buf off t = .inl st' at hb
    refine ih ?_
    simp only [drainPass] at hb
    split at hb
    · next hlt =>
      have hne : buf.drop off ≠ [] :=
        List.ne_nil_of_length_pos (List.length_drop ▸ Nat.sub_pos_of_lt hlt)
      have hpoll := takes_pollWrite h hne
      split at hb
      · cases hb
      · cases hb
      · cases hb
      · next hw =>
        cases hb
        rw [hw] at hpoll
        exact hpoll.1
    · cases hb
  · rintro ⟨off, t⟩ r hb h
    change drainPass pollWrite zero buf off t = .inr r at hb
    simp only [drainPass] at hb
    split at hb
    · next hlt =>
      have hne : buf.drop off ≠ [] :=
        List.ne_nil_of_length_pos (List.length_drop ▸ Nat.sub_pos_of_lt hlt)
      have hpoll := takes_pollWrite h hne
      split at hb
      · next hw =>
        cases hb
        rw [hw] at hpoll
        exact ⟨hpoll.1, Or.inl rfl⟩
      · next hw =>
        rw [hw] at hpoll
        obtain hans | ⟨n, hans⟩ := hpoll.2 <;> cases hans
      · next hw =>
        rw [hw] at hpoll
        obtain hans | ⟨n, hans⟩ := hpoll.2 <;> cases hans
      · cases hb
    · cases hb
      exact ⟨h, Or.inr rfl⟩

theorem takes_writeAll {t : Transport} (h : t.Takes) (buf : Bytes) :
    (t.writeAll buf).1 = .ok () ∧ (t.writeAll buf).2.Takes := by
  have hrun : ((writeAllLoop buf).run (0, t)).1 = .ok () ∧
      ((writeAllLoop buf).run (0, t)).2.2.Takes := by
    refine awaitLoop_rule (P := fun (st : Nat × Transport) (r : IoResult Unit × Nat × Transport) =>
      st.2.Takes → r.1 = .ok () ∧ r.2.2.Takes) ?_ ?_ (0, t) h
    · intro st st' r hp ih h
      have hd := takes_drain h writeAllZero buf st.1
      rw [hp] at hd
      exact ih hd.1
    · intro st a st' hp h
      have hd := takes_drain h writeAllZero buf st.1
      rw [hp] at hd
      obtain hans | hans := hd.2 <;> cases hans
      exact ⟨rfl, hd.1⟩
  exact hrun

theorem takes_flush {t : Transport} (h : t.Takes) : t.flush.1 = .ok () ∧ t.flush.2.Takes := by
  refine awaitLoop_rule (P := fun (t : Transport) (r : IoResult Unit × Transport) =>
    t.Takes → r.1 = .ok () ∧ r.2.Takes) ?_ ?_ t h
  · intro t t' r hp ih h
    simp only [pollFlush] at hp
    split at hp
    · next writes hw =>
      cases hp
      refine ih fun w hmem => h w ?_
      rw [hw]
      exact List.mem_cons_of_mem _ hmem
    · cases hp
    · cases hp
  · intro t a t' hp h
    simp only [pollFlush] at hp
    split at hp
    · cases hp
    · next e writes hw =>
      obtain hfail | ⟨n, hfail⟩ := h (.fail e) (hw ▸ List.mem_cons_self) <;> cases hfail
    · cases hp
      exact ⟨rfl, h⟩

end Transport

end RustClash
