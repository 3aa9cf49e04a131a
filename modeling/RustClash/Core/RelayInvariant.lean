import RustClash.Core.Relay

/-!
# What the relay carries

A half gives the other side what it reads, in order: `Copies` says how far it is.  In a
run without errors in which the idle limit is not reached nothing cancels the token, and
a half stops only at the end of what it reads.
-/

namespace RustClash

namespace Relay

/-! ## One half -/

/-- Bytes, and no shutdown. -/
def Plain (given : List Given) : Prop := ∃ bss : List Bytes, given = bss.map Given.bytes

theorem Plain.append {given : List Given} (h : Plain given) (bs : Bytes) :
    Plain (given ++ [.bytes bs]) := by
  obtain ⟨bss, rfl⟩ := h
  exact ⟨bss ++ [bs], by rw [List.map_append, List.map_singleton]⟩

/-- How far a half is; one that is `calm` stops only at the end of its source, and shuts the other
side down. -/
inductive Copies (calm : Prop) (h : Half) : Prop
| reading :
  h.await = .read ->
  h.eof = false ->
  Plain h.given ->
  h.written = h.read ->
  Copies calm h
| writing (rest : Bytes) (n : Nat) :
  h.await = .writeAll rest n ->
  rest ≠ [] ->
  h.eof = false ->
  Plain h.given ->
  h.written ++ rest = h.read ->
  Copies calm h
| closing :
  h.await = .shutdown ->
  (calm -> h.eof = true) ->
  Plain h.given ->
  h.written = h.read ->
  Copies calm h
| closed (given : List Given) :
  h.await = .returned ->
  (calm -> h.eof = true) ->
  Plain given ->
  h.given = given ++ [.shutdown] ->
  h.written = h.read ->
  Copies calm h
| failed :
  ¬ calm ->
  h.await = .returned ->
  h.written <+: h.read ->
  Copies calm h

/-- The answer of a stream that reports no error; a write of nothing is one. -/
def HalfEvent.Fine : HalfEvent → Prop
  | .cancelled => True
  | .read r => ∃ bs, r = .ok bs
  | .write r => ∃ k, r = .ok (k + 1)
  | .shutdown r => r = .ok ()

variable {calm : Prop} {h h' : Half} {stop : Bool} {e : HalfEvent} {shared : Shared}

theorem written_append (h : Half) (bs : Bytes) :
    (h.given ++ [Given.bytes bs]).flatMap Given.content = h.written ++ bs := by
  rw [List.flatMap_append, List.flatMap_singleton]
  rfl

theorem Copies.of_read (hc : Copies calm h) (ha : h.await = .read) :
    h.eof = false ∧ Plain h.given ∧ h.written = h.read := by
  cases hc with
  | reading _ heof hplain hw => exact ⟨heof, hplain, hw⟩
  | writing rest n ha' => cases ha.symm.trans ha'
  | closing ha' => cases ha.symm.trans ha'
  | closed given ha' => cases ha.symm.trans ha'
  | failed _ ha' => cases ha.symm.trans ha'

theorem Copies.of_writeAll {rest : Bytes} {n : Nat} (hc : Copies calm h)
    (ha : h.await = .writeAll rest n) :
    h.eof = false ∧ Plain h.given ∧ h.written ++ rest = h.read := by
  cases hc with
  | reading ha' => cases ha.symm.trans ha'
  | writing rest' n' ha' _ heof hplain hw =>
      cases ha.symm.trans ha'
      exact ⟨heof, hplain, hw⟩
  | closing ha' => cases ha.symm.trans ha'
  | closed given ha' => cases ha.symm.trans ha'
  | failed _ ha' => cases ha.symm.trans ha'

theorem Copies.of_shutdown (hc : Copies calm h) (ha : h.await = .shutdown) :
    (calm → h.eof = true) ∧ Plain h.given ∧ h.written = h.read := by
  cases hc with
  | reading ha' => cases ha.symm.trans ha'
  | writing rest n ha' => cases ha.symm.trans ha'
  | closing _ heof hplain hw => exact ⟨heof, hplain, hw⟩
  | closed given ha' => cases ha.symm.trans ha'
  | failed _ ha' => cases ha.symm.trans ha'

/-! ### What an await comes to -/

theorem read_copies {r : IoResult Bytes} (hc : Copies calm h)
    (hs : copyHalf stop h (.read r) = some (h', shared)) (hfine : calm → ∃ bs, r = .ok bs) :
    Copies calm h' ∧ (calm → shared ≠ .cancelStop) := by
  simp only [copyHalf] at hs
  split at hs
  · cases hs
  · next ha =>
      obtain ⟨heof, hplain, hw⟩ := hc.of_read (not_not.mp ha)
      split at hs
      · next e =>
          cases hs
          have hnot : ¬ calm := fun hq => by
            obtain ⟨bs, hbs⟩ := hfine hq
            cases hbs
          exact ⟨.closing rfl (fun hq => absurd hq hnot) hplain hw, fun hq => absurd hq hnot⟩
      · cases hs
        exact ⟨.closing rfl (fun _ => rfl) hplain hw, fun _ => nofun⟩
      · next b bs =>
          split at hs
          · cases hs
          · cases hs
            refine ⟨.writing (b :: bs) _ rfl (List.cons_ne_nil _ _) heof hplain ?_, fun _ => nofun⟩
            exact congrArg (· ++ b :: bs) hw

theorem write_copies {r : IoResult Nat} (hc : Copies calm h)
    (hs : copyHalf stop h (.write r) = some (h', shared)) (hfine : calm → ∃ k, r = .ok (k + 1)) :
    Copies calm h' ∧ (calm → shared ≠ .cancelStop) := by
  simp only [copyHalf] at hs
  split at hs
  · next rest n ha =>
      obtain ⟨heof, hplain, hw⟩ := hc.of_writeAll ha
      have hprefix : h.written <+: h.read := ⟨rest, hw⟩
      split at hs
      · next e =>
          cases hs
          have hnot : ¬ calm := fun hq => by
            obtain ⟨k, hk⟩ := hfine hq
            cases hk
          exact ⟨.failed hnot rfl hprefix, fun hq => absurd hq hnot⟩
      · cases hs
        have hnot : ¬ calm := fun hq => by
          obtain ⟨k, hk⟩ := hfine hq
          cases hk
        exact ⟨.failed hnot rfl hprefix, fun hq => absurd hq hnot⟩
      · next k =>
          split at hs
          · cases hs
          · next hle =>
              split at hs
              · next hall =>
                  cases hs
                  refine ⟨.reading rfl heof (hplain.append _) ?_, fun _ => nofun⟩
                  refine (written_append h _).trans ?_
                  rw [hall, List.take_length]
                  exact hw
              · next hsome =>
                  cases hs
                  have hrest : rest.drop (k + 1) ≠ [] := by
                    rw [ne_eq, List.drop_eq_nil_iff]
                    omega
                  refine ⟨.writing _ n rfl hrest heof (hplain.append _) ?_, fun _ => nofun⟩
                  refine (congrArg (· ++ rest.drop (k + 1)) (written_append h _)).trans ?_
                  rw [List.append_assoc, List.take_append_drop]
                  exact hw
  · cases hs

theorem shutdown_copies {r : IoResult Unit} (hc : Copies calm h)
    (hs : copyHalf stop h (.shutdown r) = some (h', shared)) (hfine : calm → r = .ok ()) :
    Copies calm h' ∧ (calm → shared ≠ .cancelStop) := by
  simp only [copyHalf] at hs
  split at hs
  · cases hs
  · next ha =>
      obtain ⟨heof, hplain, hw⟩ := hc.of_shutdown (not_not.mp ha)
      split at hs
      · next e =>
          cases hs
          have hnot : ¬ calm := fun hq => by cases hfine hq
          exact ⟨.failed hnot rfl (hw ▸ List.prefix_refl _), fun _ => nofun⟩
      · cases hs
        refine ⟨.closed h.given rfl heof hplain rfl ?_, fun _ => nofun⟩
        refine Eq.trans ?_ hw
        show (h.given ++ [Given.shutdown]).flatMap Given.content = h.written
        rw [List.flatMap_append, List.flatMap_singleton]
        exact List.append_nil _

/-- One await of a half. -/
theorem copyHalf_copies (hc : Copies calm h) (hs : copyHalf stop h e = some (h', shared))
    (hcalm : calm → e.Fine ∧ stop = false) : Copies calm h' ∧ (calm → shared ≠ .cancelStop) := by
  cases e with
  | cancelled =>
      simp only [copyHalf] at hs
      split at hs
      · next hstop =>
          cases hs
          obtain ⟨heof, hplain, hw⟩ := hc.of_read hstop.1
          have hnot : ¬ calm := fun hq => by
            rw [(hcalm hq).2] at hstop
            exact absurd hstop.2 Bool.false_ne_true
          exact ⟨.closing rfl (fun hq => absurd hq hnot) hplain hw, fun _ => nofun⟩
      · cases hs
  | read r => exact read_copies hc hs fun hq => (hcalm hq).1
  | write r => exact write_copies hc hs fun hq => (hcalm hq).1
  | shutdown r => exact shutdown_copies hc hs fun hq => (hcalm hq).1

/-- What a half was given is the beginning of what the other side read. -/
theorem Copies.written_part (hc : Copies calm h) : h.written <+: h.read := by
  cases hc with
  | reading _ _ _ hw => exact hw ▸ List.prefix_refl _
  | writing rest _ _ _ _ _ hw => exact ⟨rest, hw⟩
  | closing _ _ _ hw => exact hw ▸ List.prefix_refl _
  | closed _ _ _ _ _ hw => exact hw ▸ List.prefix_refl _
  | failed _ _ hw => exact hw

/-- A half that has shut the other side down has given it everything. -/
theorem Copies.written_of_shutdown (hc : Copies True h) (hs : Given.shutdown ∈ h.given) :
    h.written = h.read := by
  have hplain : ∀ {given : List Given}, Plain given → Given.shutdown ∉ given := by
    rintro given ⟨bss, rfl⟩ hmem
    obtain ⟨bs, _, hbs⟩ := List.mem_map.mp hmem
    cases hbs
  cases hc with
  | reading _ _ _ hw => exact hw
  | writing rest n _ _ _ hgiven _ => exact absurd hs (hplain hgiven)
  | closing _ _ _ hw => exact hw
  | closed _ _ _ _ _ hw => exact hw
  | failed hnot => exact absurd trivial hnot

/-! ## The relay -/

namespace State

/-- No stream reports an error. -/
def EventFine : Event → Prop
  | .half _ e => e.Fine
  | _ => True

/-- A step in which no stream reports an error, and the idle limit is not reached. -/
def CalmSteps (st : State) (e : Event) (st' : State) : Prop :=
  st.Steps e st' ∧ EventFine e ∧ (e = .slept → ¬ st.IdleLimit)

/-- Both halves copy, and a calm relay is not stopped. -/
structure WF (calm : Prop) (st : State) : Prop where
  halves : ∀ d, Copies calm (st.halves d)
  stop : calm → st.stop = false ∧ st.phase ≠ .stopping
  returned : st.phase = .returned → ∀ d, (st.halves d).await = .returned

theorem WF.start (calm : Prop) (now : Nat) : WF calm (.start now) where
  halves _ := .reading rfl rfl ⟨[], rfl⟩ rfl
  stop _ := ⟨rfl, nofun⟩
  returned := nofun

variable {st st' : State}

theorem WF.step {e : Event} (hwf : WF calm st) (hs : st.Steps e st')
    (hcalm : calm → EventFine e ∧ (e = .slept → ¬ st.IdleLimit)) : WF calm st' := by
  cases e with
  | half d e =>
      simp only [Steps, State.step] at hs
      split at hs
      · cases hs
      · next hphase =>
          obtain ⟨⟨h, shared⟩, hhalf, rfl⟩ := Option.map_eq_some_iff.mp hs
          obtain ⟨hcopies, hshared⟩ := copyHalf_copies (hwf.halves d) hhalf
            fun hq => ⟨(hcalm hq).1, (hwf.stop hq).1⟩
          have hhalves : ∀ d', Copies calm (Function.update st.halves d h d') := by
            intro d'
            by_cases hd : d' = d
            · rw [hd, Function.update_self]
              exact hcopies
            · rw [Function.update_of_ne hd]
              exact hwf.halves d'
          cases shared with
          | nothing => exact ⟨hhalves, hwf.stop, fun h => absurd h hphase⟩
          | touchLast => exact ⟨hhalves, hwf.stop, fun h => absurd h hphase⟩
          | cancelStop =>
              exact ⟨hhalves, fun hq => absurd rfl (hshared hq), fun h => absurd h hphase⟩
  | elapse ms =>
      cases hs
      exact ⟨hwf.halves, hwf.stop, hwf.returned⟩
  | slept =>
      simp only [Steps, State.step] at hs
      split at hs
      · split at hs
        · next hlimit =>
            cases hs
            exact ⟨hwf.halves, fun hq => absurd hlimit ((hcalm hq).2 rfl), nofun⟩
        · cases hs
          exact ⟨hwf.halves, hwf.stop, hwf.returned⟩
      · cases hs
  | stopSeen =>
      simp only [Steps, State.step] at hs
      split at hs
      · next hstop =>
          cases hs
          refine ⟨hwf.halves, fun hq => ?_, nofun⟩
          rw [(hwf.stop hq).1] at hstop
          exact absurd hstop.2 Bool.false_ne_true
      · cases hs
  | joined =>
      simp only [Steps, State.step] at hs
      split at hs
      · next hjoined =>
          cases hs
          refine ⟨hwf.halves, fun hq => ⟨(hwf.stop hq).1, nofun⟩, fun _ d => ?_⟩
          cases d with
          | upload => exact hjoined.2.1
          | download => exact hjoined.2.2
      · cases hs

theorem WF.run {events : List Event} {now : Nat} (h : Run Steps (.start now) events st) :
    WF False st :=
  h.invariant (fun hwf hs => hwf.step hs nofun) (.start False now)

theorem WF.calm_run {events : List Event} {now : Nat} (h : Run CalmSteps (.start now) events st) :
    WF True st :=
  h.invariant (fun hwf hs => hwf.step hs.1 fun _ => hs.2) (.start True now)

/-- A relay that has returned does not go on. -/
theorem returned_step {e : Event} (hs : st.Steps e st') (h : st.phase = .returned) :
    st'.phase = .returned := by
  cases e with
  | half d e =>
      rw [Steps, State.step, if_pos h] at hs
      cases hs
  | elapse ms =>
      cases hs
      exact h
  | slept =>
      rw [Steps, State.step, if_neg (fun hsel => by rw [h] at hsel; cases hsel.1)] at hs
      cases hs
  | stopSeen =>
      rw [Steps, State.step, if_neg (fun hsel => by rw [h] at hsel; cases hsel.1)] at hs
      cases hs
  | joined =>
      rw [Steps, State.step, if_neg (fun hj => hj.1 h)] at hs
      cases hs

/-! ### Halves that go on -/

/-- The half is not cancelled, and takes what its streams answer. -/
def GoesOn (st : State) (d : Direction) : Prop :=
  st.step (.half d .cancelled) = none ∧
    (((st.halves d).await = .read ∧
      ∀ bs, bs.length ≤ bufSize → (st.step (.half d (.read (.ok bs)))).isSome) ∨
    ∃ rest n, (st.halves d).await = .writeAll rest n ∧ rest ≠ [] ∧
      ∀ k, 0 < k → k ≤ rest.length → (st.step (.half d (.write (.ok k)))).isSome)

theorem step_half {d : Direction} {e : HalfEvent} (hphase : st.phase ≠ .returned)
    (hs : (copyHalf st.stop (st.halves d) e).isSome) : (st.step (.half d e)).isSome := by
  rw [State.step, if_neg hphase, Option.isSome_map]
  exact hs

/-- A half that has not come to the end of its source goes on, whatever the other one does. -/
theorem WF.goesOn {d : Direction} (hwf : WF True st) (heof : (st.halves d).eof = false) :
    GoesOn st d := by
  have hrunning : (st.halves d).await ≠ .returned → st.phase ≠ .returned :=
    fun ha hphase => ha (hwf.returned hphase d)
  have hended : ¬ (True → (st.halves d).eof = true) := fun h => by
    rw [h trivial] at heof
    cases heof
  constructor
  · rw [State.step]
    split
    · rfl
    · rw [copyHalf, (hwf.stop trivial).1, if_neg fun h => absurd h.2 Bool.false_ne_true]
      rfl
  · cases hwf.halves d with
    | reading ha _ _ _ =>
        refine Or.inl ⟨ha, fun bs hbs => step_half (hrunning (by rw [ha]; nofun)) ?_⟩
        cases bs with
        | nil =>
            simp only [copyHalf, ha]
            rfl
        | cons b bs =>
            simp only [copyHalf, ha]
            rw [if_neg (not_not.mpr rfl), if_neg (Nat.not_lt.mpr hbs)]
            rfl
    | writing rest n ha hne _ _ _ =>
        refine Or.inr ⟨rest, n, ha, hne, fun k hpos hk => step_half (hrunning (by rw [ha]; nofun)) ?_⟩
        obtain ⟨k, rfl⟩ := Nat.exists_eq_succ_of_ne_zero (Nat.ne_of_gt hpos)
        simp only [copyHalf, ha]
        rw [if_neg (Nat.not_lt.mpr hk)]
        split <;> rfl
    | closing _ hclosed _ _ => exact absurd hclosed hended
    | closed _ _ hclosed _ _ _ => exact absurd hclosed hended
    | failed hnot _ _ => exact absurd trivial hnot

/-! ### Halves that end -/

/-- The half has returned, with nothing more read, and the rest is as before. -/
structure Closed (st : State) (d : Direction) (st' : State) : Prop where
  phase : st'.phase = st.phase
  returned : (st'.halves d).await = .returned
  read : (st'.halves d).read = (st.halves d).read
  other : ∀ d', d' ≠ d → st'.halves d' = st.halves d'

/-- The half can be brought to its end. -/
def CanClose (st : State) (d : Direction) : Prop :=
  ∃ events st', Run CalmSteps st events st' ∧ Closed st d st'

@[simp] theorem share_phase (st : State) (shared : Shared) : (st.share shared).phase = st.phase := by
  cases shared <;> rfl

@[simp] theorem share_halves (st : State) (shared : Shared) :
    (st.share shared).halves = st.halves := by
  cases shared <;> rfl

/-- An await of the half that reads nothing comes first. -/
theorem CanClose.after {d : Direction} {e : HalfEvent} (hphase : st.phase ≠ .returned)
    (hs : copyHalf st.stop (st.halves d) e = some (h', shared)) (hfine : e.Fine)
    (hread : h'.read = (st.halves d).read)
    (hrest : CanClose (({ st with halves := Function.update st.halves d h' } : State).share shared) d) :
    CanClose st d := by
  obtain ⟨events, st', hrun, hclosed⟩ := hrest
  have hstep : CalmSteps st (.half d e)
      (({ st with halves := Function.update st.halves d h' } : State).share shared) :=
    ⟨by rw [Steps, State.step, if_neg hphase, hs]; rfl, hfine, nofun⟩
  refine ⟨_, st', hrun.cons hstep, ?_, hclosed.returned, ?_, fun d' hd => ?_⟩
  · rw [hclosed.phase, share_phase]
  · simp only [hclosed.read, share_halves, Function.update_self, hread]
  · simp only [hclosed.other d' hd, share_halves, Function.update_of_ne hd]

theorem canClose_returned {d : Direction} (ha : (st.halves d).await = .returned) : CanClose st d :=
  ⟨[], st, .nil, rfl, ha, rfl, fun _ _ => rfl⟩

theorem canClose_shutdown {d : Direction} (hphase : st.phase ≠ .returned)
    (ha : (st.halves d).await = .shutdown) : CanClose st d := by
  have hs : copyHalf st.stop (st.halves d) (.shutdown (.ok ())) = some ({ st.halves d with
      await := .returned, given := (st.halves d).given ++ [.shutdown] }, .nothing) := by
    simp only [copyHalf, ha]
    rfl
  refine .after hphase hs rfl rfl (canClose_returned ?_)
  simp only [share_halves, Function.update_self]

theorem canClose_read {d : Direction} (hphase : st.phase ≠ .returned)
    (ha : (st.halves d).await = .read) : CanClose st d := by
  have hs : copyHalf st.stop (st.halves d) (.read (.ok [])) =
      some ({ st.halves d with await := .shutdown, eof := true }, .nothing) := by
    simp only [copyHalf, ha]
    rfl
  refine .after hphase hs ⟨[], rfl⟩ rfl (canClose_shutdown ?_ ?_)
  · rwa [share_phase]
  · simp only [share_halves, Function.update_self]

theorem canClose_writeAll {d : Direction} {rest : Bytes} {n : Nat} (hphase : st.phase ≠ .returned)
    (ha : (st.halves d).await = .writeAll rest n) (hne : rest ≠ []) : CanClose st d := by
  obtain ⟨k, hk⟩ := Nat.exists_eq_add_one_of_ne_zero (List.length_eq_zero_iff.not.mpr hne)
  have hs : copyHalf st.stop (st.halves d) (.write (.ok (k + 1))) = some ({ st.halves d with
      await := .read
      given := (st.halves d).given ++ [.bytes (rest.take (k + 1))]
      counted := (st.halves d).counted + n }, .nothing) := by
    simp only [copyHalf, ha]
    rw [if_neg (by omega), if_pos hk.symm]
  refine .after hphase hs ⟨k, rfl⟩ rfl (canClose_read ?_ ?_)
  · rwa [share_phase]
  · simp only [share_halves, Function.update_self]

theorem WF.canClose (hwf : WF True st) (hphase : st.phase ≠ .returned) (d : Direction) :
    CanClose st d := by
  cases hwf.halves d with
  | reading ha => exact canClose_read hphase ha
  | writing rest n ha hne => exact canClose_writeAll hphase ha hne
  | closing ha => exact canClose_shutdown hphase ha
  | closed _ ha => exact canClose_returned ha
  | failed _ ha => exact canClose_returned ha

/-- When both sources end, both halves return, with everything read before given on. -/
theorem WF.canEnd (hwf : WF True st) (hphase : st.phase ≠ .returned) :
    ∃ events st', Run CalmSteps st events st' ∧ st'.phase ≠ .returned ∧
      ∀ d, (st'.halves d).await = .returned ∧ (st'.halves d).read = (st.halves d).read := by
  obtain ⟨up, st₁, hup, hclosed⟩ := hwf.canClose hphase .upload
  have hphase₁ : st₁.phase ≠ .returned := by rwa [hclosed.phase]
  have hwf₁ : WF True st₁ := hup.invariant (fun hwf hs => hwf.step hs.1 fun _ => hs.2) hwf
  obtain ⟨down, st₂, hdown, hclosed₂⟩ := hwf₁.canClose hphase₁ .download
  refine ⟨up ++ down, st₂, hup.append hdown, by rwa [hclosed₂.phase], fun d => ?_⟩
  cases d with
  | upload =>
      rw [hclosed₂.other .upload nofun]
      exact ⟨hclosed.returned, hclosed.read⟩
  | download =>
      refine ⟨hclosed₂.returned, ?_⟩
      rw [hclosed₂.read, hclosed.other .download nofun]

/-- The bytes given to each side are always the beginning of those read from the other.  As long as
no side reports an error and the idle limit is not reached, a half that has not come to the end of
its source goes on, and the relay returns only when both have come to it, each having given
everything it read and then the shutdown. -/
theorem carries (now : Nat) :
    (∀ (events : List Event) (st : State), Run Steps (.start now) events st →
      ∀ d, (st.halves d).written <+: (st.halves d).read) ∧
    ∀ (events : List Event) (st : State), Run CalmSteps (.start now) events st →
      (∀ d, (st.halves d).eof = false → GoesOn st d) ∧
      (st.phase = .returned → ∀ d, (st.halves d).eof = true ∧
        ∃ bss : List Bytes, (st.halves d).given = bss.map Given.bytes ++ [.shutdown] ∧
          bss.flatten = (st.halves d).read) := by
  refine ⟨fun events st h d => ((WF.run h).halves d).written_part, fun events st h => ?_⟩
  have hwf := WF.calm_run h
  refine ⟨fun d heof => hwf.goesOn heof, fun hphase d => ?_⟩
  have ha := hwf.returned hphase d
  cases hwf.halves d with
  | reading ha' => cases ha.symm.trans ha'
  | writing rest n ha' => cases ha.symm.trans ha'
  | closing ha' => cases ha.symm.trans ha'
  | failed hnot => exact absurd trivial hnot
  | closed given _ heof hplain hgiven hw =>
      obtain ⟨bss, rfl⟩ := hplain
      refine ⟨heof trivial, bss, hgiven, ?_⟩
      rw [← hw, Half.written, hgiven, List.flatMap_append, List.flatMap_map]
      show bss.flatten = bss.flatMap id ++ []
      rw [List.append_nil, List.flatMap_id]

set_option maxRecDepth 20000 in
/-- Five bytes go up in two parts, the upload ends, and two bytes still come down. -/
theorem carries_half_closed :
    ∃ st, Run CalmSteps (.start 0)
      [.half .upload (.read (.ok [1, 2, 3, 4, 5])), .half .upload (.write (.ok 2)), .elapse 5000,
        .slept, .half .upload (.write (.ok 3)), .half .upload (.read (.ok [])),
        .half .upload (.shutdown (.ok ())), .half .download (.read (.ok [6, 7])),
        .half .download (.write (.ok 2)), .half .download (.read (.ok [])),
        .half .download (.shutdown (.ok ())), .joined] st ∧
      ∀ d, (st.halves d).eof = true ∧
        ∃ bss : List Bytes, (st.halves d).given = bss.map Given.bytes ++ [.shutdown] ∧
          bss.flatten = (st.halves d).read := by
  have hrun : Run CalmSteps (.start 0)
      [.half .upload (.read (.ok [1, 2, 3, 4, 5])), .half .upload (.write (.ok 2)), .elapse 5000,
        .slept, .half .upload (.write (.ok 3)), .half .upload (.read (.ok [])),
        .half .upload (.shutdown (.ok ())), .half .download (.read (.ok [6, 7])),
        .half .download (.write (.ok 2)), .half .download (.read (.ok [])),
        .half .download (.shutdown (.ok ())), .joined] _ :=
    .cons ⟨rfl, ⟨_, rfl⟩, nofun⟩ <| .cons ⟨rfl, ⟨1, rfl⟩, nofun⟩ <| .cons ⟨rfl, trivial, nofun⟩ <|
    .cons ⟨rfl, trivial, fun _ => by decide⟩ <| .cons ⟨rfl, ⟨2, rfl⟩, nofun⟩ <|
    .cons ⟨rfl, ⟨_, rfl⟩, nofun⟩ <| .cons ⟨rfl, rfl, nofun⟩ <| .cons ⟨rfl, ⟨_, rfl⟩, nofun⟩ <|
    .cons ⟨rfl, ⟨1, rfl⟩, nofun⟩ <| .cons ⟨rfl, ⟨_, rfl⟩, nofun⟩ <| .cons ⟨rfl, rfl, nofun⟩ <|
    .cons ⟨rfl, trivial, nofun⟩ .nil
  exact ⟨_, hrun, ((carries 0).2 _ _ hrun).2 rfl⟩

end State

end Relay

end RustClash
