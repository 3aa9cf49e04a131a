import RustClash.Core.RelayInvariant
import RustClash.Inbound.Forward
import RustClash.Inbound.Tunnel

/-!
# What the tunnel carries

Each phase holds the client's bytes that the destination has not been given, and owes
the client the rest of the response.  No step loses or repeats any of them, so that both
accounts are even when the relay takes over.
-/

namespace RustClash

namespace Inbound.Tunnel

open Relay (Copies)

/-! ## What is held -/

namespace Phase

/-- The relay has not started, and the tunnel has not ended. -/
def opening : Phase → Bool
  | .relaying | .returned _ => false
  | _ => true

/-- What the destination has not been given yet. -/
def held : Phase → Bytes
  | .dialing early | .replying early _ | .flushing early | .hello early => early
  | .sending rest pieces => rest ++ pieces.flatten
  | _ => []

/-- What the client has not been given yet of the response. -/
def owed : Phase → Bytes
  | .dialing _ => response
  | .replying _ rest => rest
  | _ => []

/-- No write of nothing is under way. -/
def Busy : Phase → Prop
  | .replying _ rest | .sending rest _ => rest ≠ []
  | _ => True

end Phase

/-- Before the relay, the account of both sides, with `held` and `owed` outstanding. -/
structure Holds (leftover : Bytes) (st : State) (held owed : Bytes) : Prop where
  dest : st.toDest ++ held = leftover ++ st.fromClient
  client : st.toClient ++ owed = response
  relay : st.relay = none

theorem Holds.goTo {leftover held owed : Bytes} {st : State} (h : Holds leftover st held owed)
    (phase : Phase) : Holds leftover { st with phase } held owed :=
  ⟨h.dest, h.client, h.relay⟩

/-- How far a tunnel is; one that is `calm` ends only with its relay. -/
inductive Carries (calm : Prop) (leftover : Bytes) (st : State) : Prop
| holding :
  st.phase.opening ->
  st.phase.Busy ->
  Holds leftover st st.phase.held st.phase.owed ->
  Carries calm leftover st
| relaying (r : Relay.State) :
  st.phase = .relaying ->
  st.relay = some r ->
  r.WF calm ->
  r.phase ≠ .returned ->
  st.toDest = leftover ++ st.fromClient ->
  st.toClient = response ->
  Carries calm leftover st
| ended (r : Relay.State) :
  st.phase = .returned none ->
  st.relay = some r ->
  r.WF calm ->
  (calm -> r.phase = .returned) ->
  st.toDest = leftover ++ st.fromClient ->
  st.toClient = response ->
  Carries calm leftover st
| refused (answer : Option (Nat × String)) (held owed : Bytes) :
  ¬ calm ->
  st.phase = .returned answer ->
  Holds leftover st held owed ->
  Carries calm leftover st

variable {calm : Prop} {leftover : Bytes} {st st' : State}

theorem Carries.holds (hc : Carries calm leftover st) {p : Phase} (hp : st.phase = p)
    (hopen : p.opening) : p.Busy ∧ Holds leftover st p.held p.owed := by
  subst hp
  cases hc with
  | holding _ hbusy h => exact ⟨hbusy, h⟩
  | relaying r hphase =>
      rw [hphase] at hopen
      cases hopen
  | ended r hphase =>
      rw [hphase] at hopen
      cases hopen
  | refused answer held owed _ hphase =>
      rw [hphase] at hopen
      cases hopen

theorem Carries.started {r : Relay.State} (hc : Carries calm leftover st)
    (hphase : st.phase = .relaying) (hrelay : st.relay = some r) :
    r.WF calm ∧ st.toDest = leftover ++ st.fromClient ∧ st.toClient = response := by
  cases hc with
  | holding hopen =>
      rw [hphase] at hopen
      cases hopen
  | relaying r' _ hrelay' hwf _ hdest hclient =>
      cases hrelay.symm.trans hrelay'
      exact ⟨hwf, hdest, hclient⟩
  | ended r' hphase' => cases hphase.symm.trans hphase'
  | refused answer held owed _ hphase' => cases hphase.symm.trans hphase'

/-! ## Steps before the relay -/

/-- The pieces are held until they are written. -/
theorem Carries.send {pieces : List Bytes} (h : Holds leftover st pieces.flatten []) :
    Carries calm leftover { st with phase := Tunnel.send pieces } := by
  have hflat := List.flatten_filter_not_isEmpty (L := pieces)
  have hne : ∀ p ∈ pieces.filter (!·.isEmpty), p ≠ [] := fun p hp heq => by
    rw [heq] at hp
    exact absurd (List.mem_filter.mp hp).2 Bool.false_ne_true
  unfold Tunnel.send
  split
  · next heq =>
      rw [heq] at hflat
      exact .holding rfl trivial ⟨by rw [← h.dest, ← hflat]; rfl, h.client, h.relay⟩
  · next rest ps heq =>
      rw [heq] at hflat hne
      exact .holding rfl (hne rest List.mem_cons_self)
        ⟨by rw [← h.dest, ← hflat]; rfl, h.client, h.relay⟩

theorem Carries.flushFirstRecord {ms : Bytes} (h : Holds leftover st ms []) :
    Carries calm leftover { st with phase := Tunnel.flushFirstRecord ms } := by
  have hall : Carries calm leftover { st with phase := Tunnel.send [ms] } :=
    .send (by rwa [List.flatten_singleton])
  unfold Tunnel.flushFirstRecord
  split
  · exact hall
  · split
    · next rec hrec =>
        refine .send ?_
        rwa [List.flatten_cons, List.flatten_singleton, List.take_append_drop]
    · split
      · exact hall
      · exact .holding rfl trivial (h.goTo _)

/-- A write moves bytes from what is left to what was written. -/
theorem append_of_writeAll {rest : Bytes} {r : IoResult Nat} {written rest' : Bytes}
    (h : writeAll rest r = some (some (written, rest'))) : written ++ rest' = rest := by
  cases r with
  | error e => cases h
  | ok k =>
      cases k with
      | zero => cases h
      | succ k =>
          rw [writeAll] at h
          split at h
          · cases h
          · cases h
            exact List.take_append_drop _ _

/-- A write that does not fail. -/
theorem writeAll_ok {rest : Bytes} {k : Nat} {o : Option (Bytes × Bytes)}
    (h : writeAll rest (.ok (k + 1)) = some o) : ∃ written rest', o = some (written, rest') := by
  rw [writeAll] at h
  split at h
  · cases h
  · cases h
    exact ⟨_, _, rfl⟩

/-- No stream reports an error. -/
def Event.Fine : Event → Prop
  | .clientRead r => ∃ bs, r = .ok bs
  | .clientWritten r | .destWritten r => ∃ k, r = .ok (k + 1)
  | .clientFlushed r | .destFlushed r => r = .ok ()
  | .relay e => Relay.State.EventFine e
  | _ => True

namespace State

/-- The tunnel is not aborted, the dial succeeds, at most `maxEarly` bytes come before it
does, the client does not close before that, and the idle limit is not reached. -/
def Calm (st : State) : Event → Prop
  | .aborted => False
  | .dialed r => r = .ok ()
  | .clientRead r => ∀ early, st.phase = .dialing early →
      ∀ bs, r = .ok bs → bs ≠ [] ∧ early.length + bs.length ≤ maxEarly
  | .relay e => e = .slept → ∀ r, st.relay = some r → ¬ r.IdleLimit
  | _ => True

/-- A step in which no stream reports an error. -/
def FineSteps (st : State) (e : Event) (st' : State) : Prop := st.Steps e st' ∧ e.Fine

def CalmSteps (st : State) (e : Event) (st' : State) : Prop :=
  st.Steps e st' ∧ e.Fine ∧ st.Calm e

end State

theorem clientRead_carries {bs : Bytes} (hc : Carries calm leftover st)
    (hs : st.clientRead (.ok bs) = some st')
    (hcalm : calm → st.Calm (.clientRead (.ok bs))) : Carries calm leftover st' := by
  cases bs with
  | nil =>
      simp only [State.clientRead] at hs
      split at hs
      · next early hp =>
          cases hs
          exact .refused none early response (fun hq => absurd rfl (hcalm hq early hp [] rfl).1) rfl
            ((hc.holds hp rfl).2.goTo _)
      · next ms hp =>
          cases hs
          exact .send (by rw [List.flatten_singleton]; exact (hc.holds hp rfl).2)
      · cases hs
  | cons b bs =>
      simp only [State.clientRead] at hs
      split at hs
      · next early hp =>
          split at hs
          · cases hs
          · cases hs
            obtain ⟨hdest, hclient, hrelay⟩ := (hc.holds hp rfl).2
            have hmore : st.toDest ++ (early ++ b :: bs) = leftover ++ (st.fromClient ++ b :: bs) := by
              rw [← List.append_assoc, ← List.append_assoc]
              exact congrArg (· ++ b :: bs) hdest
            split
            · next hmax =>
                refine .refused _ (early ++ b :: bs) response (fun hq => ?_) rfl
                  ⟨hmore, hclient, hrelay⟩
                exact absurd (hcalm hq early hp _ rfl).2 (Nat.not_le.mpr hmax)
            · exact .holding rfl trivial ⟨hmore, hclient, hrelay⟩
      · next ms hp =>
          split at hs
          · cases hs
          · cases hs
            obtain ⟨hdest, hclient, hrelay⟩ := (hc.holds hp rfl).2
            have hmore : st.toDest ++ (ms ++ b :: bs) = leftover ++ (st.fromClient ++ b :: bs) := by
              rw [← List.append_assoc, ← List.append_assoc]
              exact congrArg (· ++ b :: bs) hdest
            have hholds : Holds leftover { st with fromClient := st.fromClient ++ b :: bs }
                (ms ++ b :: bs) [] := ⟨hmore, hclient, hrelay⟩
            exact .flushFirstRecord hholds
      · cases hs

theorem clientWritten_carries {k : Nat} (hc : Carries calm leftover st)
    (hs : st.clientWritten (.ok (k + 1)) = some st') : Carries calm leftover st' := by
  simp only [State.clientWritten] at hs
  split at hs
  · next early rest hp =>
      obtain ⟨o, ho, rfl⟩ := Option.map_eq_some_iff.mp hs
      obtain ⟨written, rest', rfl⟩ := writeAll_ok ho
      obtain ⟨hdest, hclient, hrelay⟩ := (hc.holds hp rfl).2
      have hmore : (st.toClient ++ written) ++ rest' = response := by
        rw [List.append_assoc, append_of_writeAll ho]
        exact hclient
      cases rest' with
      | nil => exact .holding rfl trivial ⟨hdest, hmore, hrelay⟩
      | cons b bs => exact .holding rfl (List.cons_ne_nil b bs) ⟨hdest, hmore, hrelay⟩
  · cases hs

theorem destWritten_carries {k : Nat} (hc : Carries calm leftover st)
    (hs : st.destWritten (.ok (k + 1)) = some st') : Carries calm leftover st' := by
  simp only [State.destWritten] at hs
  split at hs
  · next rest pieces hp =>
      obtain ⟨o, ho, rfl⟩ := Option.map_eq_some_iff.mp hs
      obtain ⟨written, rest', rfl⟩ := writeAll_ok ho
      obtain ⟨hdest, hclient, hrelay⟩ := (hc.holds hp rfl).2
      have hmore : (st.toDest ++ written) ++ (rest' :: pieces).flatten = leftover ++ st.fromClient := by
        rw [← hdest, List.flatten_cons, Phase.held, ← append_of_writeAll ho, List.append_assoc,
          List.append_assoc]
      have hholds : Holds leftover { st with toDest := st.toDest ++ written }
          (rest' :: pieces).flatten [] := ⟨hmore, hclient, hrelay⟩
      exact .send hholds
  · cases hs

/-! ## Steps of the relay -/

theorem relay_carries {e : Relay.Event} (hc : Carries calm leftover st)
    (hs : st.step (.relay e) = some st') (hfine : Relay.State.EventFine e)
    (hcalm : calm → st.Calm (.relay e)) : Carries calm leftover st' := by
  simp only [State.step] at hs
  split at hs
  · next r hp hr =>
      obtain ⟨r', hstep, rfl⟩ := Option.map_eq_some_iff.mp hs
      obtain ⟨hwf, hdest, hclient⟩ := hc.started hp hr
      have hwf' := hwf.step hstep fun hq => ⟨hfine, fun he => hcalm hq he r hr⟩
      split
      · next hret => exact .ended r' rfl rfl hwf' (fun _ => hret) hdest hclient
      · next hret => exact .relaying r' rfl rfl hwf' hret hdest hclient
  · cases hs

theorem Carries.step {e : Event} (hc : Carries calm leftover st) (hs : st.Steps e st')
    (hfine : e.Fine) (hcalm : calm → st.Calm e) : Carries calm leftover st' := by
  cases e with
  | clientRead r =>
      obtain ⟨bs, rfl⟩ := hfine
      exact clientRead_carries hc hs hcalm
  | clientWritten r =>
      obtain ⟨k, rfl⟩ := hfine
      exact clientWritten_carries hc hs
  | destWritten r =>
      obtain ⟨k, rfl⟩ := hfine
      exact destWritten_carries hc hs
  | relay e => exact relay_carries hc hs hfine hcalm
  | aborted =>
      simp only [State.Steps, State.step] at hs
      split at hs
      · next early hp =>
          cases hs
          exact .refused none _ _ (fun hq => (hcalm hq).elim) rfl ((hc.holds hp rfl).2.goTo _)
      · next hp =>
          cases hs
          cases hc with
          | holding hopen =>
              rw [hp] at hopen
              cases hopen
          | relaying r _ hr hwf _ hdest hclient =>
              exact .ended r rfl hr hwf (fun hq => (hcalm hq).elim) hdest hclient
          | ended r hp' => cases hp.symm.trans hp'
          | refused answer held owed _ hp' => cases hp.symm.trans hp'
      · cases hs
  | dialed r =>
      simp only [State.Steps, State.step] at hs
      split at hs
      · next early hp =>
          cases hs
          exact .holding rfl (fun h => by cases h) ((hc.holds hp rfl).2.goTo _)
      · next early e hp =>
          cases hs
          exact .refused _ _ _ (fun hq => by cases hcalm hq) rfl ((hc.holds hp rfl).2.goTo _)
      · cases hs
  | clientFlushed r =>
      cases (hfine : r = .ok ())
      simp only [State.Steps, State.step] at hs
      split at hs
      · next early hp _ =>
          cases hs
          exact .flushFirstRecord (hc.holds hp rfl).2
      · next h => cases h
      · cases hs
  | timeout =>
      simp only [State.Steps, State.step] at hs
      split at hs
      · next ms hp =>
          cases hs
          exact .send (by rw [List.flatten_singleton]; exact (hc.holds hp rfl).2)
      · cases hs
  | destFlushed r =>
      simp only [State.Steps, State.step] at hs
      split at hs
      · next hp =>
          cases hs
          exact .holding rfl trivial ((hc.holds hp rfl).2.goTo _)
      · cases hs
  | relayed now =>
      simp only [State.Steps, State.step] at hs
      split at hs
      · next hp =>
          cases hs
          have h : Holds leftover st [] [] := (hc.holds hp rfl).2
          exact .relaying _ rfl rfl (.start calm now) (fun h => by cases h)
            ((List.append_nil _).symm.trans h.dest) ((List.append_nil _).symm.trans h.client)
      · cases hs

theorem Carries.start (h : calm → leftover.length ≤ maxEarly) :
    Carries calm leftover (.start leftover) := by
  have hholds : Holds leftover (.start leftover) leftover response := ⟨(List.append_nil _).symm, rfl, rfl⟩
  by_cases hfit : leftover.length ≤ maxEarly
  · have hphase : (State.start leftover).phase = .dialing leftover := if_neg (Nat.not_lt.mpr hfit)
    refine .holding ?_ ?_ ?_
    · rw [hphase]
      rfl
    · rw [hphase]
      trivial
    · rw [hphase]
      exact hholds
  · exact .refused _ leftover response (fun hq => hfit (h hq)) (if_pos (Nat.lt_of_not_le hfit)) hholds

namespace State

theorem half_none (hrelay : st.relay = none) (d : Relay.Direction) : st.half d = .start := by
  rw [half, hrelay]
  rfl

theorem half_some {r : Relay.State} (hrelay : st.relay = some r) (d : Relay.Direction) :
    st.half d = r.halves d := by
  rw [half, hrelay]
  rfl

end State

/-- At no point has the destination been given anything but the leftover and what was read from
the client, nor the client anything but the response and what was read from the destination. -/
theorem Carries.parts (hc : Carries calm leftover st) :
    st.forwarded <+: leftover ++ st.sent ∧ st.answered <+: response ++ st.fetched := by
  have hheld : ∀ {held owed : Bytes}, Holds leftover st held owed →
      st.forwarded <+: leftover ++ st.sent ∧ st.answered <+: response ++ st.fetched := by
    intro held owed h
    rw [State.forwarded, State.answered, State.sent, State.fetched, State.half_none h.relay,
      State.half_none h.relay]
    simp only [Relay.Half.start, Relay.Half.written, List.flatMap_nil, List.append_nil]
    exact ⟨⟨held, h.dest⟩, ⟨owed, h.client⟩⟩
  have hrelay : ∀ {r : Relay.State}, st.relay = some r → r.WF calm →
      st.toDest = leftover ++ st.fromClient → st.toClient = response →
      st.forwarded <+: leftover ++ st.sent ∧ st.answered <+: response ++ st.fetched := by
    intro r hr hwf hdest hclient
    rw [State.forwarded, State.answered, State.sent, State.fetched, State.half_some hr,
      State.half_some hr, hdest, hclient, ← List.append_assoc]
    exact ⟨(List.prefix_append_right_inj _).mpr (hwf.halves .upload).written_part,
      (List.prefix_append_right_inj _).mpr (hwf.halves .download).written_part⟩
  cases hc with
  | holding _ _ h => exact hheld h
  | relaying r _ hr hwf _ hdest hclient => exact hrelay hr hwf hdest hclient
  | ended r _ hr hwf _ hdest hclient => exact hrelay hr hwf hdest hclient
  | refused answer held owed _ _ h => exact hheld h

/-- The side that `d` leads to was shut down, behind everything that it was to be given. -/
def State.Done (leftover : Bytes) (st : State) : Relay.Direction → Prop
  | .upload => st.forwarded = leftover ++ st.sent
  | .download => st.answered = response ++ st.fetched

theorem Carries.done {d : Relay.Direction} (hc : Carries True leftover st)
    (hs : Relay.Given.shutdown ∈ (st.half d).given) : st.Done leftover d := by
  have hrelay : ∀ {r : Relay.State}, st.relay = some r → r.WF True →
      st.toDest = leftover ++ st.fromClient → st.toClient = response → st.Done leftover d := by
    intro r hr hwf hdest hclient
    rw [State.half_some hr] at hs
    have hwritten := (hwf.halves d).written_of_shutdown hs
    cases d with
    | upload =>
        rw [State.Done, State.forwarded, State.sent, State.half_some hr, hwritten, hdest,
          List.append_assoc]
    | download =>
        rw [State.Done, State.answered, State.fetched, State.half_some hr, hwritten, hclient]
  have hheld : ∀ {held owed : Bytes}, Holds leftover st held owed → st.Done leftover d := by
    intro held owed h
    rw [State.half_none h.relay] at hs
    cases hs
  cases hc with
  | holding _ _ h => exact hheld h
  | relaying r _ hr hwf _ hdest hclient => exact hrelay hr hwf hdest hclient
  | ended r _ hr hwf _ hdest hclient => exact hrelay hr hwf hdest hclient
  | refused answer held owed _ _ h => exact hheld h

/-- A calm tunnel returns only when both sides have ended, each shut down behind everything that
it was to be given. -/
theorem Carries.returned {answer : Option (Nat × String)} (hc : Carries True leftover st)
    (hp : st.phase = .returned answer) (d : Relay.Direction) :
    (st.half d).eof = true ∧ Relay.Given.shutdown ∈ (st.half d).given ∧ st.Done leftover d := by
  suffices h : (st.half d).eof = true ∧ Relay.Given.shutdown ∈ (st.half d).given from
    ⟨h.1, h.2, hc.done h.2⟩
  cases hc with
  | holding hopen =>
      rw [hp] at hopen
      cases hopen
  | relaying r hp' => cases hp.symm.trans hp'
  | refused _ _ _ hnot => exact absurd trivial hnot
  | ended r _ hr hwf hret =>
      rw [State.half_some hr]
      have ha := hwf.returned (hret trivial) d
      cases hwf.halves d with
      | reading ha' => cases ha.symm.trans ha'
      | writing rest n ha' => cases ha.symm.trans ha'
      | closing ha' => cases ha.symm.trans ha'
      | failed hnot => exact absurd trivial hnot
      | closed given _ heof _ hgiven _ =>
          rw [hgiven]
          exact ⟨heof trivial, List.mem_append_right _ (List.mem_singleton_self _)⟩

/-! ## Tunnels that end -/

namespace State

/-- The tunnel can be brought to its end with nothing more read. -/
def CanEnd (st : State) : Prop :=
  ∃ events st', Run CalmSteps st events st' ∧ st'.phase = .returned none ∧
    st'.sent = st.sent ∧ st'.fetched = st.fetched

/-- A step that reads nothing comes first. -/
theorem CanEnd.after {e : Event} (hs : st.CalmSteps e st') (hclient : st'.fromClient = st.fromClient)
    (hhalf : ∀ d, (st'.half d).read = (st.half d).read) (h : st'.CanEnd) : st.CanEnd := by
  obtain ⟨events, st'', hrun, hphase, hsent, hfetched⟩ := h
  refine ⟨_, st'', hrun.cons hs, hphase, hsent.trans ?_, hfetched.trans (hhalf .download)⟩
  rw [sent, sent, hclient, hhalf]

/-! ### The relay -/

theorem relay_run {r r' : Relay.State} {events : List Relay.Event} (hp : st.phase = .relaying)
    (hr : st.relay = some r) (hrun : Run Relay.State.CalmSteps r events r')
    (hret : r'.phase ≠ .returned) :
    Run CalmSteps st (events.map .relay) { st with relay := some r' } := by
  induction hrun with
  | nil =>
      rw [← hr]
      exact .nil
  | @snoc events t u e _ hs ih =>
      obtain ⟨hstep, hfine, hidle⟩ := hs
      have hstep' : State.step { st with relay := some t } (.relay e) =
          some { st with relay := some u } := by
        have hu : t.step e = some u := hstep
        simp only [State.step, hp, hu, Option.map_some, if_neg hret]
      rw [List.map_append]
      refine .snoc (ih fun ht => hret (Relay.State.returned_step hstep ht)) ⟨hstep', hfine, ?_⟩
      intro he r₁ hr₁
      cases hr₁
      exact hidle he

theorem canEnd_relaying {r : Relay.State} (hp : st.phase = .relaying) (hr : st.relay = some r)
    (hwf : r.WF True) (hret : r.phase ≠ .returned) : st.CanEnd := by
  obtain ⟨events, r', hrun, hret', hends⟩ := hwf.canEnd hret
  have hjoined : State.step { st with relay := some r' } (.relay .joined) = some { st with
      phase := .returned none, relay := some { r' with phase := .returned } } := by
    simp only [State.step, hp, Relay.State.step]
    rw [if_pos ⟨hret', (hends .upload).1, (hends .download).1⟩]
    rfl
  have hcalm : { st with relay := some r' }.Calm (.relay .joined) := by
    intro h
    cases h
  refine ⟨_, _, .snoc (relay_run hp hr hrun hret') ⟨hjoined, trivial, hcalm⟩, rfl, ?_, ?_⟩
  · rw [sent, sent, half_some hr, half_some rfl, ← (hends .upload).2]
  · rw [fetched, fetched, half_some hr, half_some rfl, ← (hends .download).2]

/-! ### Before the relay -/

theorem canEnd_coalesced (hp : st.phase = .coalesced) (hr : st.relay = none) : st.CanEnd := by
  have hs : st.step (.relayed 0) =
      some { st with phase := .relaying, relay := some (.start 0) } := by
    simp only [State.step, hp]
  refine .after ⟨hs, trivial, trivial⟩ rfl (fun d => ?_)
    (canEnd_relaying rfl rfl (.start True 0) nofun)
  rw [half_some rfl, half_none hr]
  rfl

theorem canEnd_settling (hp : st.phase = .settling) (hr : st.relay = none) : st.CanEnd := by
  have hs : st.step (.destFlushed (.ok ())) = some { st with phase := .coalesced } := by
    simp only [State.step, hp]
  exact .after ⟨hs, rfl, trivial⟩ rfl (fun _ => rfl) (canEnd_coalesced rfl hr)

theorem sending_step {rest : Bytes} {pieces : List Bytes} (hp : st.phase = .sending rest pieces)
    (hne : rest ≠ []) : ∃ k, st.CalmSteps (.destWritten (.ok (k + 1)))
      { st with phase := send pieces, toDest := st.toDest ++ rest } := by
  obtain ⟨k, hk⟩ := Nat.exists_eq_add_one_of_ne_zero (List.length_eq_zero_iff.not.mpr hne)
  have hs : st.step (.destWritten (.ok (k + 1))) = some { st with
      phase := send pieces, toDest := st.toDest ++ rest } := by
    simp only [State.step, State.destWritten, hp, writeAll]
    rw [if_neg (by omega), ← hk, List.take_length, List.drop_length]
    rfl
  exact ⟨k, hs, ⟨k, rfl⟩, trivial⟩

/-- Each write takes all that is left of its piece; the induction is on how many there are. -/
theorem canEnd_send (n : Nat) {pieces : List Bytes} (hn : pieces.length ≤ n) :
    ∀ {st : State}, st.phase = send pieces → st.relay = none → st.CanEnd := by
  induction n generalizing pieces with
  | zero =>
      intro st hp hr
      rw [List.length_eq_zero_iff.mp (Nat.le_zero.mp hn)] at hp
      exact canEnd_settling hp hr
  | succ n ih =>
      intro st hp hr
      unfold send at hp
      split at hp
      · exact canEnd_settling hp hr
      · next rest ps heq =>
          have hlen : (rest :: ps).length ≤ n + 1 := heq ▸ (List.length_filter_le _ _).trans hn
          have hne : rest ≠ [] := fun h => by
            have hmem : rest ∈ pieces.filter (!·.isEmpty) := heq ▸ List.mem_cons_self
            rw [h] at hmem
            exact absurd (List.mem_filter.mp hmem).2 Bool.false_ne_true
          obtain ⟨k, hs⟩ := sending_step hp hne
          exact .after hs rfl (fun _ => rfl) (ih (Nat.le_of_succ_le_succ hlen) rfl hr)

theorem canEnd_hello {ms : Bytes} (hp : st.phase = .hello ms) (hr : st.relay = none) :
    st.CanEnd := by
  have hs : st.step .timeout = some { st with phase := send [ms] } := by
    simp only [State.step, hp]
  exact .after ⟨hs, trivial, trivial⟩ rfl (fun _ => rfl) (canEnd_send _ (Nat.le_refl _) rfl hr)

theorem canEnd_flushing {early : Bytes} (hp : st.phase = .flushing early) (hr : st.relay = none) :
    st.CanEnd := by
  have hs : st.step (.clientFlushed (.ok ())) = some { st with phase := flushFirstRecord early } := by
    simp only [State.step, hp]
  refine .after ⟨hs, rfl, trivial⟩ rfl (fun _ => rfl) ?_
  unfold flushFirstRecord
  split
  · exact canEnd_send _ (Nat.le_refl _) rfl hr
  · split
    · exact canEnd_send _ (Nat.le_refl _) rfl hr
    · split
      · exact canEnd_send _ (Nat.le_refl _) rfl hr
      · exact canEnd_hello rfl hr

theorem canEnd_replying {early rest : Bytes} (hp : st.phase = .replying early rest)
    (hne : rest ≠ []) (hr : st.relay = none) : st.CanEnd := by
  obtain ⟨k, hk⟩ := Nat.exists_eq_add_one_of_ne_zero (List.length_eq_zero_iff.not.mpr hne)
  have hs : st.step (.clientWritten (.ok (k + 1))) = some { st with
      phase := .flushing early, toClient := st.toClient ++ rest } := by
    simp only [State.step, State.clientWritten, hp, writeAll]
    rw [if_neg (by omega), ← hk, List.take_length, List.drop_length]
    rfl
  exact .after ⟨hs, ⟨k, rfl⟩, trivial⟩ rfl (fun _ => rfl) (canEnd_flushing rfl hr)

theorem canEnd_dialing {early : Bytes} (hp : st.phase = .dialing early) (hr : st.relay = none) :
    st.CanEnd := by
  have hs : st.step (.dialed (.ok ())) = some { st with phase := .replying early response } := by
    simp only [State.step, hp]
  have hne : response ≠ [] := fun h => by cases h
  exact .after ⟨hs, trivial, rfl⟩ rfl (fun _ => rfl) (canEnd_replying rfl hne hr)

end State

/-- Wherever a calm tunnel is, all that it has read can still be given on. -/
theorem Carries.canEnd (hc : Carries True leftover st) (hp : ∀ answer, st.phase ≠ .returned answer) :
    st.CanEnd := by
  cases hc with
  | relaying r hp' hr hwf hret => exact State.canEnd_relaying hp' hr hwf hret
  | ended r hp' => exact absurd hp' (hp none)
  | refused answer _ _ hnot => exact absurd trivial hnot
  | holding hopen hbusy h =>
      cases hphase : st.phase with
      | dialing early => exact State.canEnd_dialing hphase h.relay
      | replying early rest =>
          rw [hphase] at hbusy
          exact State.canEnd_replying hphase hbusy h.relay
      | flushing early => exact State.canEnd_flushing hphase h.relay
      | hello ms => exact State.canEnd_hello hphase h.relay
      | sending rest pieces =>
          rw [hphase] at hbusy
          obtain ⟨k, hs⟩ := State.sending_step hphase hbusy
          exact .after hs rfl (fun _ => rfl) (State.canEnd_send _ (Nat.le_refl _) rfl h.relay)
      | settling => exact State.canEnd_settling hphase h.relay
      | coalesced => exact State.canEnd_coalesced hphase h.relay
      | relaying =>
          rw [hphase] at hopen
          cases hopen
      | returned answer => exact absurd hphase (hp answer)

/-! ## The tunnel -/

/-- The bytes behind the header of the request are those that came with it and those that are read
later.  In a run without errors the destination is only ever given them, in order, and the client
the response and what the destination sent.  If at most `maxEarly` of them come before the dial
succeeds, the client does not close before that and nothing aborts the tunnel, it returns only when
both sides have ended and were given everything, and wherever it is before that, all that it has
read can still be given on. -/
theorem relays_in_order {leftover : Bytes} (hfit : leftover.length ≤ maxEarly) :
    (∀ reads req, readHttpRequest reads [] = .ok (req, []) → req.leftover = leftover →
      ∀ later, ∃ header, Http.splitHead (reads.flatten ++ later) = some (header, leftover ++ later)) ∧
    (∀ events st, Run State.FineSteps (.start leftover) events st →
      st.forwarded <+: leftover ++ st.sent ∧ st.answered <+: response ++ st.fetched) ∧
    ∀ events st, Run State.CalmSteps (.start leftover) events st →
      (∀ d, Relay.Given.shutdown ∈ (st.half d).given → st.Done leftover d) ∧
      (∀ answer, st.phase = .returned answer → ∀ d, (st.half d).eof = true ∧
        Relay.Given.shutdown ∈ (st.half d).given ∧ st.Done leftover d) ∧
      ((∀ answer, st.phase ≠ .returned answer) → st.CanEnd) := by
  refine ⟨fun reads req hreq hleft later => ?_, fun events st hrun => ?_, fun events st hrun => ?_⟩
  · obtain ⟨header, hsplit, _⟩ := readHttpRequest_ok hreq
    rw [List.flatten_nil, List.append_nil, List.nil_append, hleft] at hsplit
    exact ⟨header, Http.splitHead_append later hsplit⟩
  · have hc : Carries False leftover st := hrun.invariant
      (fun hc hs => hc.step hs.1 hs.2 False.elim) (.start False.elim)
    exact hc.parts
  · have hc : Carries True leftover st := hrun.invariant
      (fun hc hs => hc.step hs.1 hs.2.1 fun _ => hs.2.2) (.start fun _ => hfit)
    exact ⟨fun _ => hc.done, fun _ => hc.returned, hc.canEnd⟩

set_option maxRecDepth 20000 in
/-- The first record comes in three parts: with the header, while the dial is under way, and after
it with the beginning of the next one. -/
theorem relays_in_order_record : ∃ st,
    Run State.CalmSteps (.start [0x16, 3, 1])
      [.clientRead (.ok [0, 2, 7]), .dialed (.ok ()), .clientWritten (.ok 39), .clientFlushed (.ok ()),
        .clientRead (.ok [8, 0x16]), .destWritten (.ok 7), .destWritten (.ok 1), .destFlushed (.ok ()),
        .relayed 0, .relay (.half .download (.read (.ok [5]))),
        .relay (.half .download (.write (.ok 1))), .relay (.half .upload (.read (.ok []))),
        .relay (.half .upload (.shutdown (.ok ()))), .relay (.half .download (.read (.ok []))),
        .relay (.half .download (.shutdown (.ok ()))), .relay .joined] st ∧
      st.phase = .returned none ∧
      ∀ d, (st.half d).eof = true ∧ Relay.Given.shutdown ∈ (st.half d).given ∧
        st.Done [0x16, 3, 1] d := by
  have hrun : Run State.CalmSteps (.start [0x16, 3, 1])
      [.clientRead (.ok [0, 2, 7]), .dialed (.ok ()), .clientWritten (.ok 39), .clientFlushed (.ok ()),
        .clientRead (.ok [8, 0x16]), .destWritten (.ok 7), .destWritten (.ok 1), .destFlushed (.ok ()),
        .relayed 0, .relay (.half .download (.read (.ok [5]))),
        .relay (.half .download (.write (.ok 1))), .relay (.half .upload (.read (.ok []))),
        .relay (.half .upload (.shutdown (.ok ()))), .relay (.half .download (.read (.ok []))),
        .relay (.half .download (.shutdown (.ok ()))), .relay .joined] _ :=
    .cons ⟨rfl, ⟨_, rfl⟩, fun early he bs hbs => by cases he; cases hbs; decide⟩ <|
    .cons ⟨rfl, trivial, rfl⟩ <| .cons ⟨rfl, ⟨38, rfl⟩, trivial⟩ <| .cons ⟨rfl, rfl, trivial⟩ <|
    .cons ⟨rfl, ⟨_, rfl⟩, nofun⟩ <| .cons ⟨rfl, ⟨6, rfl⟩, trivial⟩ <|
    .cons ⟨rfl, ⟨0, rfl⟩, trivial⟩ <| .cons ⟨rfl, rfl, trivial⟩ <| .cons ⟨rfl, trivial, trivial⟩ <|
    .cons ⟨rfl, ⟨_, rfl⟩, nofun⟩ <| .cons ⟨rfl, ⟨0, rfl⟩, nofun⟩ <| .cons ⟨rfl, ⟨_, rfl⟩, nofun⟩ <|
    .cons ⟨rfl, rfl, nofun⟩ <| .cons ⟨rfl, ⟨_, rfl⟩, nofun⟩ <| .cons ⟨rfl, rfl, nofun⟩ <|
    .cons ⟨rfl, trivial, nofun⟩ .nil
  exact ⟨_, hrun, rfl, ((relays_in_order (by decide)).2.2 _ _ hrun).2.1 _ rfl⟩

end Inbound.Tunnel

end RustClash
