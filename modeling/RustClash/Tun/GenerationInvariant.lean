import Mathlib.Tactic.NormNum
import RustClash.Tun.Generation

/-!
# Bumps cut off the relays before them

`Inv` says which tokens can be live: the current one, the child of a bump that has not
swapped it in, and the old one of a bump that has not cancelled it.  `Covering` follows a
bump and what it still owes to a connection counted before it; `Stale` is what holds once
it has returned, and nothing undoes it.
-/

namespace RustClash

namespace Generation

variable {ν : Type} {st st' : State ν} {e : Event ν} {i : Nat}

/-! ## The steps one by one -/

inductive Moves (st : State ν) : Event ν → State ν → Prop where
  | accept : st.accept = .waiting → Moves st .accept { st with accept := .accepted }
  | count : st.accept = .accepted →
      Moves st .count { st with accept := .counted st.generation }
  | spawn {gen : Nat} : st.accept = .counted gen → Moves st .spawn { st with
      accept := .waiting, handlers := st.handlers ++ [.start gen st.relay] }
  | leave : st.accept = .waiting → Moves st .leave { st with accept := .left }
  | handler {i : Nat} {a : HandlerEvent ν} {h h' : Handler ν} : st.handlers[i]? = some h →
      st.handle h a = some h' →
      Moves st (.handler i a) { st with handlers := st.handlers.set i h' }
  | bump : st.bump = none → Moves st .bump { st with bump := some .called }
  | add : st.bump = some .called → Moves st .bumping { st with
      generation := st.generation + 1, bump := some .added }
  | make : st.bump = some .added → Moves st .bumping { st with
      tokens := st.tokens ++ [st.stopped], bump := some (.made st.tokens.length) }
  | swap {child : Nat} : st.bump = some (.made child) → Moves st .bumping { st with
      relay := child, bump := some (.swapped st.relay) }
  | cancel {old : Nat} : st.bump = some (.swapped old) → Moves st .bumping { st with
      tokens := st.tokens.set old true, bump := none }
  | stop : Moves st .stop { st with stopped := true, tokens := st.tokens.map fun _ => true }
  | stopRelay : st.stopped = true →
      Moves st .stopRelay { st with tokens := st.tokens.set st.relay true }

theorem step_moves (hs : step st e = some st') : Moves st e st' := by
  cases e with
  | accept =>
      obtain ⟨h, ⟨⟩⟩ := Option.ite_none_right_eq_some.mp hs
      exact .accept h
  | count =>
      obtain ⟨h, ⟨⟩⟩ := Option.ite_none_right_eq_some.mp hs
      exact .count h
  | spawn =>
      simp only [step] at hs
      split at hs
      · next gen h =>
          cases hs
          exact .spawn h
      · cases hs
  | leave =>
      obtain ⟨h, ⟨⟩⟩ := Option.ite_none_right_eq_some.mp hs
      exact .leave h.1
  | handler i a =>
      obtain ⟨h, hi, hs⟩ := Option.bind_eq_some_iff.mp hs
      obtain ⟨h', ha, hs⟩ := Option.bind_eq_some_iff.mp hs
      cases hs
      exact .handler hi ha
  | bump =>
      obtain ⟨h, ⟨⟩⟩ := Option.ite_none_right_eq_some.mp hs
      exact .bump h
  | bumping =>
      obtain ⟨b, hb, rfl⟩ := Option.map_eq_some_iff.mp hs
      cases b with
      | called => exact .add hb
      | added => exact .make hb
      | made child => exact .swap hb
      | swapped old => exact .cancel hb
  | stop =>
      cases hs
      exact .stop
  | stopRelay =>
      obtain ⟨h, ⟨⟩⟩ := Option.ite_none_right_eq_some.mp hs
      exact .stopRelay h

/-- What a handler makes of its token. -/
theorem handle_token {h h' : Handler ν} {a : HandlerEvent ν} (hs : st.handle h a = some h') :
    ∀ token, h'.token = some token → h.token = some token := by
  intro token ht
  cases h <;> cases a <;> simp only [State.handle] at hs <;> (try split at hs) <;>
    cases hs <;> first | exact ht | cases ht

/-- A handler never goes back to its start. -/
theorem handle_start {h : Handler ν} {a : HandlerEvent ν} {gen token : Nat} :
    st.handle h a ≠ some (.start gen token) := by
  intro hs
  cases h <;> cases a <;> simp only [State.handle] at hs <;> (try split at hs) <;> cases hs

/-! ## Tokens -/

theorem live_set {token old : Nat} (h : (st.tokens.set old true)[token]? = some false) :
    st.Live token ∧ token ≠ old := by
  rw [List.getElem?_set] at h
  split at h
  · split at h <;> cases h
  · next hne => exact ⟨h, Ne.symm hne⟩

theorem not_live_map {token : Nat} : (st.tokens.map fun _ => true)[token]? ≠ some false := by
  rw [List.getElem?_map]
  cases st.tokens[token]? <;> simp

theorem live_append {b : Bool} {token : Nat} (h : (st.tokens ++ [b])[token]? = some false) :
    st.Live token ∨ token = st.tokens.length := by
  rcases Nat.lt_or_ge token st.tokens.length with hlt | hge
  · rw [List.getElem?_append_left hlt] at h
    exact .inl h
  · refine .inr (Nat.le_antisymm ?_ hge)
    obtain ⟨hlt, -⟩ := List.getElem?_eq_some_iff.mp h
    rw [List.length_append] at hlt
    exact Nat.lt_succ_iff.mp hlt

theorem Live.lt {token : Nat} (h : st.Live token) : token < st.tokens.length :=
  (List.getElem?_eq_some_iff.mp h).1

/-- A token that a step finds cancelled stays so. -/
theorem Moves.live (hs : Moves st e st') {token : Nat} (hlt : token < st.tokens.length)
    (h : st'.Live token) : st.Live token := by
  cases hs with
  | make => exact (live_append h).resolve_right (Nat.ne_of_lt hlt)
  | cancel => exact (live_set h).1
  | stop => exact absurd h not_live_map
  | stopRelay => exact (live_set h).1
  | _ => exact h

theorem Moves.generation_le (hs : Moves st e st') : st.generation ≤ st'.generation := by
  cases hs with
  | add => exact Nat.le_succ _
  | _ => exact Nat.le_refl _

theorem Moves.tokens_le (hs : Moves st e st') : st.tokens.length ≤ st'.tokens.length := by
  cases hs <;> simp

/-! ## Handlers -/

/-- Where the handler of a connection comes from. -/
theorem Moves.handler_of (hs : Moves st e st') {h' : Handler ν} (hi : st'.handlers[i]? = some h') :
    st.handlers[i]? = some h' ∨
      (i = st.handlers.length ∧ ∃ gen, st.accept = .counted gen ∧ h' = .start gen st.relay) ∨
      ∃ h a, e = .handler i a ∧ st.handlers[i]? = some h ∧ st.handle h a = some h' := by
  cases hs with
  | @spawn gen hacc =>
      rcases Nat.lt_or_ge i st.handlers.length with hlt | hge
      · rw [List.getElem?_append_left hlt] at hi
        exact .inl hi
      · obtain ⟨hlt, -⟩ := List.getElem?_eq_some_iff.mp hi
        rw [List.length_append] at hlt
        obtain rfl : i = st.handlers.length := Nat.le_antisymm (Nat.lt_succ_iff.mp hlt) hge
        rw [List.getElem?_concat_length] at hi
        exact .inr (.inl ⟨rfl, gen, hacc, (Option.some.inj hi).symm⟩)
  | @handler j a h h₁ hj ha =>
      rw [List.getElem?_set] at hi
      split at hi
      · next hij =>
          subst hij
          split at hi
          · cases hi
            exact .inr (.inr ⟨h, a, rfl, hj, ha⟩)
          · cases hi
      · exact .inl hi
  | _ => exact .inl hi

theorem Moves.counted (hs : Moves st e st') (hc : st.Counted i) : st'.Counted i := by
  unfold State.Counted at hc ⊢
  cases hs with
  | accept h =>
      rcases hc with hc | ⟨-, gen, hg⟩
      · exact .inl hc
      · rw [h] at hg
        cases hg
  | count h =>
      rcases hc with hc | ⟨-, gen, hg⟩
      · exact .inl hc
      · rw [h] at hg
        cases hg
  | leave h =>
      rcases hc with hc | ⟨-, gen, hg⟩
      · exact .inl hc
      · rw [h] at hg
        cases hg
  | spawn =>
      left
      rw [List.length_append]
      rcases hc with hc | ⟨rfl, -⟩
      · exact Nat.lt_succ_of_lt hc
      · exact Nat.lt_succ_self _
  | handler => rwa [List.length_set]
  | _ => exact hc

/-! ## Which tokens are live -/

structure Inv (st : State ν) : Prop where
  relay : st.relay < st.tokens.length
  counted : ∀ gen, st.accept = .counted gen → gen ≤ st.generation
  started : ∀ (i gen token : Nat), st.handlers[i]? = some (.start gen token) →
    gen ≤ st.generation
  held : ∀ (i : Nat) (h : Handler ν) token, st.handlers[i]? = some h → h.token = some token →
    token < st.tokens.length
  live : ∀ token, st.Live token →
    token = st.relay ∨ st.bump = some (.made token) ∨ st.bump = some (.swapped token)
  made : ∀ child, st.bump = some (.made child) → child < st.tokens.length ∧
    child ≠ st.relay ∧ ∀ (i : Nat) (h : Handler ν), st.handlers[i]? = some h → h.token ≠ some child

theorem inv_init : Inv (init : State ν) := by
  refine ⟨Nat.one_pos, by simp [init], by simp [init], by simp [init], ?_, by simp [init]⟩
  intro token h
  exact .inl (Nat.lt_one_iff.mp (Live.lt h))

/-- Between two bumps, and while the counter advances, only the current token is live. -/
theorem Inv.live_eq (hinv : Inv st) {token : Nat} (h : st.Live token)
    (hmade : ∀ child, st.bump ≠ some (.made child))
    (hswapped : ∀ old, st.bump ≠ some (.swapped old)) : token = st.relay := by
  rcases hinv.live token h with h | h | h
  · exact h
  · exact absurd h (hmade token)
  · exact absurd h (hswapped token)

theorem Inv.step (hinv : Inv st) (hs : Moves st e st') : Inv st' := by
  have hstarted : ∀ (i gen token : Nat), st'.handlers[i]? = some (.start gen token) →
      gen ≤ st'.generation := by
    intro i gen token hi
    refine Nat.le_trans ?_ hs.generation_le
    rcases hs.handler_of hi with hi | ⟨-, gen', hacc, heq⟩ | ⟨h, a, -, -, ha⟩
    · exact hinv.started i gen token hi
    · cases heq
      exact hinv.counted gen hacc
    · exact absurd ha handle_start
  have hheld : ∀ (i : Nat) (h : Handler ν) token, st'.handlers[i]? = some h → h.token = some token →
      token < st.tokens.length := by
    intro i h' token hi ht
    rcases hs.handler_of hi with hi | ⟨-, gen, -, rfl⟩ | ⟨h, a, -, hi, ha⟩
    · exact hinv.held i h' token hi ht
    · cases ht
      exact hinv.relay
    · exact hinv.held i h token hi (handle_token ha token ht)
  have hheld' := fun (i : Nat) (h : Handler ν) token hi ht => Nat.lt_of_lt_of_le (hheld i h token hi ht) hs.tokens_le
  have hmade : ∀ child, st.bump = some (.made child) → ∀ (i : Nat) (h : Handler ν),
      st'.handlers[i]? = some h → h.token ≠ some child := by
    intro child hb i h' hi ht
    rcases hs.handler_of hi with hi | ⟨-, gen, -, rfl⟩ | ⟨h, a, -, hi, ha⟩
    · exact (hinv.made child hb).2.2 i h' hi ht
    · cases ht
      exact (hinv.made _ hb).2.1 rfl
    · exact (hinv.made child hb).2.2 i h hi (handle_token ha child ht)
  cases hs with
  | accept => exact ⟨hinv.relay, by simp, hstarted, hheld', hinv.live, hinv.made⟩
  | count =>
      refine ⟨hinv.relay, ?_, hstarted, hheld', hinv.live, hinv.made⟩
      intro gen hg
      cases hg
      exact Nat.le_refl _
  | leave => exact ⟨hinv.relay, by simp, hstarted, hheld', hinv.live, hinv.made⟩
  | spawn hacc =>
      refine ⟨hinv.relay, by simp, hstarted, hheld', hinv.live, ?_⟩
      exact fun child hb => ⟨(hinv.made child hb).1, (hinv.made child hb).2.1, hmade child hb⟩
  | handler =>
      refine ⟨hinv.relay, hinv.counted, hstarted, hheld', hinv.live, ?_⟩
      exact fun child hb => ⟨(hinv.made child hb).1, (hinv.made child hb).2.1, hmade child hb⟩
  | bump hb =>
      refine ⟨hinv.relay, hinv.counted, hstarted, hheld', ?_, by simp⟩
      exact fun token h => .inl (hinv.live_eq h (by simp [hb]) (by simp [hb]))
  | add hb =>
      refine ⟨hinv.relay, fun gen hg => Nat.le_succ_of_le (hinv.counted gen hg), hstarted, hheld',
        ?_, by simp⟩
      exact fun token h => .inl (hinv.live_eq h (by simp [hb]) (by simp [hb]))
  | make hb =>
      refine ⟨Nat.lt_of_lt_of_le hinv.relay (by simp), hinv.counted, hstarted, hheld', ?_, ?_⟩
      · intro token h
        rcases live_append h with h | rfl
        · exact .inl (hinv.live_eq h (by simp [hb]) (by simp [hb]))
        · exact .inr (.inl rfl)
      · intro child hc
        cases hc
        refine ⟨by simp, Nat.ne_of_gt hinv.relay, fun i h hi ht => ?_⟩
        exact Nat.lt_irrefl _ (hheld i h _ hi ht)
  | @swap child hb =>
      refine ⟨(hinv.made child hb).1, hinv.counted, hstarted, hheld', ?_, by simp⟩
      intro token h
      have hlive := hinv.live token h
      rw [hb] at hlive
      rcases hlive with rfl | hc | hc
      · exact .inr (.inr rfl)
      · cases hc
        exact .inl rfl
      · cases hc
  | @cancel old hb =>
      refine ⟨by simpa using hinv.relay, hinv.counted, hstarted, hheld', ?_, by simp⟩
      intro token h
      obtain ⟨h, hne⟩ := live_set h
      have hlive := hinv.live token h
      rw [hb] at hlive
      rcases hlive with hlive | hc | hc
      · exact .inl hlive
      · cases hc
      · cases hc
        exact absurd rfl hne
  | stop =>
      refine ⟨by simpa using hinv.relay, hinv.counted, hstarted, hheld', ?_, ?_⟩
      · exact fun token h => absurd h not_live_map
      · intro child hc
        obtain ⟨hlt, hne, hh⟩ := hinv.made child hc
        exact ⟨by simpa using hlt, hne, hh⟩
  | stopRelay =>
      refine ⟨by simpa using hinv.relay, hinv.counted, hstarted, hheld', ?_, ?_⟩
      · exact fun token h => hinv.live token (live_set h).1
      · intro child hc
        obtain ⟨hlt, hne, hh⟩ := hinv.made child hc
        exact ⟨by simpa using hlt, hne, hh⟩

/-! ## What a bump owes to a connection -/

/-- The token that a handler goes on with, its comparison made. -/
def Handler.passed : Handler ν → Option Nat
  | .compared token => some token
  | .admitted token => some token
  | .dialing token _ => some token
  | .relaying token _ => some token
  | _ => none

theorem token_of_passed {h : Handler ν} {token : Nat} (hp : h.passed = some token) :
    h.token = some token := by
  cases h <;> first | exact hp | cases hp

/-- Only a comparison with the same count lets a handler go on. -/
theorem handle_passed {h h' : Handler ν} {a : HandlerEvent ν} (hs : st.handle h a = some h')
    {token : Nat} (hp : h'.passed = some token) : h.passed = some token ∨
      ∃ gen, h = .start gen token ∧ a = .compare ∧ SameCount gen st.generation := by
  cases h with
  | start gen token' =>
      cases a with
      | compare =>
          simp only [State.handle] at hs
          split at hs
          · next hsame =>
              cases hs
              cases hp
              exact .inr ⟨gen, rfl, rfl, hsame⟩
          · cases hs
            cases hp
      | finish =>
          cases hs
          cases hp
      | _ => cases hs
  | _ =>
      refine .inl ?_
      cases a <;> simp only [State.handle] at hs <;> (try split at hs) <;> cases hs <;>
        first | exact hp | cases hp

/-- As long as the connection is not compared, its count is behind the counter. -/
structure Behind (st : State ν) (i : Nat) : Prop where
  handler : ∀ gen token, st.handlers[i]? = some (.start gen token) → gen < st.generation
  accept : i = st.handlers.length → ∀ gen, st.accept = .counted gen → gen < st.generation

/-- The connection will never be relayed under a live token. -/
structure Stale (st : State ν) (i : Nat) : Prop extends Behind st i where
  passed : ∀ (h : Handler ν) token, st.handlers[i]? = some h → h.passed = some token →
    ¬ st.Live token

/-- A bump is on its way to make the connection stale. -/
inductive Covering (st : State ν) (i : Nat) : Prop where
  | called : st.bump = some .called → Covering st i
  | added : Behind st i → st.bump = some .added → Covering st i
  | made {child : Nat} : Behind st i → st.bump = some (.made child) → Covering st i
  | swapped {old : Nat} : Behind st i → st.bump = some (.swapped old) →
      (∀ (h : Handler ν) token, st.handlers[i]? = some h → h.passed = some token →
        st.Live token → token = old) → Covering st i

theorem Behind.step (hb : Behind st i) (hc : st.Counted i) (hs : Moves st e st') :
    Behind st' i := by
  constructor
  · intro gen token hi
    refine Nat.lt_of_lt_of_le ?_ hs.generation_le
    rcases hs.handler_of hi with hi | ⟨rfl, gen', hacc, heq⟩ | ⟨h, a, -, -, ha⟩
    · exact hb.handler gen token hi
    · cases heq
      exact hb.accept rfl gen hacc
    · exact absurd ha handle_start
  · intro hlen gen hg
    cases hs with
    | count hacc =>
        -- the counter is read for a connection that comes after this one
        rcases hc with hc | ⟨-, gen', hacc'⟩
        · exact absurd hlen (Nat.ne_of_lt hc)
        · rw [hacc] at hacc'
          cases hacc'
    | handler => exact hb.accept (by simpa using hlen) gen hg
    | add => exact Nat.lt_succ_of_lt (hb.accept hlen gen hg)
    | accept => cases hg
    | spawn => cases hg
    | leave => cases hg
    | _ => exact hb.accept hlen gen hg

/-- A connection that is behind is not let through in time. -/
theorem Behind.passed_of (hb : Behind st i) (hs : Moves st e st') (ht : Timely st e)
    {h' : Handler ν} (hi : st'.handlers[i]? = some h') {token : Nat}
    (hp : h'.passed = some token) :
    ∃ h, st.handlers[i]? = some h ∧ h.passed = some token := by
  rcases hs.handler_of hi with hi | ⟨rfl, gen, -, rfl⟩ | ⟨h, a, rfl, hi, ha⟩
  · exact ⟨h', hi, hp⟩
  · cases hp
  · rcases handle_passed ha hp with hp | ⟨gen, rfl, rfl, hsame⟩
    · exact ⟨h, hi, hp⟩
    · have hlt := hb.handler gen token hi
      have hrange := ht gen token hi
      unfold SameCount at hsame
      omega

theorem Inv.behind (hinv : Inv st) : Behind { st with
    generation := st.generation + 1, bump := some .added } i :=
  ⟨fun gen token hi => Nat.lt_succ_of_le (hinv.started i gen token hi),
    fun _ gen hg => Nat.lt_succ_of_le (hinv.counted gen hg)⟩

theorem Stale.step (hinv : Inv st) (hc : st.Counted i) (h : Stale st i) (hs : Moves st e st')
    (ht : Timely st e) : Stale st' i := by
  refine ⟨h.toBehind.step hc hs, fun h' token hi hp hlive => ?_⟩
  obtain ⟨h₀, hi₀, hp₀⟩ := h.toBehind.passed_of hs ht hi hp
  have hlt := hinv.held i h₀ token hi₀ (token_of_passed hp₀)
  exact h.passed h₀ token hi₀ hp₀ (hs.live hlt hlive)

/-- A bump is changed by its own steps alone. -/
theorem Moves.bump_eq (hs : Moves st e st') (he : e ≠ .bumping) (hb : st.bump ≠ none) :
    st'.bump = st.bump := by
  cases hs with
  | bump h => exact absurd h hb
  | add => exact absurd rfl he
  | make => exact absurd rfl he
  | swap => exact absurd rfl he
  | cancel => exact absurd rfl he
  | _ => rfl

theorem Covering.step (hinv : Inv st) (hc : st.Counted i) (h : Covering st i)
    (hs : Moves st e st') (ht : Timely st e) : Covering st' i ∨ Stale st' i := by
  by_cases he : e = .bumping
  · subst he
    cases hs with
    | add hb => exact .inl (.added hinv.behind rfl)
    | make hb =>
        cases h with
        | added hbehind _ => exact .inl (.made (hbehind.step hc (.make hb)) rfl)
        | called h => simp [hb] at h
        | made _ h => simp [hb] at h
        | swapped _ h _ => simp [hb] at h
    | @swap child hb =>
        cases h with
        | made hbehind _ =>
            refine .inl (.swapped (hbehind.step hc (.swap hb)) rfl fun h token hi hp hlive => ?_)
            -- no connection has the new token yet
            rcases hinv.live token hlive with htok | htok | htok
            · exact htok
            · exact absurd (token_of_passed hp) ((hinv.made token htok).2.2 i h hi)
            · simp [hb] at htok
        | called h => simp [hb] at h
        | added _ h => simp [hb] at h
        | swapped _ h _ => simp [hb] at h
    | @cancel old hb =>
        cases h with
        | @swapped old' hbehind hb' hold =>
            obtain rfl : old' = old := by simpa [hb] using hb'.symm
            refine .inr ⟨hbehind.step hc (.cancel hb), fun h token hi hp hlive => ?_⟩
            obtain ⟨hlive, hne⟩ := live_set hlive
            exact hne (hold h token hi hp hlive)
        | called h => simp [hb] at h
        | added _ h => simp [hb] at h
        | made _ h => simp [hb] at h
  · refine .inl ?_
    cases h with
    | called hb => exact .called (by rw [hs.bump_eq he (by simp [hb]), hb])
    | added hbehind hb =>
        exact .added (hbehind.step hc hs) (by rw [hs.bump_eq he (by simp [hb]), hb])
    | made hbehind hb =>
        exact .made (hbehind.step hc hs) (by rw [hs.bump_eq he (by simp [hb]), hb])
    | swapped hbehind hb hold =>
        refine .swapped (hbehind.step hc hs) (by rw [hs.bump_eq he (by simp [hb]), hb])
          fun h' token hi hp hlive => ?_
        obtain ⟨h₀, hi₀, hp₀⟩ := hbehind.passed_of hs ht hi hp
        have hlt := hinv.held i h₀ token hi₀ (token_of_passed hp₀)
        exact hold h₀ token hi₀ hp₀ (hs.live hlt hlive)

/-! ## Runs -/

/-- What a run keeps of a connection that a bump has caught. -/
theorem covered_run {s t : State ν} {es : List (Event ν)} (h : Run TimelySteps s es t) (hinv : Inv s)
    (hc : s.Counted i) (hcov : Covering s i ∨ Stale s i) :
    Inv t ∧ t.Counted i ∧ (Covering t i ∨ Stale t i) := by
  refine h.invariant (I := fun t => Inv t ∧ t.Counted i ∧ (Covering t i ∨ Stale t i)) ?_
    ⟨hinv, hc, hcov⟩
  rintro t e u ⟨hinv, hc, hcov⟩ ⟨hs, ht⟩
  have hs := step_moves hs
  refine ⟨hinv.step hs, hs.counted hc, ?_⟩
  rcases hcov with hcov | hstale
  · exact hcov.step hinv hc hs ht
  · exact .inr (hstale.step hinv hc hs ht)

theorem Stale.run {s t : State ν} {es : List (Event ν)} (h : Run TimelySteps s es t) (hinv : Inv s)
    (hc : s.Counted i) (hstale : Stale s i) : Stale t i := by
  have hall := h.invariant (I := fun t => Inv t ∧ t.Counted i ∧ Stale t i)
    (fun ⟨hinv, hc, hstale⟩ hs => ⟨hinv.step (step_moves hs.1), (step_moves hs.1).counted hc,
      hstale.step hinv hc (step_moves hs.1) hs.2⟩) ⟨hinv, hc, hstale⟩
  exact hall.2.2

/-! ## Connections after the last bump -/

/-- Unless the stack was stopped, the current token is live, and so is the next one. -/
structure Current (st : State ν) : Prop where
  relay : st.stopped = false → st.Live st.relay
  made : ∀ child, st.bump = some (.made child) → st.stopped = false → st.Live child
  swapped : ∀ old, st.bump = some (.swapped old) → old ≠ st.relay

theorem current_init : Current (init : State ν) := ⟨fun _ => rfl, by simp [init], by simp [init]⟩

theorem Current.step (h : Current st) (hinv : Inv st) (hs : Moves st e st') : Current st' := by
  cases hs with
  | bump => exact ⟨h.relay, by simp, by simp⟩
  | add => exact ⟨h.relay, by simp, by simp⟩
  | make =>
      refine ⟨fun hr => ?_, fun child hc hr => ?_, by simp⟩
      · exact (List.getElem?_append_left hinv.relay).trans (h.relay hr)
      · cases hc
        exact List.getElem?_concat_length.trans (congrArg some hr)
  | @swap child hb =>
      refine ⟨h.made child hb, by simp, fun old ho => ?_⟩
      cases ho
      exact (hinv.made child hb).2.1.symm
  | @cancel old hb =>
      refine ⟨fun hr => ?_, by simp, by simp⟩
      exact (List.getElem?_set_ne (h.swapped old hb)).trans (h.relay hr)
  | stop => exact ⟨by simp, by simp, h.swapped⟩
  | stopRelay hstop => exact ⟨by simp [hstop], by simp [hstop], h.swapped⟩
  | _ => exact ⟨h.relay, h.made, h.swapped⟩

/-- The connection has the count and the token of now, if it has any. -/
structure Fresh (st : State ν) (i : Nat) : Prop where
  admitted : ∀ h, st.handlers[i]? = some h → h ≠ .rejected ∧ h ≠ .cancelled
  token : ∀ (h : Handler ν) token, st.handlers[i]? = some h → h.token = some token →
    token = st.relay
  count : ∀ gen token, st.handlers[i]? = some (.start gen token) → gen = st.generation
  accept : i = st.handlers.length → ∀ gen, st.accept = .counted gen → gen = st.generation

theorem fresh_of_not_counted (h : ¬ st.Counted i) : Fresh st i := by
  have hge : st.handlers.length ≤ i := Nat.not_lt.mp fun hlt => h (.inl hlt)
  have hnone : st.handlers[i]? = none := List.getElem?_eq_none hge
  refine ⟨by simp [hnone], by simp [hnone], by simp [hnone], fun hi gen hg => ?_⟩
  exact absurd (.inr ⟨hi, gen, hg⟩) h

/-- A handler with the count and the token of now is let through. -/
theorem handle_admitted {h h' : Handler ν} {a : HandlerEvent ν} (hs : st.handle h a = some h')
    (hlive : ∀ token, h.token = some token → st.Live token)
    (hcount : ∀ gen token, h = .start gen token → gen = st.generation) :
    h' ≠ .rejected ∧ h' ≠ .cancelled := by
  cases h with
  | start gen token =>
      obtain rfl := hcount gen token rfl
      cases a <;> simp only [State.handle, SameCount, if_pos] at hs <;> cases hs <;> simp
  | compared token =>
      cases a with
      | check =>
          simp only [State.handle, if_pos (hlive token rfl)] at hs
          cases hs
          simp
      | _ => cases hs
  | admitted token =>
      cases a <;> cases hs <;> simp
  | dialing token via =>
      cases a <;> simp only [State.handle, if_pos (hlive token rfl)] at hs <;> cases hs <;> simp
  | relaying token via =>
      cases a with
      | finish =>
          cases hs
          simp
      | cancelled =>
          simp only [State.handle, if_pos (hlive token rfl)] at hs
          cases hs
      | _ => cases hs
  | _ => cases a <;> cases hs

theorem Moves.stopped (hs : Moves st e st') (h : st'.stopped = false) : st.stopped = false := by
  cases hs with
  | stop => cases h
  | _ => exact h

/-- With no bump under way and none called, the counter and the token stay. -/
theorem Moves.kept (hs : Moves st e st') (hb : st.bump = none) (he : e ≠ .bump) :
    st'.bump = none ∧ st'.relay = st.relay ∧ st'.generation = st.generation := by
  cases hs with
  | bump => exact absurd rfl he
  | add h => simp [hb] at h
  | make h => simp [hb] at h
  | swap h => simp [hb] at h
  | cancel h => simp [hb] at h
  | _ => exact ⟨hb, rfl, rfl⟩

theorem Fresh.step (h : Fresh st i) (hcur : Current st) (hb : st.bump = none)
    (hs : Moves st e st') (he : e ≠ .bump) (hrun : st'.stopped = false) : Fresh st' i := by
  obtain ⟨-, hrelay, hgen⟩ := hs.kept hb he
  have hlive := hcur.relay (hs.stopped hrun)
  refine ⟨fun h' hi => ?_, fun h' token hi ht => ?_, fun gen token hi => ?_, fun hlen gen hg => ?_⟩
  · rcases hs.handler_of hi with hi | ⟨rfl, gen, -, rfl⟩ | ⟨h₀, a, rfl, hi, ha⟩
    · exact h.admitted h' hi
    · simp
    · refine handle_admitted ha (fun token ht => ?_) fun gen token heq => ?_
      · rw [h.token h₀ token hi ht]
        exact hlive
      · exact h.count gen token (heq ▸ hi)
  · rw [hrelay]
    rcases hs.handler_of hi with hi | ⟨rfl, gen, -, rfl⟩ | ⟨h₀, a, rfl, hi, ha⟩
    · exact h.token h' token hi ht
    · exact (Option.some.inj ht).symm
    · exact h.token h₀ token hi (handle_token ha token ht)
  · rw [hgen]
    rcases hs.handler_of hi with hi | ⟨rfl, gen', hacc, heq⟩ | ⟨h₀, a, rfl, hi, ha⟩
    · exact h.count gen token hi
    · cases heq
      exact h.accept rfl gen hacc
    · exact absurd ha handle_start
  · cases hs with
    | count =>
        cases hg
        rfl
    | handler => exact h.accept (by simpa using hlen) gen hg
    | bump => exact absurd rfl he
    | accept => cases hg
    | spawn => cases hg
    | leave => cases hg
    | add hb' => simp [hb] at hb'
    | make hb' => simp [hb] at hb'
    | swap hb' => simp [hb] at hb'
    | cancel hb' => simp [hb] at hb'
    | _ => exact h.accept hlen gen hg

theorem Current.run {t : State ν} {es : List (Event ν)} (h : Run TimelySteps init es t) :
    Inv t ∧ Current t :=
  h.invariant (I := fun t => Inv t ∧ Current t)
    (fun ⟨hinv, hcur⟩ hs => ⟨hinv.step (step_moves hs.1), hcur.step hinv (step_moves hs.1)⟩)
    ⟨inv_init, current_init⟩

/-- Without a bump, a connection that is not counted yet stays fresh until the stop. -/
theorem Fresh.run {s t : State ν} {es : List (Event ν)} (h : Run TimelySteps s es t) (hinv : Inv s)
    (hcur : Current s) (hb : s.bump = none) (hes : Event.bump ∉ es) (hfresh : Fresh s i)
    (hrun : t.stopped = false) : Current t ∧ Fresh t i := by
  have hall : Inv t ∧ Current t ∧ t.bump = none ∧ Fresh t i := by
    induction h with
    | nil => exact ⟨hinv, hcur, hb, hfresh⟩
    | @snoc as u v e _ hs ih =>
        have hs := step_moves hs.1
        obtain ⟨hinv, hcur, hb, hfresh⟩ :=
          ih (fun hmem => hes (List.mem_append_left _ hmem)) (hs.stopped hrun)
        have he : e ≠ .bump := fun he => hes (by simp [he])
        exact ⟨hinv.step hs, hcur.step hinv hs, (hs.kept hb he).1, hfresh.step hcur hb hs he hrun⟩
  exact ⟨hall.2.1, hall.2.2.2⟩

/-- When a bump has returned, no connection counted before it was called is relayed under a
live token.  Those counted after the last bump are let through as long as nothing stops the
stack. -/
theorem bump_separates {s₀ : State ν} {as : List (Event ν)} (h : Run TimelySteps init as s₀) :
    (∀ i s₁ bs s₂ cs s₃, s₀.Counted i → step s₀ .bump = some s₁ → Run TimelySteps s₁ bs s₂ →
      s₂.bump = none → Run TimelySteps s₂ cs s₃ → ¬ s₃.Relays i) ∧
    (s₀.bump = none → ∀ i bs s₁, ¬ s₀.Counted i → Run TimelySteps s₀ bs s₁ →
      Event.bump ∉ bs → s₁.stopped = false →
        ∀ h, s₁.handlers[i]? = some h → s₁.Admits h) := by
  obtain ⟨hinv, hcur⟩ := Current.run h
  constructor
  · intro i s₁ bs s₂ cs s₃ hc hs h₁₂ hret h₂₃
    have hs := step_moves hs
    have hcalled : Covering s₁ i := by
      cases hs
      exact .called rfl
    obtain ⟨hinv₂, hc₂, hcov⟩ := covered_run h₁₂ (hinv.step hs) (hs.counted hc) (.inl hcalled)
    have hstale : Stale s₂ i := by
      refine hcov.resolve_left fun hcov => ?_
      cases hcov <;> simp_all
    rintro ⟨token, via, hi, hlive⟩
    exact (hstale.run h₂₃ hinv₂ hc₂).passed _ token hi rfl hlive
  · intro hb i bs s₁ hc hrun hbs hstop h' hi
    obtain ⟨hcur₁, hfresh⟩ :=
      Fresh.run hrun hinv hcur hb hbs (fresh_of_not_counted hc) hstop
    refine ⟨(hfresh.admitted h' hi).1, (hfresh.admitted h' hi).2, fun token ht => ?_⟩
    rw [hfresh.token h' token hi ht]
    exact hcur₁.relay hstop

/-- A connection is counted, the node changes, and the connection is turned away. -/
theorem bump_separates_counted : ∃ s₀ s₃ : State Unit, s₀.Counted 0 ∧
    s₃.handlers = [.rejected] ∧ ¬ s₃.Relays 0 := by
  let start : State Unit := init
  have h₀ : Run TimelySteps start [.accept, .count] { start with accept := .counted 0 } :=
    .cons ⟨rfl, trivial⟩ (.single ⟨rfl, trivial⟩)
  have h₂ : Run TimelySteps { start with accept := .counted 0, bump := some .called }
      [.bumping, .bumping, .bumping, .bumping] { start with
        generation := 1, tokens := [true, false], relay := 1, accept := .counted 0 } :=
    .cons ⟨rfl, trivial⟩ (.cons ⟨rfl, trivial⟩ (.cons ⟨rfl, trivial⟩ (.single ⟨rfl, trivial⟩)))
  have h₃ : Run TimelySteps { start with
        generation := 1, tokens := [true, false], relay := 1, accept := .counted 0 }
      [.spawn, .handler 0 .compare] { start with
        generation := 1, tokens := [true, false], relay := 1, handlers := [.rejected] } := by
    refine .cons ⟨rfl, trivial⟩ (.single ⟨rfl, fun gen token hi => ?_⟩)
    cases hi
    show 1 < 0 + 2 ^ 64
    norm_num
  have hcounted : { start with accept := .counted 0 }.Counted 0 := .inr ⟨rfl, 0, rfl⟩
  exact ⟨_, _, hcounted, rfl, (bump_separates h₀).1 0 _ _ _ _ _ hcounted rfl h₂ rfl h₃⟩

/-! ## The range of the counter -/

/-- A connection is counted at the start, and `n` bumps have come and gone since. -/
def bumped (n : Nat) : State Unit where
  generation := n
  tokens := List.replicate n true ++ [false]
  relay := n
  stopped := false
  bump := none
  accept := .counted 0
  handlers := []

theorem bump_once (n : Nat) : ∃ s₁, step (bumped n) .bump = some s₁ ∧
    Run (fun s e t => step s e = some t) s₁ [.bumping, .bumping, .bumping, .bumping]
      (bumped (n + 1)) := by
  refine ⟨_, rfl, .cons rfl (.cons rfl (.cons rfl (.single ?_)))⟩
  have htokens : ((List.replicate n true ++ [false]) ++ [false]).set n true =
      List.replicate (n + 1) true ++ [false] := by
    rw [List.append_assoc, List.set_append_right _ _ (by simp), List.length_replicate,
      Nat.sub_self, List.replicate_succ', List.append_assoc]
    rfl
  have hrelay : (List.replicate n true ++ [false]).length = n + 1 := by simp
  simp only [step, Option.map_some, State.bumping, bumped, htokens, hrelay]

theorem bumps (n m : Nat) :
    ∃ es, Run (fun s e t => step s e = some t) (bumped n) es (bumped (n + m)) := by
  induction m with
  | zero => exact ⟨[], .nil⟩
  | succ m ih =>
      obtain ⟨es, h⟩ := ih
      obtain ⟨s₁, hs, hrun⟩ := bump_once (n + m)
      exact ⟨_, h.append (.cons hs hrun)⟩

/-- The connection has been handed to its handler, which stands at `h`. -/
def handed (n : Nat) (h : Handler Unit) : State Unit :=
  { bumped n with accept := .waiting, handlers := [h] }

theorem relays_bumped {n : Nat} (h : SameCount 0 n) : ∃ es s,
    Run (fun s e t => step s e = some t) (bumped n) es s ∧ s.Relays 0 := by
  have hlive : (handed n (.compared n)).Live n := by
    show (List.replicate n true ++ [false])[n]? = some false
    rw [List.getElem?_append_right (by simp)]
    simp
  have hcompare : step (handed n (.start 0 n)) (.handler 0 .compare) =
      some (handed n (.compared n)) := by
    have hn : SameCount 0 (bumped n).generation := h
    simp [step, State.handle, handed, hn]
  have hcheck : step (handed n (.compared n)) (.handler 0 .check) =
      some (handed n (.admitted n)) := by
    exact congrArg (fun h => some (handed n h)) (if_pos hlive)
  have hrun : Run (fun s e t => step s e = some t) (bumped n)
      [.spawn, .handler 0 .compare, .handler 0 .check, .handler 0 (.dial ()), .handler 0 .dialed]
      (handed n (.relaying n ())) :=
    .cons rfl (.cons hcompare (.cons hcheck (.cons rfl (.single rfl))))
  exact ⟨_, _, hrun, n, (), rfl, hlive⟩

/-- After as many bumps as the counter has values, a connection counted before all of them
is relayed. -/
theorem not_separates : ¬ ∀ (s₀ s₁ s₂ s₃ : State Unit) (as bs cs : List (Event Unit)) (i : Nat),
    Run (fun s e t => step s e = some t) init as s₀ → s₀.Counted i →
    step s₀ .bump = some s₁ → Run (fun s e t => step s e = some t) s₁ bs s₂ → s₂.bump = none →
    Run (fun s e t => step s e = some t) s₂ cs s₃ → ¬ s₃.Relays i := by
  intro h
  have h₀ : Run (fun s e t => step s e = some t) init [.accept, .count] (bumped 0) :=
    .cons rfl (.single rfl)
  obtain ⟨s₁, hs, h₂⟩ := bump_once 0
  obtain ⟨es, h₃⟩ := bumps 1 (2 ^ 64 - 1)
  have hrange : SameCount 0 (1 + (2 ^ 64 - 1)) := by norm_num [SameCount]
  obtain ⟨fs, s₃, h₄, hrelays⟩ := relays_bumped hrange
  exact h _ s₁ _ s₃ _ _ _ 0 h₀ (.inr ⟨rfl, 0, rfl⟩) hs h₂ rfl (h₃.append h₄) hrelays

end Generation

end RustClash
