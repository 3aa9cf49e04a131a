import RustClash.App.Selection
import RustClash.App.Switching
import RustClash.Tun.GenerationInvariant

/-!
# Settled switches leave no relay behind

`HttpInv` holds in every run: whoever puts another node in use aborts the connections of the
inbound next.  For the TUN, `Rest` and `Change.Fits` say what holds of its relays and its route
where the view and a call of `on_node_changed` stand; `Only` bounds the live connections that
go through a node.
-/

namespace RustClash

namespace Switching

open Generation (Moves step_moves)

variable {address : Str → Ipv4Addr} {st st' : State} {tun : Tun}

/-! ## Connections of the inbound -/

/-- The token and the node of a connection that goes through one. -/
def Http.via : Http → Option (Nat × ProxyNode)
  | .dialing token (some node) => some (token, node)
  | .relaying token (some node) => some (token, node)
  | _ => none

def Http.token : Http → Option Nat
  | .accepted token => some token
  | .dialing token _ => some token
  | .relaying token _ => some token
  | .ended => none

theorem Http.token_of_via {h : Http} {token : Nat} {node : ProxyNode}
    (hv : h.via = some (token, node)) : h.token = some token := by
  cases h with
  | dialing t via =>
      cases via <;> cases hv
      rfl
  | relaying t via =>
      cases via <;> cases hv
      rfl
  | _ => cases hv

/-- Unless an abort is due, the connections with the token of now go through the node in
use. -/
structure HttpInv (st : State) : Prop where
  http : (∀ update, st.ui ≠ .abortActive update) → ∀ (j : Nat) (h : Http) node,
    st.http[j]? = some h → h.via = some (st.conn, node) → st.current = some node
  older : ∀ (j : Nat) (h : Http) token, st.http[j]? = some h → h.token = some token →
    token ≤ st.conn
  owed : st.ui = .abortActive true ∨ st.ui = .notify → st.current = st.list.shown

theorem httpInv_init {prev : NodeList} {parsed : List ProxyNode} {running : Bool} :
    HttpInv (init address prev parsed running) :=
  ⟨by simp [init], by simp [init], fun _ => rfl⟩

/-- What a call of `on_node_changed` leaves alone. -/
theorem change_frame {c : Change} {e : ChangeEvent} {st₁ : State} {p : Phase}
    (h : st.change address c e = some (st₁, p)) : ∃ tun ui, st₁ = { st with tun, ui } ∧
      (ui = st.ui ∨ st.ui = .idle ∧ ∃ node, ui = .switch node) := by
  cases e with
  | resolve ok =>
      simp only [State.change] at h
      split at h
      · cases h
      · split at h
        · cases h
          exact ⟨_, _, rfl, .inl rfl⟩
        · cases h
          exact ⟨_, _, rfl, .inl rfl⟩
  | route r =>
      obtain ⟨tun, -, h⟩ := Option.bind_eq_some_iff.mp h
      split at h
      · cases h
      · split at h
        · cases h
          exact ⟨_, _, rfl, .inl rfl⟩
        · cases h
          exact ⟨_, _, rfl, .inl rfl⟩
  | bump =>
      obtain ⟨tun, -, h⟩ := Option.bind_eq_some_iff.mp h
      obtain ⟨stack, -, h⟩ := Option.bind_eq_some_iff.mp h
      split at h
      · cases h
      · cases h
        exact ⟨_, _, rfl, .inl rfl⟩
  | report =>
      simp only [State.change] at h
      split at h
      · split at h
        · cases h
        · next hidle =>
          split at h
          · cases h
            exact ⟨_, _, rfl, .inr ⟨not_not.mp hidle, _, rfl⟩⟩
          · cases h
            exact ⟨_, _, rfl, .inl rfl⟩
      · cases h

/-- A step of the TUN's own tasks is a step of the stack that leaves the bump alone, and
it dials through the node in use if it dials through any. -/
theorem stepTun_moves {e : Generation.Event (Option ProxyNode)}
    (h : st.stepTun tun e = some st') : ∃ stack, st' = { st with tun := some { tun with stack } } ∧
      Moves tun.stack e stack ∧ stack.bump = tun.stack.bump ∧
      ∀ i node, e = .handler i (.dial (some node)) → st.current = some node := by
  have hmoves : ∀ {stack}, Generation.step tun.stack e = some stack → e ≠ .bumping → e ≠ .bump →
      Moves tun.stack e stack ∧ stack.bump = tun.stack.bump := by
    intro stack hs hbumping hbump
    have hs := step_moves hs
    refine ⟨hs, ?_⟩
    cases hs with
    | bump => exact absurd rfl hbump
    | add => exact absurd rfl hbumping
    | make => exact absurd rfl hbumping
    | swap => exact absurd rfl hbumping
    | cancel => exact absurd rfl hbumping
    | _ => rfl
  cases e with
  | bump => cases h
  | bumping => cases h
  | stop => cases h
  | stopRelay => cases h
  | handler i a =>
      cases a with
      | dial via =>
          simp only [State.stepTun] at h
          split at h
          · next hvia =>
              obtain ⟨stack, hs, rfl⟩ := Option.map_eq_some_iff.mp h
              obtain ⟨hs, hb⟩ := hmoves hs (by simp) (by simp)
              refine ⟨stack, rfl, hs, hb, fun j node heq => ?_⟩
              cases heq
              exact (hvia.resolve_left (by simp)).symm
          · cases h
      | _ =>
          obtain ⟨stack, hs, rfl⟩ := Option.map_eq_some_iff.mp h
          obtain ⟨hs, hb⟩ := hmoves hs (by simp) (by simp)
          exact ⟨stack, rfl, hs, hb, by simp⟩
  | _ =>
      obtain ⟨stack, hs, rfl⟩ := Option.map_eq_some_iff.mp h
      obtain ⟨hs, hb⟩ := hmoves hs (by simp) (by simp)
      exact ⟨stack, rfl, hs, hb, by simp⟩

theorem HttpInv.advance (h : HttpInv st) (hs : st.advance st.ui = some st') : HttpInv st' := by
  cases hui : st.ui with
  | idle =>
      rw [hui] at hs
      cases hs
  | load update =>
      rw [hui] at hs
      cases hs
      exact ⟨fun hui => absurd rfl (hui update), h.older, fun _ => rfl⟩
  | switch node =>
      rw [hui] at hs
      cases hs
      exact ⟨fun hui => absurd rfl (hui false), h.older, by simp⟩
  | abortActive update =>
      rw [hui] at hs
      cases hs
      refine ⟨fun _ j c node hj hv => ?_, fun j c token hj ht => ?_, fun hn => ?_⟩
      · exact absurd (h.older j c _ hj (Http.token_of_via hv)) (Nat.not_succ_le_self _)
      · exact Nat.le_succ_of_le (h.older j c token hj ht)
      · cases update with
        | true => exact h.owed (.inl hui)
        | false => simp at hn
  | notify =>
      rw [hui] at hs
      have hhttp := h.http (by simp [hui])
      have hcurrent := h.owed (.inr hui)
      simp only [State.advance] at hs
      split at hs
      · next node _ hshown =>
          cases hs
          have hnode : st.current = some node := hcurrent.trans (Option.filter_eq_some_iff.mp hshown).1
          refine ⟨fun _ j c n hj hv => ?_, h.older, by simp⟩
          exact hnode.symm.trans (hhttp j c n hj hv)
      · cases hs
        exact ⟨fun _ => hhttp, h.older, by simp⟩

/-- What a handler of the inbound does. -/
theorem stepHttp_via {h h' : Http} {e : HttpEvent} (hs : st.stepHttp h e = some h') :
    (∀ token, h'.token = some token → h.token = some token) ∧
      ∀ token node, h'.via = some (token, node) →
        h.via = some (token, node) ∨ st.current = some node := by
  cases h with
  | accepted token =>
      cases e with
      | dial via =>
          simp only [State.stepHttp] at hs
          split at hs
          · next hvia =>
              cases hs
              refine ⟨fun _ ht => ht, fun t node hv => .inr ?_⟩
              cases via with
              | none => cases hv
              | some n =>
                  cases hv
                  exact (hvia.resolve_left (by simp)).symm
          · cases hs
      | finish =>
          cases hs
          exact ⟨by simp [Http.token], by simp [Http.via]⟩
      | _ => cases hs
  | dialing token via =>
      cases e with
      | dialed =>
          cases hs
          exact ⟨fun _ ht => ht, fun t node hv => .inl (by cases via <;> exact hv)⟩
      | cancelled =>
          simp only [State.stepHttp] at hs
          split at hs
          · cases hs
          · cases hs
            exact ⟨by simp [Http.token], by simp [Http.via]⟩
      | finish =>
          cases hs
          exact ⟨by simp [Http.token], by simp [Http.via]⟩
      | _ => cases hs
  | relaying token via =>
      cases e with
      | cancelled =>
          simp only [State.stepHttp] at hs
          split at hs
          · cases hs
          · cases hs
            exact ⟨by simp [Http.token], by simp [Http.via]⟩
      | finish =>
          cases hs
          exact ⟨by simp [Http.token], by simp [Http.via]⟩
      | _ => cases hs
  | ended => cases e <;> cases hs

theorem HttpInv.handle (h : HttpInv st) {j : Nat} {c c' : Http} {e : HttpEvent}
    (hj : st.http[j]? = some c) (hs : st.stepHttp c e = some c') :
    HttpInv { st with http := st.http.set j c' } := by
  obtain ⟨htoken, hvia⟩ := stepHttp_via hs
  have hset : ∀ {k : Nat} {d : Http}, (st.http.set j c')[k]? = some d →
      d = c' ∨ st.http[k]? = some d := by
    intro k d hk
    rw [List.getElem?_set] at hk
    split at hk
    · split at hk
      · exact .inl (Option.some.inj hk).symm
      · cases hk
    · exact .inr hk
  refine ⟨fun hui k d node hk hv => ?_, fun k d token hk ht => ?_, h.owed⟩
  · rcases hset hk with rfl | hk
    · exact (hvia _ node hv).elim (h.http hui j c node hj) id
    · exact h.http hui k d node hk hv
  · rcases hset hk with rfl | hk
    · exact h.older j c token hj (htoken token ht)
    · exact h.older k d token hk ht

theorem HttpInv.accept (h : HttpInv st) :
    HttpInv { st with http := st.http ++ [.accepted st.conn] } := by
  have happend : ∀ {k : Nat} {d : Http}, (st.http ++ [.accepted st.conn])[k]? = some d →
      st.http[k]? = some d ∨ d = .accepted st.conn := by
    intro k d hk
    rw [List.getElem?_append] at hk
    split at hk
    · exact .inl hk
    · exact .inr (List.mem_singleton.mp (List.mem_of_getElem? hk))
  refine ⟨fun hui k d node hk hv => ?_, fun k d token hk ht => ?_, h.owed⟩
  · rcases happend hk with hk | rfl
    · exact h.http hui k d node hk hv
    · cases hv
  · rcases happend hk with hk | rfl
    · exact h.older k d token hk ht
    · cases ht
      exact Nat.le_refl _

/-- An action of the view that does not put a node in use yet. -/
theorem HttpInv.begin (h : HttpInv st) {ui : Ui} (hidle : st.ui = .idle) (list : NodeList)
    (hui : ui ≠ .abortActive true ∧ ui ≠ .notify) {fetches : Nat} {changes : List Change} :
    HttpInv { st with list, ui, fetches, changes } :=
  ⟨fun _ => h.http (by simp [hidle]), h.older, fun howed => absurd howed (by simp [hui])⟩

theorem HttpInv.step {e : Event} (h : HttpInv st) (hs : step address st e = some st') :
    HttpInv st' := by
  cases e with
  | select i =>
      obtain ⟨hidle, hs⟩ := Option.ite_none_right_eq_some.mp hs
      obtain ⟨n, -, hs⟩ := Option.bind_eq_some_iff.mp hs
      split at hs
      · cases hs
        exact h
      · cases hs
        exact h.begin hidle _ (by simp [hidle])
  | switchProfile parsed =>
      obtain ⟨hidle, ⟨⟩⟩ := Option.ite_none_right_eq_some.mp hs
      exact h.begin hidle _ (by simp)
  | deleteProfile parsed =>
      obtain ⟨hidle, ⟨⟩⟩ := Option.ite_none_right_eq_some.mp hs
      exact h.begin hidle _ (by simp)
  | updateProfile =>
      obtain ⟨-, ⟨⟩⟩ := Option.ite_none_right_eq_some.mp hs
      exact ⟨h.http, h.older, h.owed⟩
  | fetched parsed =>
      obtain ⟨⟨hidle, -⟩, hs⟩ := Option.ite_none_right_eq_some.mp hs
      cases hs
      cases parsed with
      | none => exact ⟨h.http, h.older, h.owed⟩
      | some parsed => exact h.begin hidle _ (by simp)
  | ui => exact h.advance hs
  | change k e =>
      obtain ⟨c, -, hs⟩ := Option.bind_eq_some_iff.mp hs
      obtain ⟨⟨st₁, p⟩, hc, hs⟩ := Option.bind_eq_some_iff.mp hs
      cases hs
      obtain ⟨tun, ui, rfl, rfl | ⟨hidle, node, rfl⟩⟩ := change_frame hc
      · exact ⟨h.http, h.older, h.owed⟩
      · exact ⟨fun _ => h.http (by simp [hidle]), h.older, by simp⟩
  | accept =>
      cases hs
      exact h.accept
  | http j e =>
      obtain ⟨c, hj, hs⟩ := Option.bind_eq_some_iff.mp hs
      obtain ⟨c', hc, hs⟩ := Option.bind_eq_some_iff.mp hs
      cases hs
      exact h.handle hj hc
  | tun e =>
      obtain ⟨tun, -, hs⟩ := Option.bind_eq_some_iff.mp hs
      obtain ⟨stack, rfl, -⟩ := stepTun_moves hs
      exact ⟨h.http, h.older, h.owed⟩

/-! ## Connections of the TUN -/

/-- The token and the node of a handler that goes through one. -/
def via : Generation.Handler (Option ProxyNode) → Option (Nat × ProxyNode)
  | .dialing token (some node) => some (token, node)
  | .relaying token (some node) => some (token, node)
  | _ => none

theorem token_of_via {h : Generation.Handler (Option ProxyNode)} {token : Nat}
    {node : ProxyNode} (hv : via h = some (token, node)) : h.token = some token := by
  cases h with
  | dialing t v =>
      cases v <;> cases hv
      rfl
  | relaying t v =>
      cases v <;> cases hv
      rfl
  | _ => cases hv

/-- The live connections of the TUN that go through a node are all of a kind. -/
def Only (P : Nat → ProxyNode → Prop) (stack : Generation.State (Option ProxyNode)) : Prop :=
  ∀ (i : Nat) h token node, stack.handlers[i]? = some h → via h = some (token, node) →
    stack.Live token → P token node

section

variable {P Q : Nat → ProxyNode → Prop} {s s' : Generation.State (Option ProxyNode)}
  {e : Generation.Event (Option ProxyNode)}

theorem Only.mono (h : Only P s) (hPQ : ∀ token node, P token node → Q token node) : Only Q s :=
  fun i c token node hi hv hlive => hPQ token node (h i c token node hi hv hlive)

/-- Only a dial makes a handler go through a node. -/
theorem handle_via {h h' : Generation.Handler (Option ProxyNode)}
    {a : Generation.HandlerEvent (Option ProxyNode)} (hs : s.handle h a = some h') {token : Nat}
    {node : ProxyNode} (hv : via h' = some (token, node)) :
    via h = some (token, node) ∨ h = .admitted token ∧ a = .dial (some node) := by
  cases h with
  | admitted t =>
      cases a with
      | dial v =>
          cases hs
          cases v with
          | none => cases hv
          | some n =>
              cases hv
              exact .inr ⟨rfl, rfl⟩
      | finish =>
          cases hs
          cases hv
      | _ => cases hs
  | dialing t v =>
      refine .inl ?_
      cases a with
      | dialed =>
          cases hs
          cases v <;> exact hv
      | cancelled =>
          simp only [Generation.State.handle] at hs
          split at hs <;> cases hs
          cases hv
      | finish =>
          cases hs
          cases hv
      | _ => cases hs
  | _ =>
      refine .inl ?_
      cases a <;> simp only [Generation.State.handle] at hs <;> (try split at hs) <;>
        cases hs <;> cases hv

theorem Only.moves (h : Only P s) (hinv : Generation.Inv s) (hs : Moves s e s')
    (hdial : ∀ i token node, e = .handler i (.dial (some node)) →
      s.handlers[i]? = some (.admitted token) → s.Live token → P token node) : Only P s' := by
  intro i h' token node hi hv hlive
  rcases hs.handler_of hi with hi | ⟨-, gen, -, rfl⟩ | ⟨c, a, rfl, hi, ha⟩
  · exact h i h' token node hi hv (hs.live (hinv.held i h' token hi (token_of_via hv)) hlive)
  · cases hv
  · rcases handle_via ha hv with hv | ⟨rfl, rfl⟩
    · exact h i c token node hi hv (hs.live (hinv.held i c token hi (token_of_via hv)) hlive)
    · exact hdial i token node rfl hi (hs.live (hinv.held i _ token hi rfl) hlive)

/-- At the swap every live connection has the token that is about to be cancelled. -/
theorem only_swap (hinv : Generation.Inv s) {child : Nat} (hb : s.bump = some (.made child)) :
    Only (fun token _ => token = s.relay) s := by
  intro i h token node hi hv hlive
  rcases hinv.live token hlive with htok | htok | htok
  · exact htok
  · exact absurd (token_of_via hv) ((hinv.made token htok).2.2 i h hi)
  · simp [hb] at htok

/-- The cancelled token has no live connections. -/
theorem only_cancel {old : Nat} (h : Only (fun token node => token = old ∨ Q token node) s) :
    Only Q { s with tokens := s.tokens.set old true, bump := none } := by
  intro i c token node hi hv hlive
  obtain ⟨hlive, hne⟩ := Generation.live_set hlive
  exact (h i c token node hi hv hlive).resolve_left hne

end

/-! ## Stages -/

variable (address)

/-- The live connections and the route are those of the node in use. -/
structure Steady (st : State) (tun : Tun) : Prop where
  relays : Only (fun _ node => st.current = some node) tun.stack
  route : ∀ node, st.current = some node → tun.route = some (address node.server)

/-- The route is that of a node which is not in use yet, and all connections are cut off. -/
structure Cut (tun : Tun) (node : ProxyNode) : Prop where
  relays : Only (fun _ _ => False) tun.stack
  route : tun.route = some (address node.server)
  bump : tun.stack.bump = none

/-- What holds where the view stands, while no call is pending. -/
inductive Rest (st : State) (tun : Tun) : Ui → Prop where
  | steady {ui : Ui} : ui = .idle ∨ ui = .abortActive false → Steady address st tun →
      Rest st tun ui
  | loading : Steady address st tun → st.list.shown = st.current → Rest st tun (.load false)
  | updating {node : ProxyNode} : st.list.shown = some node → node.isSubscriptionInfo = false →
      Rest st tun (.load true)
  /-- The TUN has still to be told of the node. -/
  | owed {ui : Ui} {node : ProxyNode} : ui = .abortActive true ∨ ui = .notify →
      st.list.shown = some node → node.isSubscriptionInfo = false → st.current = some node →
      Rest st tun ui
  | switching {node : ProxyNode} : Cut address tun node → Rest st tun (.switch node)

/-- What holds where a call stands. -/
inductive Change.Fits (st : State) (tun : Tun) (c : Change) : Prop where
  | selected : c.select = true → c.phase = .asked ∨ c.phase = .resolved ∨ c.phase = .replied false →
      Steady address st tun → Fits st tun c
  | cutting : c.select = true → c.phase = .bumping → tun.route = some (address c.node.server) →
      tun.stack.bump ≠ none →
      (∀ old, tun.stack.bump = some (.swapped old) → Only (fun token _ => token = old) tun.stack) →
      Fits st tun c
  | cut : c.select = true → c.phase = .replied true → Cut address tun c.node → Fits st tun c
  | notified : c.select = false → c.phase = .asked ∨ c.phase = .resolved →
      st.current = some c.node → Fits st tun c
  | renewing : c.select = false → c.phase = .bumping → st.current = some c.node →
      tun.route = some (address c.node.server) → tun.stack.bump ≠ none →
      (∀ old, tun.stack.bump = some (.swapped old) →
        Only (fun token node => token = old ∨ st.current = some node) tun.stack) → Fits st tun c
  | renewed : c.select = false → c.phase = .replied true → Steady address st tun → Fits st tun c

structure TunInv (st : State) (tun : Tun) : Prop where
  stack : Generation.Inv tun.stack
  latest : Latest (·.phase = .done) st.changes
  rest : (∀ c ∈ st.changes, c.phase = .done) → Rest address st tun st.ui
  pending : ∀ c ∈ st.changes, c.phase ≠ .done → st.ui = .idle ∧ c.Fits address st tun

variable {address}

theorem Steady.idle (h : TunInv address st tun) (hui : st.ui = .idle)
    (hdone : ∀ c ∈ st.changes, c.phase = .done) : Steady address st tun := by
  have hrest := h.rest hdone
  rw [hui] at hrest
  cases hrest with
  | steady _ h => exact h
  | owed h => simp at h

/-! ## Putting the invariant together -/

theorem tunInv_rest (hstack : Generation.Inv tun.stack) (hdone : ∀ c ∈ st.changes, c.phase = .done)
    (hrest : Rest address st tun st.ui) : TunInv address st tun :=
  ⟨hstack, fun _ c hi _ => hdone c (List.mem_of_getElem? hi), fun _ => hrest,
    fun c hc hne => absurd (hdone c hc) hne⟩

/-- A call is added when all others are done. -/
theorem tunInv_ask (hstack : Generation.Inv tun.stack) {changes : List Change} {c : Change}
    (hdone : ∀ c ∈ changes, c.phase = .done) (hchanges : st.changes = changes ++ [c])
    (hc : c.phase ≠ .done) (hui : st.ui = .idle) (hfits : c.Fits address st tun) :
    TunInv address st tun := by
  refine ⟨hstack, ?_, fun hall => ?_, fun d hd hne => ?_⟩
  · rw [hchanges]
    exact .concat hdone
  · exact absurd (hall c (by simp [hchanges])) hc
  · rw [hchanges] at hd
    rcases List.mem_append.mp hd with hd | hd
    · exact absurd (hdone d hd) hne
    · rw [List.mem_singleton.mp hd]
      exact ⟨hui, hfits⟩

/-- The call that is pending takes a step. -/
theorem TunInv.answer {tun' : Tun} {changes : List Change} (hlatest : Latest (·.phase = .done) changes)
    {k : Nat} {c c' : Change} (hk : changes[k]? = some c) (hc : c.phase ≠ .done)
    (hchanges : st'.changes = changes.set k c') (hstack : Generation.Inv tun'.stack)
    (hpending : c'.phase ≠ .done → st'.ui = .idle ∧ c'.Fits address st' tun')
    (hrest : c'.phase = .done → Rest address st' tun' st'.ui) : TunInv address st' tun' := by
  have hlast : Latest (·.phase = .done) (changes.set k c') :=
    hlatest.set hk fun hp => absurd hp hc
  refine ⟨hstack, ?_, fun hall => ?_, fun d hd hne => ?_⟩
  · rw [hchanges]
    exact hlast
  · refine hrest (hall c' ?_)
    rw [hchanges]
    exact List.mem_of_getLast? (hlatest.getLast?_set hk hc)
  · rw [hchanges] at hd
    obtain ⟨j, hj⟩ := List.mem_iff_getElem?.mp hd
    have hlast' := hlast.getLast? hj hne
    rw [hlatest.getLast?_set hk hc] at hlast'
    cases hlast'
    exact hpending hne

theorem Steady.congr (h : Steady address st tun) (hcurrent : st'.current = st.current) :
    Steady address st' tun := by
  refine ⟨?_, ?_⟩
  · rw [hcurrent]
    exact h.relays
  · rw [hcurrent]
    exact h.route

/-- Steps that leave alone what the TUN goes by. -/
theorem TunInv.frame (h : TunInv address st tun) (hlist : st'.list = st.list)
    (hcurrent : st'.current = st.current) (hchanges : st'.changes = st.changes)
    (hui : st'.ui = st.ui) : TunInv address st' tun := by
  refine ⟨h.stack, hchanges ▸ h.latest, fun hdone => ?_, fun c hc hne => ?_⟩
  · rw [hui]
    rw [hchanges] at hdone
    have hrest := h.rest hdone
    generalize st.ui = ui at hrest ⊢
    cases hrest with
    | steady hu hsteady => exact .steady hu (hsteady.congr hcurrent)
    | loading hsteady hshown =>
        exact .loading (hsteady.congr hcurrent) (by rw [hlist, hcurrent, hshown])
    | updating hshown hinfo => exact .updating (by rw [hlist, hshown]) hinfo
    | owed hu hshown hinfo hnode =>
        exact .owed hu (by rw [hlist, hshown]) hinfo (by rw [hcurrent, hnode])
    | switching hcut => exact .switching hcut
  · rw [hchanges] at hc
    obtain ⟨hidle, hfits⟩ := h.pending c hc hne
    refine ⟨hui.trans hidle, ?_⟩
    cases hfits with
    | selected hs hp hsteady => exact .selected hs hp (hsteady.congr hcurrent)
    | cutting hs hp hr hb hold => exact .cutting hs hp hr hb hold
    | cut hs hp hcut => exact .cut hs hp hcut
    | notified hs hp hnode => exact .notified hs hp (hcurrent.trans hnode)
    | renewing hs hp hnode hr hb hold =>
        exact .renewing hs hp (hcurrent.trans hnode) hr hb (by rwa [hcurrent])
    | renewed hs hp hsteady => exact .renewed hs hp (hsteady.congr hcurrent)

/-! ## Steps of the view -/

theorem TunInv.advance (h : TunInv address st tun) (htun : st.tun = some tun)
    (hs : st.advance st.ui = some st') : st'.tun = some tun ∧ TunInv address st' tun := by
  have hdone : ∀ c ∈ st.changes, c.phase = .done := by
    intro c hc
    by_contra hne
    rw [(h.pending c hc hne).1] at hs
    cases hs
  have hrest := h.rest hdone
  cases hui : st.ui with
  | idle =>
      rw [hui] at hs
      cases hs
  | load update =>
      rw [hui] at hs hrest
      cases hs
      refine ⟨htun, tunInv_rest h.stack hdone ?_⟩
      cases hrest with
      | steady hu _ => simp at hu
      | loading hsteady hshown => exact .steady (.inr rfl) (hsteady.congr hshown)
      | updating hshown hinfo => exact .owed (.inl rfl) hshown hinfo hshown
      | owed hu => simp at hu
  | switch node =>
      rw [hui] at hs hrest
      cases hs
      refine ⟨htun, tunInv_rest h.stack hdone (.steady (.inr rfl) ?_)⟩
      cases hrest with
      | steady hu _ => simp at hu
      | owed hu => simp at hu
      | switching hcut =>
          refine ⟨hcut.relays.mono fun _ _ hf => hf.elim, fun n hn => ?_⟩
          cases hn
          exact hcut.route
  | abortActive update =>
      rw [hui] at hs hrest
      cases hs
      refine ⟨htun, tunInv_rest h.stack hdone ?_⟩
      cases hrest with
      | steady hu hsteady =>
          have hu : update = false := by simpa using hu
          rw [hu]
          exact .steady (.inl rfl) (hsteady.congr rfl)
      | owed hu hshown hinfo hnode =>
          have hu : update = true := by simpa using hu
          rw [hu]
          exact .owed (.inr rfl) hshown hinfo hnode
  | notify =>
      rw [hui] at hs hrest
      cases hrest with
      | steady hu _ => simp at hu
      | @owed _ node hu hshown hinfo hnode =>
          have hfilter : st.list.shown.filter (!·.isSubscriptionInfo) = some node := by
            rw [hshown]
            simp [hinfo]
          simp only [State.advance, htun, hfilter] at hs
          cases hs
          exact ⟨rfl, tunInv_ask h.stack hdone rfl (by simp) rfl (.notified rfl (.inl rfl) rfl)⟩

theorem TunInv.load (h : TunInv address st tun) {parsed : List ProxyNode} {update : Bool}
    {fetches : Nat} (hdone : ∀ c ∈ st.changes, c.phase = .done)
    (hrest : Rest address (st.loadProfile parsed update) tun (.load update)) :
    TunInv address { st.loadProfile parsed update with fetches } tun :=
  have hload : TunInv address (st.loadProfile parsed update) tun := tunInv_rest h.stack hdone hrest
  hload.frame rfl rfl rfl rfl

/-! ## Steps of a call -/

theorem TunInv.resolve (h : TunInv address st tun) (htun : st.tun = some tun) {k : Nat}
    {c : Change} (hk : st.changes[k]? = some c) {ok : Bool} (hok : c.select = true ∨ ok = true)
    {st₁ : State} {p : Phase} (hs : st.change address c (.resolve ok) = some (st₁, p)) :
    st₁ = st ∧ TunInv address { st with changes := st.changes.set k { c with phase := p } } tun := by
  simp only [State.change, htun] at hs
  split at hs
  · cases hs
  · next hasked =>
      have hasked : c.phase = .asked := by simpa using hasked
      obtain ⟨hidle, hfits⟩ := h.pending c (List.mem_of_getElem? hk) (by simp [hasked])
      rw [if_neg (by simp)] at hs
      obtain ⟨rfl, rfl⟩ := Prod.mk.inj (Option.some.inj hs)
      refine ⟨rfl, .answer h.latest hk (by simp [hasked]) rfl h.stack (fun _ => ⟨hidle, ?_⟩) ?_⟩
      · cases hfits with
        | selected hsel _ hsteady =>
            refine .selected hsel (.inr ?_) (hsteady.congr rfl)
            cases ok <;> simp
        | notified hsel _ hnode =>
            have hok : ok = true := hok.resolve_left (by simp [hsel])
            rw [hok]
            exact .notified hsel (.inr rfl) hnode
        | cutting _ hp => simp [hasked] at hp
        | cut _ hp => simp [hasked] at hp
        | renewing _ hp => simp [hasked] at hp
        | renewed _ hp => simp [hasked] at hp
      · cases ok <;> simp

theorem TunInv.route (h : TunInv address st tun) (htun : st.tun = some tun) {k : Nat}
    {c : Change} (hk : st.changes[k]? = some c) {r : RouteResult}
    (hr : r = .ok ∨ c.select = true ∧ r = .addFailed ∧ tun.route ≠ some (address c.node.server))
    {st₁ : State} {p : Phase} (hs : st.change address c (.route r) = some (st₁, p)) :
    ∃ tun', st₁ = { st with tun := some tun' } ∧
      TunInv address { st₁ with changes := st.changes.set k { c with phase := p } } tun' := by
  simp only [State.change, htun, Option.bind_eq_bind, Option.bind_some] at hs
  split at hs
  · cases hs
  · next hready =>
      obtain ⟨hresolved, hb⟩ : c.phase = .resolved ∧ tun.stack.bump = none := by
        simpa using hready
      obtain ⟨hidle, hfits⟩ := h.pending c (List.mem_of_getElem? hk) (by simp [hresolved])
      split at hs
      · next hok =>
          subst hok
          cases hs
          refine ⟨_, rfl, .answer h.latest hk (by simp [hresolved]) rfl
            (h.stack.step (.bump hb)) (fun _ => ⟨hidle, ?_⟩) (by simp)⟩
          cases hfits with
          | selected hsel _ _ => exact .cutting hsel rfl rfl (by simp) (by simp)
          | notified hsel _ hnode => exact .renewing hsel rfl hnode rfl (by simp) (by simp)
          | cutting _ hp => simp [hresolved] at hp
          | cut _ hp => simp [hresolved] at hp
          | renewing _ hp => simp [hresolved] at hp
          | renewed _ hp => simp [hresolved] at hp
      · next hfailed =>
          obtain ⟨hsel, rfl, hroute⟩ := hr.resolve_left hfailed
          cases hs
          refine ⟨_, rfl, .answer h.latest hk (by simp [hresolved]) rfl h.stack
            (fun _ => ⟨hidle, ?_⟩) (by simp)⟩
          cases hfits with
          | selected _ _ hsteady =>
              refine .selected hsel (.inr (.inr rfl)) ⟨hsteady.relays, fun n hn => ?_⟩
              have hkept : setRoute tun.route (address c.node.server) .addFailed = tun.route :=
                if_neg hroute
              exact hkept.trans (hsteady.route n hn)
          | notified hsel' => simp [hsel] at hsel'
          | cutting _ hp => simp [hresolved] at hp
          | cut _ hp => simp [hresolved] at hp
          | renewing _ hp => simp [hresolved] at hp
          | renewed _ hp => simp [hresolved] at hp

theorem TunInv.bump (h : TunInv address st tun) (htun : st.tun = some tun) {k : Nat}
    {c : Change} (hk : st.changes[k]? = some c) {st₁ : State} {p : Phase}
    (hs : st.change address c .bump = some (st₁, p)) :
    ∃ tun', st₁ = { st with tun := some tun' } ∧
      TunInv address { st₁ with changes := st.changes.set k { c with phase := p } } tun' := by
  simp only [State.change, htun, Option.bind_eq_bind, Option.bind_some] at hs
  obtain ⟨stack, hstack, hs⟩ := Option.bind_eq_some_iff.mp hs
  split at hs
  · cases hs
  · next hbumping =>
      have hbumping : c.phase = .bumping := by simpa using hbumping
      obtain ⟨hidle, hfits⟩ := h.pending c (List.mem_of_getElem? hk) (by simp [hbumping])
      obtain ⟨rfl, rfl⟩ := Prod.mk.inj (Option.some.inj hs)
      have hmoves := step_moves hstack
      refine ⟨_, rfl, .answer h.latest hk (by simp [hbumping]) rfl (h.stack.step hmoves)
        (fun _ => ⟨hidle, ?_⟩) (by split <;> simp)⟩
      cases hfits with
      | cutting hsel _ hroute hb hold =>
          cases hmoves with
          | add hb => exact .cutting hsel rfl hroute (by simp) (by simp)
          | make hb => exact .cutting hsel rfl hroute (by simp) (by simp)
          | swap hb =>
              refine .cutting hsel rfl hroute (by simp) fun old ho => ?_
              cases ho
              exact only_swap h.stack hb
          | @cancel old hb =>
              have honly := only_cancel (Q := fun _ _ => False)
                ((hold old hb).mono fun _ _ ho => .inl ho)
              exact .cut hsel rfl ⟨honly, hroute, rfl⟩
      | renewing hsel _ hnode hroute hb hold =>
          cases hmoves with
          | add hb => exact .renewing hsel rfl hnode hroute (by simp) (by simp)
          | make hb => exact .renewing hsel rfl hnode hroute (by simp) (by simp)
          | swap hb =>
              refine .renewing hsel rfl hnode hroute (by simp) fun old ho => ?_
              cases ho
              exact (only_swap h.stack hb).mono fun _ _ ho => .inl ho
          | @cancel old hb =>
              refine .renewed hsel rfl ⟨only_cancel (hold old hb), fun n hn => ?_⟩
              have hn : some n = some c.node := hn.symm.trans hnode
              cases hn
              exact hroute
      | selected _ hp => simp [hbumping] at hp
      | cut _ hp => simp [hbumping] at hp
      | notified _ hp => simp [hbumping] at hp
      | renewed _ hp => simp [hbumping] at hp

theorem TunInv.report (h : TunInv address st tun) {k : Nat} {c : Change}
    (hk : st.changes[k]? = some c) {st₁ : State} {p : Phase}
    (hs : st.change address c .report = some (st₁, p)) : st₁.tun = st.tun ∧
      TunInv address { st₁ with changes := st.changes.set k { c with phase := p } } tun := by
  simp only [State.change] at hs
  split at hs
  · next ok hp =>
      obtain ⟨hidle, hfits⟩ := h.pending c (List.mem_of_getElem? hk) (by simp [hp])
      rw [if_neg (by simp [hidle])] at hs
      split at hs
      · next hok =>
          obtain ⟨hsel, rfl⟩ := hok
          cases hs
          refine ⟨rfl, .answer h.latest hk (by simp [hp]) rfl h.stack (by simp) fun _ => ?_⟩
          cases hfits with
          | cut _ _ hcut => exact .switching hcut
          | selected _ hp' => simp [hp] at hp'
          | cutting _ hp' => simp [hp] at hp'
          | notified hsel' => simp [hsel] at hsel'
          | renewing hsel' => simp [hsel] at hsel'
          | renewed hsel' => simp [hsel] at hsel'
      · next hok =>
          cases hs
          refine ⟨rfl, .answer h.latest hk (by simp [hp]) rfl h.stack (by simp) fun _ => ?_⟩
          refine .steady (.inl hidle) ?_
          cases hfits with
          | selected _ _ hsteady => exact hsteady.congr rfl
          | renewed _ _ hsteady => exact hsteady.congr rfl
          | cut hsel hp' =>
              have hok' : ok = true := by simpa [hp] using hp'
              exact absurd ⟨hsel, hok'⟩ hok
          | cutting _ hp' => simp [hp] at hp'
          | notified _ hp' => simp [hp] at hp'
          | renewing _ hp' => simp [hp] at hp'
  · cases hs

/-! ## Steps of the TUN -/

theorem Steady.moves (h : Steady address st tun) (hinv : Generation.Inv tun.stack)
    {e : Generation.Event (Option ProxyNode)} {stack : Generation.State (Option ProxyNode)}
    (hs : Moves tun.stack e stack)
    (hdial : ∀ i node, e = .handler i (.dial (some node)) → st.current = some node)
    (hcurrent : st'.current = st.current) : Steady address st' { tun with stack } :=
  .congr ⟨h.relays.moves hinv hs fun i _ node he _ _ => hdial i node he, h.route⟩ hcurrent

/-- While the connections are cut off, none is dialed with the new token. -/
theorem Cut.moves {node : ProxyNode} (h : Cut address tun node) (hinv : Generation.Inv tun.stack)
    {e : Generation.Event (Option ProxyNode)} {stack : Generation.State (Option ProxyNode)}
    (hs : Moves tun.stack e stack) (hb : stack.bump = tun.stack.bump)
    (hold : ∀ i token n, e = .handler i (.dial (some n)) →
      tun.stack.handlers[i]? = some (.admitted token) → token ≠ tun.stack.relay) :
    Cut address { tun with stack } node := by
  refine ⟨h.relays.moves hinv hs fun i token n he hi hlive => ?_, h.route, hb.trans h.bump⟩
  exact hold i token n he hi (hinv.live_eq hlive (by simp [h.bump]) (by simp [h.bump]))

theorem TunInv.moves (h : TunInv address st tun) (htun : st.tun = some tun)
    {e : Generation.Event (Option ProxyNode)} (hs : st.stepTun tun e = some st')
    (hset : Settled address st (.tun e)) :
    ∃ tun', st'.tun = some tun' ∧ TunInv address st' tun' := by
  obtain ⟨stack, rfl, hs, hb, hdial⟩ := stepTun_moves hs
  have hold : st.Cutting tun → ∀ i token n, e = .handler i (.dial (some n)) →
      tun.stack.handlers[i]? = some (.admitted token) → token ≠ tun.stack.relay := by
    rintro hcut i token n rfl hi
    exact hset tun token htun hi hcut
  refine ⟨_, rfl, h.stack.step hs, h.latest, fun hdone => ?_, fun c hc hne => ?_⟩
  · have hrest := h.rest hdone
    show Rest _ _ _ st.ui
    cases hui : st.ui with
    | idle =>
        exact .steady (.inl rfl) ((Steady.idle h hui hdone).moves h.stack hs hdial rfl)
    | load update =>
        rw [hui] at hrest
        cases hrest with
        | steady hu => simp at hu
        | loading hsteady hshown => exact .loading (hsteady.moves h.stack hs hdial rfl) hshown
        | updating hshown hinfo => exact .updating hshown hinfo
        | owed hu => simp at hu
    | switch node =>
        rw [hui] at hrest
        cases hrest with
        | steady hu => simp at hu
        | owed hu => simp at hu
        | switching hcut => exact .switching (hcut.moves h.stack hs hb (hold (.inl ⟨node, hui⟩)))
    | abortActive update =>
        rw [hui] at hrest
        cases hrest with
        | steady hu hsteady => exact .steady hu (hsteady.moves h.stack hs hdial rfl)
        | owed hu hshown hinfo hnode => exact .owed hu hshown hinfo hnode
    | notify =>
        rw [hui] at hrest
        cases hrest with
        | steady hu => simp at hu
        | owed hu hshown hinfo hnode => exact .owed hu hshown hinfo hnode
  · obtain ⟨hidle, hfits⟩ := h.pending c hc hne
    refine ⟨hidle, ?_⟩
    cases hfits with
    | selected hsel hp hsteady => exact .selected hsel hp (hsteady.moves h.stack hs hdial rfl)
    | cutting hsel hp hroute hbump honly =>
        refine .cutting hsel hp hroute (hb ▸ hbump) fun old ho => ?_
        have ho : tun.stack.bump = some (.swapped old) := hb ▸ ho
        refine (honly old ho).moves h.stack hs fun i token n he hi hlive => ?_
        have hne := hold (.inr ⟨c, hc, hsel, .inr ⟨hp, old, ho⟩⟩) i token n he hi
        rcases h.stack.live token hlive with htok | htok | htok
        · exact absurd htok hne
        · simp [ho] at htok
        · rw [ho] at htok
          cases htok
          rfl
    | cut hsel hp hcut =>
        exact .cut hsel hp (hcut.moves h.stack hs hb (hold (.inr ⟨c, hc, hsel, .inl hp⟩)))
    | notified hsel hp hnode => exact .notified hsel hp hnode
    | renewing hsel hp hnode hroute hbump honly =>
        refine .renewing hsel hp hnode hroute (hb ▸ hbump) fun old ho => ?_
        have ho : tun.stack.bump = some (.swapped old) := hb ▸ ho
        exact (honly old ho).moves h.stack hs fun i _ n he _ _ => .inr (hdial i n he)
    | renewed hsel hp hsteady => exact .renewed hsel hp (hsteady.moves h.stack hs hdial rfl)

/-! ## All steps -/

theorem TunInv.call (h : TunInv address st tun) (htun : st.tun = some tun) {k : Nat} {c : Change}
    (hk : st.changes[k]? = some c) {e : ChangeEvent} {st₁ : State} {p : Phase}
    (hs : st.change address c e = some (st₁, p)) (hset : Settled address st (.change k e)) :
    ∃ tun', st₁.tun = some tun' ∧
      TunInv address { st₁ with changes := st.changes.set k { c with phase := p } } tun' := by
  cases e with
  | resolve ok =>
      obtain ⟨rfl, hinv⟩ := h.resolve htun hk (hset c hk (by simp [htun])) hs
      exact ⟨tun, htun, hinv⟩
  | route r =>
      obtain ⟨tun', rfl, hinv⟩ := h.route htun hk (hset c tun hk htun) hs
      exact ⟨tun', rfl, hinv⟩
  | bump =>
      obtain ⟨tun', rfl, hinv⟩ := h.bump htun hk hs
      exact ⟨tun', rfl, hinv⟩
  | report =>
      obtain ⟨htun', hinv⟩ := h.report hk hs
      obtain ⟨_, _, rfl, -⟩ := change_frame hs
      exact ⟨tun, htun'.trans htun, hinv⟩

theorem TunInv.step {e : Event} (h : TunInv address st tun) (htun : st.tun = some tun)
    (hs : SettledSteps address st e st') : ∃ tun', st'.tun = some tun' ∧ TunInv address st' tun' := by
  obtain ⟨hs, hset⟩ := hs
  have hrunning : st.tun ≠ none := by simp [htun]
  cases e with
  | select i =>
      obtain ⟨hidle, hs⟩ := Option.ite_none_right_eq_some.mp hs
      obtain ⟨n, -, hs⟩ := Option.bind_eq_some_iff.mp hs
      have hdone := hset hrunning
      split at hs
      · cases hs
        exact ⟨tun, htun, h⟩
      · cases hs
        exact ⟨tun, htun, tunInv_ask h.stack hdone rfl (by simp) hidle
          (.selected rfl (.inl rfl) ((Steady.idle h hidle hdone).congr rfl))⟩
  | switchProfile parsed =>
      obtain ⟨hidle, ⟨⟩⟩ := Option.ite_none_right_eq_some.mp hs
      obtain ⟨hdone, hshown⟩ := hset hrunning
      exact ⟨tun, htun, h.load hdone (.loading ((Steady.idle h hidle hdone).congr rfl) hshown)⟩
  | deleteProfile parsed =>
      obtain ⟨hidle, ⟨⟩⟩ := Option.ite_none_right_eq_some.mp hs
      obtain ⟨hdone, hshown⟩ := hset hrunning
      exact ⟨tun, htun, h.load hdone (.loading ((Steady.idle h hidle hdone).congr rfl) hshown)⟩
  | updateProfile =>
      obtain ⟨-, ⟨⟩⟩ := Option.ite_none_right_eq_some.mp hs
      exact ⟨tun, htun, h.frame rfl rfl rfl rfl⟩
  | fetched parsed =>
      obtain ⟨⟨hidle, -⟩, hs⟩ := Option.ite_none_right_eq_some.mp hs
      cases hs
      cases parsed with
      | none => exact ⟨tun, htun, h.frame rfl rfl rfl rfl⟩
      | some parsed =>
          obtain ⟨hdone, hsome⟩ := hset hrunning
          obtain ⟨node, hnode⟩ := Option.ne_none_iff_exists'.mp hsome
          have hinfo := Selection.info_of_reload node hnode
          exact ⟨tun, htun, h.load hdone (.updating hnode hinfo)⟩
  | ui =>
      obtain ⟨htun', hinv⟩ := h.advance htun hs
      exact ⟨tun, htun', hinv⟩
  | change k e =>
      obtain ⟨c, hk, hs⟩ := Option.bind_eq_some_iff.mp hs
      obtain ⟨⟨st₁, p⟩, hc, hs⟩ := Option.bind_eq_some_iff.mp hs
      cases hs
      obtain ⟨tun', htun', hinv⟩ := h.call htun hk hc hset
      exact ⟨tun', htun', hinv⟩
  | accept =>
      cases hs
      exact ⟨tun, htun, h.frame rfl rfl rfl rfl⟩
  | http j e =>
      obtain ⟨c, -, hs⟩ := Option.bind_eq_some_iff.mp hs
      obtain ⟨c', -, hs⟩ := Option.bind_eq_some_iff.mp hs
      cases hs
      exact ⟨tun, htun, h.frame rfl rfl rfl rfl⟩
  | tun e =>
      obtain ⟨tun₀, htun₀, hs⟩ := Option.bind_eq_some_iff.mp hs
      obtain rfl : tun = tun₀ := Option.some.inj (htun.symm.trans htun₀)
      exact h.moves htun hs hset

/-- Without the TUN, a call does nothing but end. -/
theorem change_stopped {c : Change} {e : ChangeEvent} {st₁ : State} {p : Phase}
    (hs : st.change address c e = some (st₁, p)) (hnone : st.tun = none) : st₁.tun = none := by
  cases e with
  | resolve ok =>
      simp only [State.change, hnone] at hs
      split at hs
      · cases hs
      · rw [if_pos trivial] at hs
        cases hs
        exact hnone
  | route r =>
      obtain ⟨tun, htun, -⟩ := Option.bind_eq_some_iff.mp hs
      simp [hnone] at htun
  | bump =>
      obtain ⟨tun, htun, -⟩ := Option.bind_eq_some_iff.mp hs
      simp [hnone] at htun
  | report =>
      simp only [State.change] at hs
      split at hs
      · split at hs
        · cases hs
        · split at hs <;> cases hs <;> exact hnone
      · cases hs

theorem step_stopped {e : Event} (hs : step address st e = some st') (hnone : st.tun = none) :
    st'.tun = none := by
  cases e with
  | select i =>
      obtain ⟨-, hs⟩ := Option.ite_none_right_eq_some.mp hs
      obtain ⟨n, -, hs⟩ := Option.bind_eq_some_iff.mp hs
      split at hs <;> cases hs <;> exact hnone
  | switchProfile parsed =>
      obtain ⟨-, ⟨⟩⟩ := Option.ite_none_right_eq_some.mp hs
      exact hnone
  | deleteProfile parsed =>
      obtain ⟨-, ⟨⟩⟩ := Option.ite_none_right_eq_some.mp hs
      exact hnone
  | updateProfile =>
      obtain ⟨-, ⟨⟩⟩ := Option.ite_none_right_eq_some.mp hs
      exact hnone
  | fetched parsed =>
      obtain ⟨-, hs⟩ := Option.ite_none_right_eq_some.mp hs
      cases hs
      cases parsed <;> exact hnone
  | ui =>
      have hs : st.advance st.ui = some st' := hs
      cases hui : st.ui with
      | notify =>
          simp only [State.advance, hui, hnone] at hs
          cases hs
          rfl
      | idle =>
          rw [hui] at hs
          cases hs
      | _ =>
          rw [hui] at hs
          cases hs
          exact hnone
  | change k e =>
      obtain ⟨c, -, hs⟩ := Option.bind_eq_some_iff.mp hs
      obtain ⟨⟨st₁, p⟩, hc, hs⟩ := Option.bind_eq_some_iff.mp hs
      cases hs
      have hstopped := change_stopped hc hnone
      exact hstopped
  | accept =>
      cases hs
      exact hnone
  | http j e =>
      obtain ⟨c, -, hs⟩ := Option.bind_eq_some_iff.mp hs
      obtain ⟨c', -, hs⟩ := Option.bind_eq_some_iff.mp hs
      cases hs
      exact hnone
  | tun e =>
      obtain ⟨tun, htun, -⟩ := Option.bind_eq_some_iff.mp hs
      simp [hnone] at htun

/-- The TUN does not run, or it runs as its invariant says. -/
def Running (address : Str → Ipv4Addr) (st : State) : Prop :=
  ∀ tun, st.tun = some tun → TunInv address st tun

theorem running_init {prev : NodeList} {parsed : List ProxyNode} {running : Bool} :
    Running address (init address prev parsed running) := by
  intro tun htun
  cases running with
  | false => cases htun
  | true =>
      obtain ⟨n, hn, rfl⟩ := Option.map_eq_some_iff.mp htun
      refine tunInv_rest Generation.inv_init (by simp [init]) (.steady (.inl rfl) ⟨?_, ?_⟩)
      · intro i h token node hi
        cases hi
      · intro node hnode
        have hn : some n = some node := hn.symm.trans hnode
        cases hn
        rfl

theorem Running.step {e : Event} (h : Running address st) (hs : SettledSteps address st e st') :
    Running address st' := by
  intro tun' htun'
  cases htun : st.tun with
  | none =>
      rw [step_stopped hs.1 htun] at htun'
      cases htun'
  | some tun =>
      obtain ⟨t, ht, hinv⟩ := (h tun htun).step htun hs
      obtain rfl : tun' = t := Option.some.inj (htun'.symm.trans ht)
      exact hinv

theorem HttpInv.sound (h : HttpInv st) (hrunning : Running address st) : Sound address st := by
  refine ⟨fun hquiet j node hj => ?_, fun hquiet tun htun i token node hi hlive => ?_,
    fun hquiet tun node htun hnode => ?_⟩
  · exact h.http (by simp [hquiet.1]) j _ node hj rfl
  · have hinv := hrunning tun htun
    exact (Steady.idle hinv hquiet.1 hquiet.2.2).relays i _ token node hi rfl hlive
  · have hinv := hrunning tun htun
    exact (Steady.idle hinv hquiet.1 hquiet.2.2).route node hnode

/-- If, while the TUN runs, the node in use changes only by switches and updates that follow
one another and are not interfered with, every live relay goes through the node in use and
the route is the one to its server whenever nothing is pending. -/
theorem switching_sound {prev : NodeList} {parsed : List ProxyNode} {running : Bool}
    {es : List Event} (h : Run (SettledSteps address) (init address prev parsed running) es st) :
    Sound address st := by
  have hhttp : HttpInv st := h.invariant (fun hi hs => hi.step hs.1) httpInv_init
  exact hhttp.sound (h.invariant (fun hi hs => Running.step hi hs) running_init)

/-- Steps that are settled wherever they are taken. -/
theorem run_settled {es : List Event} (h : es.foldlM (step address) st = some st')
    (hes : ∀ e ∈ es, ∀ st, Settled address st e) : Run (SettledSteps address) st es st' := by
  induction es generalizing st with
  | nil =>
      cases h
      exact .nil
  | cons e es ih =>
      rw [List.foldlM_cons] at h
      obtain ⟨st₁, hs, h⟩ := Option.bind_eq_some_iff.mp h
      have hrest := ih h fun e he => hes e (List.mem_cons_of_mem _ he)
      exact .cons ⟨hs, hes e List.mem_cons_self st⟩ hrest

/-! ## Two nodes -/

def first : ProxyNode := { name := ['a'], server := ['g'], port := 443 }

def second : ProxyNode := { name := ['b'], server := ['h'], port := 443 }

def sampleAddress (server : Str) : Ipv4Addr :=
  if server = ['g'] then ⟨192, 0, 2, 1⟩ else ⟨192, 0, 2, 2⟩

/-- The first node is in use and the TUN runs. -/
def started : State := init sampleAddress ⟨[], none⟩ [first, second] true

/-- The second node has been selected and the TUN told of it. -/
def switched (handlers : List (Generation.Handler (Option ProxyNode))) : State :=
  { started with
    list := { started.list with selected := some 1 }
    current := some second
    conn := 1
    tun := some ⟨⟨1, [true, false], 1, false, none, .waiting, handlers⟩, some ⟨192, 0, 2, 2⟩⟩
    changes := [⟨second, true, .done⟩] }

/-- The TUN relays a connection through the node that was selected. -/
theorem switching_sound_switched : ∃ es, Run (SettledSteps sampleAddress) started es
    (switched [.relaying 1 (some second)]) ∧
    Sound sampleAddress (switched [.relaying 1 (some second)]) := by
  have hselect : SettledSteps sampleAddress started (.select 1) { started with
      list := { started.list with selected := some 1 }, changes := [⟨second, true, .asked⟩] } :=
    ⟨by decide, by simp [Settled, started, init]⟩
  have hswitch : Run (SettledSteps sampleAddress) { started with
        list := { started.list with selected := some 1 }, changes := [⟨second, true, .asked⟩] }
      ([.change 0 (.resolve true), .change 0 (.route .ok)] ++
        List.replicate 4 (.change 0 .bump) ++ [.change 0 .report, .ui, .ui] ++
        [.tun .accept, .tun .count, .tun .spawn, .tun (.handler 0 .compare),
          .tun (.handler 0 .check)]) (switched [.admitted 1]) :=
    run_settled (by decide) (by simp [Settled])
  have hdial : SettledSteps sampleAddress (switched [.admitted 1])
      (.tun (.handler 0 (.dial (some second)))) (switched [.dialing 1 (some second)]) := by
    refine ⟨by decide, fun tun token _ _ hcut => ?_⟩
    simp [State.Cutting, switched, started, init] at hcut
  have hdialed : Run (SettledSteps sampleAddress) (switched [.dialing 1 (some second)])
      [.tun (.handler 0 .dialed)] (switched [.relaying 1 (some second)]) :=
    run_settled (by decide) (by simp [Settled])
  have hrun := (Run.cons hselect hswitch).append (.cons hdial hdialed)
  exact ⟨_, hrun, switching_sound hrun⟩

/-- The profile is switched while the TUN runs, which nobody tells it. -/
theorem not_switching_sound : ¬ ∀ (address : Str → Ipv4Addr) (prev : NodeList) (parsed : List ProxyNode)
    (running : Bool) (es : List Event) (st : State),
    Run (fun s e t => step address s e = some t) (init address prev parsed running) es st →
      Sound address st := by
  intro h
  have hrun : ([.switchProfile [second], .ui, .ui] : List Event).foldlM (step sampleAddress) started =
      some { started with
        list := ⟨[{ node := second }], some 0⟩, current := some second, conn := 1 } := by decide
  have hroute := (h _ _ _ _ _ _ (run_of_foldlM hrun)).route
    (by simp [State.Quiet, started, init])
  exact absurd (hroute _ _ rfl rfl) (by decide)

end Switching

end RustClash
