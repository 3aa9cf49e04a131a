import RustClash.Core.Rules
import RustClash.Lib.Lts

/-!
# Verdicts do not depend on the cache

Callers of `match_domain` and `decide_route` share the cache, and any other caller may
access it between the two accesses of one.  The clock, the entries that make room for
others and their order are arbitrary.

An entry of the cache is the verdict computed from the records for its key
(`Consistent`).  The name a caller asks for goes into its key only, so what it finds is
the verdict on the name (`find_right`).
-/

namespace RustClash

namespace RuleDb

variable (idna : String → Option String) (records : RuleRecords)

/-! ## Callers -/

inductive Call where
  | matchDomain (domain : String)
  | decideRoute (hostPort : Str)
deriving DecidableEq

def Call.find (cache : TtlLru RuleAction) (now : Nat) : Call → Found × TtlLru RuleAction
  | .matchDomain domain => RuleDb.find idna cache now domain
  | .decideRoute hostPort => decide idna cache now hostPort

/-- The verdict that the call is about. -/
def Call.verdict : Call → RuleAction
  | .matchDomain domain => RuleDb.verdict idna records domain
  | .decideRoute hostPort => routeVerdict idna records hostPort

/-- Where a call stands. -/
inductive Caller where
  | start (call : Call)
  /-- Has a verdict to cache. -/
  | store (call : Call) (key : String) (action : RuleAction)
  | done (call : Call) (action : RuleAction)

structure State where
  cache : TtlLru RuleAction
  callers : Nat → Option Caller

/-- The database as `load_bytes` makes it. -/
def State.loaded : State := ⟨.new 4096, fun _ => none⟩

def State.set (st : State) (c : Nat) (caller : Caller) : State :=
  { st with callers := Function.update st.callers c (some caller) }

inductive Action where
  | call (c : Nat) (call : Call)
  /-- The caller accesses the cache, with the readings of the clock and the iteration
  order of the hash map. -/
  | run (c now later : Nat) (order : List String → List String)

def runCaller (st : State) (c now later : Nat) (order : List String → List String) :
    Caller → Option State
  | .start call =>
      match call.find idna st.cache now with
      | (.action action, cache) => some ({ st with cache }.set c (.done call action))
      | (.missed key, cache) =>
          some ({ st with cache }.set c (.store call key (matchDomainUncached records key.toList)))
  | .store call key action =>
      some ({ st with cache := remember st.cache now later order key action }.set c
        (.done call action))
  | .done _ _ => none

def step (st : State) : Action → Option State
  | .call c call => if (st.callers c).isNone then some (st.set c (.start call)) else none
  | .run c now later order => (st.callers c).bind (runCaller idna records st c now later order)

/-- One step of the callers. -/
def Fires (st : State) (a : Action) (st' : State) : Prop := step idna records st a = some st'

/-! ## What is found -/

variable {idna} {records} {cache : TtlLru RuleAction} {st st' : State}

variable (records) in
/-- Every entry is the verdict on its key. -/
def Consistent (cache : TtlLru RuleAction) : Prop :=
  cache.All fun key action _ => action = matchDomainUncached records key.toList

variable (records) in
/-- What is found gives `verdict`, at once or from the records. -/
def Found.Right (verdict : RuleAction) : Found → Prop
  | .action a => a = verdict
  | .missed key => matchDomainUncached records key.toList = verdict

theorem find_right (h : Consistent records cache) (now : Nat) (domain : String) :
    (find idna cache now domain).1.Right records (verdict idna records domain) ∧
      Consistent records (find idna cache now domain).2 := by
  rw [find, verdict]
  split
  · exact ⟨rfl, h⟩
  · cases hip : parseIpAddr (domainToAscii idna domain) with
    | some ip => exact ⟨rfl, h⟩
    | none =>
        have hcache := TtlLru.All.get h now (domainToAscii idna domain)
        cases hget : cache.get now (domainToAscii idna domain) with
        | mk entry cache' =>
            rw [hget] at hcache
            cases entry with
            | none => exact ⟨rfl, hcache⟩
            | some action =>
                obtain ⟨_, _, haction⟩ := TtlLru.All.get_some h (congrArg Prod.fst hget)
                exact ⟨haction, hcache⟩

theorem decide_right (h : Consistent records cache) (now : Nat) (hostPort : Str) :
    (decide idna cache now hostPort).1.Right records (routeVerdict idna records hostPort) ∧
      Consistent records (decide idna cache now hostPort).2 := by
  rw [decide, judge, routeVerdict]
  cases parseIpAddr (String.ofList (routeHost hostPort)) with
  | some ip => exact ⟨rfl, h⟩
  | none => exact find_right h now _

theorem Found.complete_eq {verdict : RuleAction} {found : Found × TtlLru RuleAction}
    (h : found.1.Right records verdict ∧ Consistent records found.2) (r : Readings) :
    (Found.complete records r found).1 = verdict := by
  obtain ⟨found, cache⟩ := found
  cases found with
  | action a => exact h.1
  | missed key => exact h.1

theorem matchDomain_eq (h : Consistent records cache) (r : Readings) (domain : String) :
    (matchDomain idna records cache r domain).1 = verdict idna records domain := by
  rw [matchDomain]
  exact Found.complete_eq (find_right h r.now domain) r

theorem decideRoute_eq (h : Consistent records cache) (r : Readings) (hostPort : Str) :
    (decideRoute idna records cache r hostPort).1 = routeVerdict idna records hostPort := by
  rw [decideRoute]
  exact Found.complete_eq (decide_right h r.now hostPort) r

theorem Call.find_right (h : Consistent records cache) (now : Nat) (call : Call) :
    (call.find idna cache now).1.Right records (call.verdict idna records) ∧
      Consistent records (call.find idna cache now).2 := by
  cases call with
  | matchDomain domain =>
      rw [Call.find, Call.verdict]
      exact RuleDb.find_right h now domain
  | decideRoute hostPort =>
      rw [Call.find, Call.verdict]
      exact decide_right h now hostPort

theorem Consistent.remember (h : Consistent records cache) (now later : Nat)
    (order : List String → List String) (key : String) :
    Consistent records
      (remember cache now later order key (matchDomainUncached records key.toList)) :=
  TtlLru.All.set h rfl later order

/-! ## Runs -/

variable (idna records) in
/-- What a caller has is right. -/
def Caller.Right : Caller → Prop
  | .start _ => True
  | .store call key action =>
      action = matchDomainUncached records key.toList ∧ action = call.verdict idna records
  | .done call action => action = call.verdict idna records

variable (idna records) in
structure Inv (st : State) : Prop where
  consistent : Consistent records st.cache
  callers : ∀ c caller, st.callers c = some caller → caller.Right idna records

theorem Inv.loaded : Inv idna records .loaded where
  consistent := TtlLru.All.new 4096
  callers := by
    intro c caller h
    cases h

/-- A caller moves on with something right, over a consistent cache. -/
theorem Inv.set (h : Inv idna records st) (hcache : Consistent records cache) (c : Nat)
    {caller : Caller} (hright : caller.Right idna records) :
    Inv idna records ({ st with cache }.set c caller) := by
  refine ⟨hcache, fun c' caller' hc' => ?_⟩
  simp only [State.set] at hc'
  by_cases hc : c' = c
  · rw [hc, Function.update_self] at hc'
    cases hc'
    exact hright
  · rw [Function.update_of_ne hc] at hc'
    exact h.callers c' caller' hc'

theorem Inv.step {a : Action} (h : Inv idna records st) (hs : Fires idna records st a st') :
    Inv idna records st' := by
  cases a with
  | call c call =>
      obtain ⟨-, hst⟩ := Option.ite_none_right_eq_some.mp hs
      cases hst
      exact h.set h.consistent c trivial
  | run c now later order =>
      obtain ⟨caller, hcaller, hrun⟩ := Option.bind_eq_some_iff.mp hs
      cases caller with
      | start call =>
          have hfound : (call.find idna st.cache now).1.Right records (call.verdict idna records) ∧
              Consistent records (call.find idna st.cache now).2 := call.find_right h.consistent now
          obtain ⟨hright, hcache⟩ := hfound
          rw [runCaller] at hrun
          split at hrun
          · next action cache hfind =>
              rw [hfind] at hright hcache
              cases hrun
              exact h.set hcache c hright
          · next key cache hfind =>
              rw [hfind] at hright hcache
              cases hrun
              exact h.set hcache c ⟨rfl, hright⟩
      | store call key action =>
          obtain ⟨haction, hright⟩ := h.callers c _ hcaller
          cases hrun
          refine h.set ?_ c hright
          rw [haction]
          exact h.consistent.remember now later order key
      | done call action => cases hrun

theorem inv_of_run {as : List Action} {t : State} (h : Run (Fires idna records) .loaded as t) :
    Inv idna records t :=
  h.invariant (I := Inv idna records) Inv.step Inv.loaded

end RuleDb

end RustClash
