import Mathlib.Logic.Function.Basic
import RustClash.Lib.Lts

/-!
# Programs that can be cut off

A program acts on a world outside of it.  The world decides whether an act succeeds, an act
that fails changes nothing, and the program may be cut off before any of its acts.

`Safe` is found from a program alone: as long as acts succeed and fail only as the contract
allows, each keeps its guarantee, and what is claimed holds at the end.  A `Machine` runs one
program at a time, and `Upholds` carries what is safe over its runs.  A pattern says of every
act how it goes, each time that it is taken: under a pattern a program has one result, and
leaves one world.
-/

inductive Prog (σ ω ε α : Type) where
  | done (r : Except ε α)
  | look (k : σ → Prog σ ω ε α)
  | act (o : ω) (k : Bool → Prog σ ω ε α)

/-- What may succeed and fail in a state, and what is promised of the acts that are taken. -/
structure Contract (σ ω : Type) where
  allowed : σ → ω → Bool → Prop
  guarantee : σ → ω → Bool → Prop

namespace Prog

variable {σ ω ε ε' α β : Type}

def bind (f : α → Prog σ ω ε β) : Prog σ ω ε α → Prog σ ω ε β
  | done (.ok a) => f a
  | done (.error e) => done (.error e)
  | look k => look fun s => (k s).bind f
  | act o k => act o fun ok => (k ok).bind f

instance : Monad (Prog σ ω ε) where
  pure a := done (.ok a)
  bind x f := x.bind f

def fail (e : ε) : Prog σ ω ε α := done (.error e)

/-- What the program finds in the world. -/
def get (f : σ → α) : Prog σ ω ε α := look fun s => done (.ok (f s))

/-- An act, and whether it succeeded. -/
def attempt (o : ω) : Prog σ ω ε Bool := act o fun ok => done (.ok ok)

/-- An act that may fail. -/
def perform (o : ω) : Prog σ ω ε Unit := act o fun _ => done (.ok ())

/-- An act that has to succeed. -/
def must (e : ε) (o : ω) : Prog σ ω ε Unit :=
  act o fun ok => done (if ok then .ok () else .error e)

/-- The program, whose result is a value also where it fails. -/
def result : Prog σ ω ε α → Prog σ ω ε' (Except ε α)
  | done r => done (.ok r)
  | look k => look fun s => (k s).result
  | act o k => act o fun ok => (k ok).result

/-- The program, whose result does not matter. -/
def ignored : Prog σ ω ε α → Prog σ ω ε' Unit
  | done _ => done (.ok ())
  | look k => look fun s => (k s).ignored
  | act o k => act o fun ok => (k ok).ignored

/-! ## Safety -/

/-- The world after an act. -/
def after (effect : ω → σ → σ) (o : ω) (ok : Bool) (s : σ) : σ := if ok then effect o s else s

@[simp] theorem after_true (effect : ω → σ → σ) (o : ω) (s : σ) :
    after effect o true s = effect o s := rfl

@[simp] theorem after_false (effect : ω → σ → σ) (o : ω) (s : σ) : after effect o false s = s := rfl

def Safe (effect : ω → σ → σ) (C : Contract σ ω) (Q : α → σ → Prop) (E : ε → σ → Prop) :
    Prog σ ω ε α → σ → Prop
  | done (.ok a), s => Q a s
  | done (.error e), s => E e s
  | look k, s => (k s).Safe effect C Q E s
  | act o k, s => ∀ ok, C.allowed s o ok → C.guarantee s o ok ∧
      (k ok).Safe effect C Q E (after effect o ok s)

/-- All acts are of a kind. -/
def Acts (P : ω → Prop) : Prog σ ω ε α → Prop
  | done _ => True
  | look k => ∀ s, (k s).Acts P
  | act o k => P o ∧ ∀ ok, (k ok).Acts P

section

variable {effect : ω → σ → σ} {C : Contract σ ω} {Q : α → σ → Prop} {E : ε → σ → Prop}
  {R : β → σ → Prop} {P : ω → Prop} {s : σ} {a : α} {e : ε} {o : ω}

@[simp] theorem safe_pure : (pure a : Prog σ ω ε α).Safe effect C Q E s ↔ Q a s := Iff.rfl

@[simp] theorem safe_get {f : σ → α} :
    (get f : Prog σ ω ε α).Safe effect C Q E s ↔ Q (f s) s := Iff.rfl

@[simp] theorem safe_attempt {Q : Bool → σ → Prop} :
    (attempt o : Prog σ ω ε Bool).Safe effect C Q E s ↔ ∀ ok, C.allowed s o ok →
      C.guarantee s o ok ∧ Q ok (after effect o ok s) := Iff.rfl

@[simp] theorem safe_perform {Q : Unit → σ → Prop} :
    (perform o : Prog σ ω ε Unit).Safe effect C Q E s ↔ ∀ ok, C.allowed s o ok →
      C.guarantee s o ok ∧ Q () (after effect o ok s) := Iff.rfl

@[simp] theorem safe_must {Q : Unit → σ → Prop} :
    (must e o : Prog σ ω ε Unit).Safe effect C Q E s ↔
      (C.allowed s o true → C.guarantee s o true ∧ Q () (effect o s)) ∧
      (C.allowed s o false → C.guarantee s o false ∧ E e s) := by
  rw [must, Safe, Bool.forall_bool]
  exact And.comm

@[simp] theorem safe_bind {f : α → Prog σ ω ε β} {p : Prog σ ω ε α} :
    (p >>= f).Safe effect C R E s ↔ p.Safe effect C (fun a => (f a).Safe effect C R E) E s := by
  show (p.bind f).Safe effect C R E s ↔ _
  induction p generalizing s with
  | done r => cases r <;> exact Iff.rfl
  | look k ih => exact ih s
  | act o k ih => exact forall₂_congr fun ok _ => and_congr_right fun _ => ih ok

@[simp] theorem safe_result {p : Prog σ ω ε α} {Q : Except ε α → σ → Prop} {E : ε' → σ → Prop} :
    (p.result : Prog σ ω ε' (Except ε α)).Safe effect C Q E s ↔
      p.Safe effect C (fun a => Q (.ok a)) (fun e => Q (.error e)) s := by
  induction p generalizing s with
  | done r => cases r <;> exact Iff.rfl
  | look k ih => exact ih s
  | act o k ih => exact forall₂_congr fun ok _ => and_congr_right fun _ => ih ok

@[simp] theorem safe_ignored {p : Prog σ ω ε α} {Q : Unit → σ → Prop} {E : ε' → σ → Prop} :
    (p.ignored : Prog σ ω ε' Unit).Safe effect C Q E s ↔
      p.Safe effect C (fun _ => Q ()) (fun _ => Q ()) s := by
  induction p generalizing s with
  | done r => cases r <;> exact Iff.rfl
  | look k ih => exact ih s
  | act o k ih => exact forall₂_congr fun ok _ => and_congr_right fun _ => ih ok

theorem Safe.mono {p : Prog σ ω ε α} {Q' : α → σ → Prop} {E' : ε → σ → Prop}
    (h : p.Safe effect C Q E s) (hQ : ∀ a s, Q a s → Q' a s) (hE : ∀ e s, E e s → E' e s) :
    p.Safe effect C Q' E' s := by
  induction p generalizing s with
  | done r =>
      cases r with
      | ok a => exact hQ a s h
      | error e => exact hE e s h
  | look k ih => exact ih s h
  | act o k ih =>
      intro ok hok
      obtain ⟨hg, h⟩ := h ok hok
      exact ⟨hg, ih ok h⟩

/-- A program whose acts change nothing. -/
theorem safe_of_acts {p : Prog σ ω ε α} (hp : p.Acts P) (hP : ∀ o ok, P o →
    C.guarantee s o ok ∧ after effect o ok s = s) :
    p.Safe effect C (fun _ t => t = s) (fun _ t => t = s) s := by
  induction p with
  | done r => cases r <;> rfl
  | look k ih => exact ih s (hp s)
  | act o k ih =>
      intro ok _
      obtain ⟨hg, hs⟩ := hP o ok hp.1
      rw [hs]
      exact ⟨hg, ih ok (hp.2 ok)⟩

/-! ## Programs whose acts all succeed -/

/-- The result, and the world that is left. -/
def sure (effect : ω → σ → σ) : Prog σ ω ε α → σ → Except ε α × σ
  | done r, s => (r, s)
  | look k, s => (k s).sure effect s
  | act o k, s => (k true).sure effect (effect o s)

@[simp] theorem sure_pure : (pure a : Prog σ ω ε α).sure effect s = (.ok a, s) := rfl

@[simp] theorem sure_get {f : σ → α} : (get f : Prog σ ω ε α).sure effect s = (.ok (f s), s) := rfl

@[simp] theorem sure_attempt :
    (attempt o : Prog σ ω ε Bool).sure effect s = (.ok true, effect o s) := rfl

@[simp] theorem sure_perform :
    (perform o : Prog σ ω ε Unit).sure effect s = (.ok (), effect o s) := rfl

theorem sure_bind {p : Prog σ ω ε α} {f : α → Prog σ ω ε β} {t : σ}
    (h : p.sure effect s = (.ok a, t)) : (p >>= f).sure effect s = (f a).sure effect t := by
  show (p.bind f).sure effect s = _
  induction p generalizing s with
  | done r =>
      cases h
      rfl
  | look k ih => exact ih s h
  | act o k ih => exact ih true h

/-! ## Programs that keep an invariant -/

/-- Whatever fails, each act keeps `I`, and the program ends with a value of a kind. -/
def Keeps (effect : ω → σ → σ) (I : σ → Prop) (V : α → Prop) (p : Prog σ ω ε α) : Prop :=
  ∀ s, I s → p.Safe effect ⟨fun _ _ _ => True, fun s o ok => I (after effect o ok s)⟩
    (fun a s => I s ∧ V a) (fun _ s => I s) s

section

variable {I : σ → Prop} {V : α → Prop} {W : β → Prop}

theorem keeps_pure (ha : V a) : (pure a : Prog σ ω ε α).Keeps effect I V := fun _ h => ⟨h, ha⟩

theorem keeps_fail : (fail e : Prog σ ω ε α).Keeps effect I V := fun _ h => h

theorem keeps_get {f : σ → α} (hf : ∀ s, I s → V (f s)) : (get f : Prog σ ω ε α).Keeps effect I V :=
  fun s h => ⟨h, hf s h⟩

theorem keeps_after (ho : ∀ s, I s → I (effect o s)) (ok : Bool) (h : I s) : I (after effect o ok s) := by
  cases ok with
  | true => exact ho s h
  | false => exact h

theorem keeps_attempt (ho : ∀ s, I s → I (effect o s)) :
    (attempt o : Prog σ ω ε Bool).Keeps effect I fun _ => True :=
  fun _ h ok _ => ⟨keeps_after ho ok h, keeps_after ho ok h, trivial⟩

theorem keeps_perform (ho : ∀ s, I s → I (effect o s)) :
    (perform o : Prog σ ω ε Unit).Keeps effect I fun _ => True :=
  fun _ h ok _ => ⟨keeps_after ho ok h, keeps_after ho ok h, trivial⟩

theorem keeps_must (ho : ∀ s, I s → I (effect o s)) :
    (must e o : Prog σ ω ε Unit).Keeps effect I fun _ => True := by
  intro s h
  rw [safe_must]
  exact ⟨fun _ => ⟨ho s h, ho s h, trivial⟩, fun _ => ⟨h, h⟩⟩

theorem Keeps.bind {p : Prog σ ω ε α} {f : α → Prog σ ω ε β} (hp : p.Keeps effect I V)
    (hf : ∀ a, V a → (f a).Keeps effect I W) : (p >>= f).Keeps effect I W := by
  intro s h
  rw [safe_bind]
  exact (hp s h).mono (fun a s h => hf a h.2 s h.1) fun _ _ h => h

theorem Keeps.result {p : Prog σ ω ε α} (hp : p.Keeps effect I V) :
    (p.result : Prog σ ω ε' (Except ε α)).Keeps effect I fun r => ∀ a, r = .ok a → V a := by
  intro s h
  rw [safe_result]
  refine (hp s h).mono (fun a s h => ⟨h.1, ?_⟩) fun e s h => ⟨h, ?_⟩
  · rintro _ ⟨⟩
    exact h.2
  · rintro _ ⟨⟩

theorem Keeps.ignored {p : Prog σ ω ε α} (hp : p.Keeps effect I V) :
    (p.ignored : Prog σ ω ε' Unit).Keeps effect I fun _ => True := by
  intro s h
  rw [safe_ignored]
  exact (hp s h).mono (fun _ _ h => ⟨h.1, trivial⟩) fun _ _ h => ⟨h, trivial⟩

end

@[simp] theorem acts_perform : (perform o : Prog σ ω ε Unit).Acts P ↔ P o :=
  and_iff_left fun _ => trivial

@[simp] theorem acts_must : (must e o : Prog σ ω ε Unit).Acts P ↔ P o :=
  and_iff_left fun _ => trivial

theorem Acts.bind {p : Prog σ ω ε α} {f : α → Prog σ ω ε β} (hp : p.Acts P)
    (hf : ∀ a, (f a).Acts P) : (p >>= f).Acts P := by
  show (p.bind f).Acts P
  induction p with
  | done r =>
      cases r with
      | ok a => exact hf a
      | error e => exact trivial
  | look k ih => exact fun s => ih s (hp s)
  | act o k ih => exact ⟨hp.1, fun ok => ih ok (hp.2 ok)⟩

end

end Prog

/-! ## Machines -/

/-- The calls that may be made, which of their acts can fail, and what is left of the world
when one is cut off. -/
structure Machine (σ ω ε α κ : Type) where
  effect : ω → σ → σ
  fallible : ω → Bool
  body : κ → Prog σ ω ε α
  reset : σ → σ

namespace Machine

variable {σ ω ε α κ : Type}

/-- A call that has been made, what is left of it, and whether all its acts succeeded. -/
structure Pending (σ ω ε α κ : Type) where
  kind : κ
  rest : Prog σ ω ε α
  clean : Bool

structure State (σ ω ε α κ : Type) where
  world : σ
  call : Option (Pending σ ω ε α κ)

inductive Event (κ : Type) where
  | call (k : κ)
  /-- The pending call takes its next step; if that is an act, it succeeds or not. -/
  | go (ok : Bool)
  | ret
  | crash
deriving DecidableEq, Repr

def start (s : σ) : State σ ω ε α κ := ⟨s, none⟩

def go (M : Machine σ ω ε α κ) (s : σ) (c : Pending σ ω ε α κ) (ok : Bool) :
    Option (State σ ω ε α κ) :=
  match c.rest with
  | .done _ => none
  | .look k => some ⟨s, some { c with rest := k s }⟩
  | .act o k =>
      if ok || M.fallible o then some ⟨Prog.after M.effect o ok s,
        some { c with rest := k ok, clean := c.clean && ok }⟩
      else none

def step (M : Machine σ ω ε α κ) (st : State σ ω ε α κ) : Event κ → Option (State σ ω ε α κ)
  | .call k =>
      match st.call with
      | none => some ⟨st.world, some ⟨k, M.body k, true⟩⟩
      | some _ => none
  | .go ok => do M.go st.world (← st.call) ok
  | .ret =>
      match st.call with
      | some ⟨_, .done _, _⟩ => some ⟨st.world, none⟩
      | _ => none
  | .crash => some ⟨M.reset st.world, none⟩

/-- The act that the pending call is about to take. -/
def State.next (st : State σ ω ε α κ) : Option (κ × ω) :=
  match st.call with
  | some ⟨k, .act o _, _⟩ => some (k, o)
  | _ => none

theorem State.call_of_next {st : State σ ω ε α κ} {k : κ} {o : ω} (h : st.next = some (k, o)) :
    ∃ c, st.call = some c ∧ c.kind = k := by
  simp only [State.next] at h
  split at h
  · next hc =>
      cases h
      exact ⟨_, hc, rfl⟩
  · cases h

/-- A call of the kind has ended with the result. -/
def State.Ended (st : State σ ω ε α κ) (k : κ) (clean : Bool) (r : Except ε α) : Prop :=
  st.call = some ⟨k, .done r, clean⟩

/-! ## What a machine upholds -/

/-- `Idle` holds between two calls, and a pending call is safe. -/
structure Upholds (M : Machine σ ω ε α κ) (C : κ → Contract σ ω) (Idle : σ → Prop)
    (Q : κ → α → σ → Prop) (E : κ → ε → σ → Prop) (st : State σ ω ε α κ) : Prop where
  idle : st.call = none → Idle st.world
  safe : ∀ c, st.call = some c →
    c.rest.Safe M.effect (C c.kind) (Q c.kind) (E c.kind) st.world

variable {M : Machine σ ω ε α κ} {C : κ → Contract σ ω} {Idle : σ → Prop}
  {Q : κ → α → σ → Prop} {E : κ → ε → σ → Prop} {st st' : State σ ω ε α κ}

theorem upholds_idle {s : σ} (h : Idle s) : Upholds M C Idle Q E ⟨s, none⟩ :=
  ⟨fun _ => h, by simp⟩

theorem Upholds.ended (h : Upholds M C Idle Q E st) {k : κ} {clean : Bool} {r : Except ε α}
    (hr : st.Ended k clean r) : (Prog.done r).Safe M.effect (C k) (Q k) (E k) st.world :=
  h.safe _ hr

/-- The act that is taken keeps the guarantee. -/
theorem Upholds.guarantee (h : Upholds M C Idle Q E st) {k : κ} {o : ω} {ok : Bool}
    (hnext : st.next = some (k, o)) (hok : (C k).allowed st.world o ok) :
    (C k).guarantee st.world o ok := by
  simp only [State.next] at hnext
  split at hnext
  · next hc =>
      cases hnext
      exact (h.safe _ hc ok hok).1
  · cases hnext

theorem step_call {k : κ} (hs : M.step st (.call k) = some st') :
    st'.world = st.world ∧ st'.call = some ⟨k, M.body k, true⟩ := by
  simp only [Machine.step] at hs
  split at hs <;> cases hs
  exact ⟨rfl, rfl⟩

theorem step_ret (hs : M.step st .ret = some st') : st'.world = st.world ∧ st'.call = none := by
  simp only [Machine.step] at hs
  split at hs <;> cases hs
  exact ⟨rfl, rfl⟩

/-- Either the call looked at the world, or it took its act. -/
theorem step_go {ok : Bool} (hs : M.step st (.go ok) = some st') :
    (∃ c c', st.call = some c ∧ st'.call = some c' ∧ c'.kind = c.kind) ∧
      (st'.world = st.world ∨
        ∃ k o, st.next = some (k, o) ∧ (ok = false → M.fallible o = true) ∧
          st'.world = Prog.after M.effect o ok st.world) := by
  obtain ⟨⟨k, rest, clean⟩, hc, hs⟩ := Option.bind_eq_some_iff.mp hs
  cases rest with
  | done r => cases hs
  | look f =>
      cases hs
      exact ⟨⟨_, _, hc, rfl, rfl⟩, .inl rfl⟩
  | act o f =>
      obtain ⟨hok, ⟨⟩⟩ := Option.ite_none_right_eq_some.mp hs
      refine ⟨⟨_, _, hc, rfl, rfl⟩, .inr ⟨k, o, by rw [State.next, hc], ?_, rfl⟩⟩
      rintro rfl
      simpa using hok

/-- If calls are safe where they are made, acts succeed and fail as allowed, and a call is cut
off only where the reset leaves the machine idle, the machine upholds it all. -/
theorem Upholds.step (h : Upholds M C Idle Q E st) {e : Event κ} (hs : M.step st e = some st')
    (hcall : ∀ k, e = .call k → Idle st.world →
      (M.body k).Safe M.effect (C k) (Q k) (E k) st.world)
    (hgo : ∀ ok k o, e = .go ok → st.next = some (k, o) → (ok = false → M.fallible o = true) →
      (C k).allowed st.world o ok)
    (hQ : ∀ k a s, Q k a s → Idle s) (hE : ∀ k x s, E k x s → Idle s)
    (hcrash : e = .crash → Idle (M.reset st.world)) : Upholds M C Idle Q E st' := by
  cases e with
  | call k =>
      simp only [Machine.step] at hs
      split at hs
      · next hnone =>
          cases hs
          refine ⟨by simp, fun c hc => ?_⟩
          cases hc
          exact hcall k rfl (h.idle hnone)
      · cases hs
  | go ok =>
      obtain ⟨c, hc, hs⟩ := Option.bind_eq_some_iff.mp hs
      have hsafe := h.safe c hc
      simp only [Machine.go] at hs
      split at hs
      · cases hs
      · next k hrest =>
          cases hs
          refine ⟨by simp, fun d hd => ?_⟩
          cases hd
          rw [hrest] at hsafe
          exact hsafe
      · next o k hrest =>
          obtain ⟨hok, ⟨⟩⟩ := Option.ite_none_right_eq_some.mp hs
          refine ⟨by simp, fun d hd => ?_⟩
          cases hd
          have hfail : ok = false → M.fallible o = true := by
            rintro rfl
            simpa using hok
          have hnext : st.next = some (c.kind, o) := by
            rw [State.next, hc]
            cases c
            cases hrest
            rfl
          rw [hrest] at hsafe
          exact (hsafe ok (hgo ok c.kind o rfl hnext hfail)).2
  | ret =>
      simp only [Machine.step] at hs
      split at hs
      · next k r clean hc =>
          cases hs
          refine upholds_idle ?_
          have hsafe := h.safe _ hc
          cases r with
          | ok a => exact hQ k a _ hsafe
          | error x => exact hE k x _ hsafe
      · cases hs
  | crash =>
      cases hs
      exact upholds_idle (hcrash rfl)

/-! ## Settled runs -/

/-- Steps whose calls are made where they may be, whose acts go as the contract allows, and
which cut nothing off unless it can be left as it is. -/
def Settled (C : κ → Contract σ ω) (Callable : κ → σ → Prop) (Leaves : σ → Prop)
    (st : State σ ω ε α κ) : Event κ → Prop
  | .call k => Callable k st.world
  | .go ok => ∀ k o, st.next = some (k, o) → (C k).allowed st.world o ok
  | .ret => True
  | .crash => Leaves st.world

def SettledSteps (M : Machine σ ω ε α κ) (C : κ → Contract σ ω) (Callable : κ → σ → Prop)
    (Leaves : σ → Prop) (st : State σ ω ε α κ) (e : Event κ) (st' : State σ ω ε α κ) : Prop :=
  M.step st e = some st' ∧ Settled C Callable Leaves st e

variable {Callable : κ → σ → Prop} {Leaves : σ → Prop} {es : List (Event κ)}

/-- If every act keeps `I`, it holds all the time. -/
theorem invariant_run {I : σ → Prop} {s : σ}
    (hcall : ∀ k s, Idle s → Callable k s → (M.body k).Safe M.effect (C k) (Q k) (E k) s)
    (hQ : ∀ k a s, Q k a s → Idle s) (hE : ∀ k x s, E k x s → Idle s)
    (hI : ∀ k s o ok, (C k).guarantee s o ok → I s → I (Prog.after M.effect o ok s))
    (hcrash : ∀ s, I s → Leaves s → I (M.reset s) ∧ Idle (M.reset s))
    (h : Run (SettledSteps M C Callable Leaves) (start s) es st) (hidle : Idle s) (hs : I s) :
    Upholds M C Idle Q E st ∧ I st.world := by
  refine h.invariant (I := fun st => Upholds M C Idle Q E st ∧ I st.world) ?_
    ⟨upholds_idle hidle, hs⟩
  rintro st e st' ⟨hup, hi⟩ ⟨hs, hset⟩
  have hstep := hup.step hs (fun k hk hidle => hcall k _ hidle (by subst hk; exact hset))
    (fun ok k o hk hnext _ => by subst hk; exact hset k o hnext) hQ hE
    (fun hk => (hcrash _ hi (by subst hk; exact hset)).2)
  refine ⟨hstep, ?_⟩
  cases e with
  | call k => exact (step_call hs).1 ▸ hi
  | go ok =>
      obtain ⟨-, hworld | ⟨k, o, hnext, -, hworld⟩⟩ := step_go hs
      · exact hworld ▸ hi
      · rw [hworld]
        exact hI k _ o ok (hup.guarantee hnext (hset k o hnext)) hi
  | ret => exact (step_ret hs).1 ▸ hi
  | crash =>
      cases hs
      exact (hcrash _ hi hset).1

/-- What every call keeps, and what a crash leaves, holds all the time. -/
theorem kept_run {I : σ → Prop} {P : κ → Prop} {s : σ}
    (hbody : ∀ k, P k → (M.body k).Keeps M.effect I fun _ => True)
    (hreset : ∀ s, I s → I (M.reset s))
    (h : Run (fun s e t => M.step s e = some t ∧ ∀ k, e = .call k → P k) (start s) es st) (hs : I s) :
    I st.world := by
  have hrun : Run (SettledSteps M (fun _ => ⟨fun _ _ _ => True, fun s o ok => I (Prog.after M.effect o ok s)⟩)
      (fun k _ => P k) fun _ => True) (start s) es st := by
    refine h.mono ?_
    rintro s e t ⟨hs, hcall⟩
    refine ⟨hs, ?_⟩
    cases e with
    | call k => exact hcall k rfl
    | go ok => exact fun _ _ _ => trivial
    | ret => trivial
    | crash => trivial
  exact (invariant_run (Q := fun _ _ s => I s ∧ True) (E := fun _ _ s => I s)
    (fun k s hs hk => hbody k hk s hs) (fun _ _ _ h => h.1) (fun _ _ _ h => h)
    (fun _ _ _ _ hg _ => hg) (fun s hs _ => ⟨hreset s hs, hreset s hs⟩) hrun hs hs).2

/-- A call whose acts all succeed ends as `sure` says. -/
theorem sure_of_ended {n : Nat} {k : κ} {p : Prog σ ω ε α} {s : σ} {clean clean' : Bool}
    {r : Except ε α}
    (h : (List.replicate n (.go true)).foldlM M.step ⟨s, some ⟨k, p, clean⟩⟩ = some st)
    (hend : st.Ended k clean' r) : p.sure M.effect s = (r, st.world) := by
  induction n generalizing p s clean with
  | zero =>
      cases h
      cases hend
      rfl
  | succ n ih =>
      rw [List.replicate_succ, List.foldlM_cons] at h
      obtain ⟨st₁, hs, h⟩ := Option.bind_eq_some_iff.mp h
      cases p with
      | done r => cases hs
      | look f =>
          cases hs
          exact ih (p := f s) h
      | act o f =>
          cases hs
          exact ih (p := f true) h

end Machine

/-! ## Programs whose acts go as a pattern says -/

namespace Prog

variable {σ ω ε ε' α β : Type} [DecidableEq ω]

/-- How an act goes when it has been taken so many times. -/
abbrev Outcomes (ω : Type) := ω → Nat → Bool

/-- The outcomes that are left once an act has been taken. -/
def Outcomes.past (outs : Outcomes ω) (o : ω) : Outcomes ω :=
  Function.update outs o fun n => outs o (n + 1)

theorem Outcomes.past_self (outs : Outcomes ω) (o : ω) (n : Nat) :
    outs.past o o n = outs o (n + 1) := by
  rw [past, Function.update_self]

theorem Outcomes.past_of_ne (outs : Outcomes ω) {o o' : ω} (h : o' ≠ o) :
    outs.past o o' = outs o' := by
  rw [past, Function.update_of_ne h]

/-- The result, the outcomes that are left, and the world. -/
def play (effect : ω → σ → σ) : Prog σ ω ε α → Outcomes ω → σ → Except ε α × Outcomes ω × σ
  | done r, outs, s => (r, outs, s)
  | look k, outs, s => (k s).play effect outs s
  | act o k, outs, s => (k (outs o 0)).play effect (outs.past o) (after effect o (outs o 0) s)

variable {effect : ω → σ → σ} {outs outs' : Outcomes ω} {s s' : σ} {o : ω} {a : α} {e : ε}

theorem play_attempt : (attempt o : Prog σ ω ε Bool).play effect outs s =
    (.ok (outs o 0), outs.past o, after effect o (outs o 0) s) := rfl

theorem play_perform : (perform o : Prog σ ω ε Unit).play effect outs s =
    (.ok (), outs.past o, after effect o (outs o 0) s) := rfl

theorem play_must : (must e o : Prog σ ω ε Unit).play effect outs s =
    (if outs o 0 then .ok () else .error e, outs.past o, after effect o (outs o 0) s) := rfl

theorem play_bind_ok {p : Prog σ ω ε α} {f : α → Prog σ ω ε β}
    (h : p.play effect outs s = (.ok a, outs', s')) :
    (p >>= f).play effect outs s = (f a).play effect outs' s' := by
  show (p.bind f).play effect outs s = _
  induction p generalizing outs s with
  | done r =>
      cases h
      rfl
  | look k ih => exact ih s h
  | act o k ih => exact ih _ h

theorem play_bind_error {p : Prog σ ω ε α} {f : α → Prog σ ω ε β}
    (h : p.play effect outs s = (.error e, outs', s')) :
    (p >>= f).play effect outs s = (.error e, outs', s') := by
  show (p.bind f).play effect outs s = _
  induction p generalizing outs s with
  | done r =>
      cases h
      rfl
  | look k ih => exact ih s h
  | act o k ih => exact ih _ h

theorem play_result {p : Prog σ ω ε α} {r : Except ε α}
    (h : p.play effect outs s = (r, outs', s')) :
    (p.result : Prog σ ω ε' (Except ε α)).play effect outs s = (.ok r, outs', s') := by
  induction p generalizing outs s with
  | done r =>
      cases h
      rfl
  | look k ih => exact ih s h
  | act o k ih => exact ih _ h

end Prog
