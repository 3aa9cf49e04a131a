import Mathlib.Algebra.Group.Nat.Defs
import Mathlib.Data.List.Basic
import RustClash.Lib.Lts

/-!
# Generations of relays

When the node changes, `bump_generation` advances a counter, replaces the token under which
the TUN relays and cancels the old token.  For each connection, `accept_loop` reads the
counter and then the token, and `handle_accepted` compares the counter and looks at the token
before it dials.

Every read and write is one step.  A bump runs under the lock of the TUN service, so bumps
follow one another; `request_stop` comes at any time.
-/

namespace RustClash

namespace Generation

/-! ## State -/

/-- Where `accept_loop` stands with the connection it has accepted last. -/
inductive Accept where
  | waiting
  | accepted
  | counted (gen : Nat)
  | left
deriving DecidableEq, Repr

/-- Where `handle_accepted` stands; `via` is what it dials through. -/
inductive Handler (ν : Type) where
  | start (gen token : Nat)
  /-- The counter has not moved. -/
  | compared (token : Nat)
  /-- The token was not cancelled either. -/
  | admitted (token : Nat)
  | dialing (token : Nat) (via : ν)
  | relaying (token : Nat) (via : ν)
  | rejected
  | cancelled
  | ended
deriving DecidableEq, Repr

/-- Where `bump_generation` stands. -/
inductive Bump where
  | called
  | added
  | made (child : Nat)
  | swapped (old : Nat)
deriving DecidableEq, Repr

/-- The stack.  Tokens are named by their place in `tokens`, which says of each if it is
cancelled; `relay` is the one that `relay_cancel` holds.  `generation` counts the bumps, and
the counter of the source has its low 64 bits. -/
structure State (ν : Type) where
  generation : Nat
  tokens : List Bool
  relay : Nat
  stopped : Bool
  bump : Option Bump
  accept : Accept
  handlers : List (Handler ν)
deriving DecidableEq, Repr

variable {ν : Type}

def init : State ν where
  generation := 0
  tokens := [false]
  relay := 0
  stopped := false
  bump := none
  accept := .waiting
  handlers := []

/-- The token is not cancelled. -/
def State.Live (st : State ν) (token : Nat) : Prop := st.tokens[token]? = some false

instance (st : State ν) (token : Nat) : Decidable (st.Live token) :=
  inferInstanceAs (Decidable (_ = _))

/-! ## Steps -/

inductive HandlerEvent (ν : Type) where
  | compare
  | check
  | dial (via : ν)
  | dialed
  | cancelled
  /-- It ends for a reason of its own. -/
  | finish
deriving DecidableEq, Repr

inductive Event (ν : Type) where
  | accept
  | count
  /-- `accept_loop` reads the token and spawns the handler. -/
  | spawn
  | leave
  | handler (i : Nat) (e : HandlerEvent ν)
  /-- `bump_generation` is called. -/
  | bump
  /-- It takes its next step. -/
  | bumping
  /-- `request_stop` cancels the token that all others are children of. -/
  | stop
  /-- It cancels the relays once more. -/
  | stopRelay
deriving DecidableEq, Repr

/-- Two values of the counter that look the same. -/
def SameCount (gen gen' : Nat) : Prop := gen % 2 ^ 64 = gen' % 2 ^ 64

instance (gen gen' : Nat) : Decidable (SameCount gen gen') := inferInstanceAs (Decidable (_ = _))

def State.handle (st : State ν) : Handler ν → HandlerEvent ν → Option (Handler ν)
  | .start gen token, .compare =>
      some (if SameCount gen st.generation then .compared token else .rejected)
  | .compared token, .check => some (if st.Live token then .admitted token else .rejected)
  | .admitted token, .dial via => some (.dialing token via)
  | .dialing token via, .dialed => some (.relaying token via)
  | .dialing token _, .cancelled => if st.Live token then none else some .cancelled
  | .relaying token _, .cancelled => if st.Live token then none else some .cancelled
  | .start _ _, .finish => some .ended
  | .admitted _, .finish => some .ended
  | .dialing _ _, .finish => some .ended
  | .relaying _ _, .finish => some .ended
  | _, _ => none

def State.bumping (st : State ν) : Bump → State ν
  | .called => { st with generation := st.generation + 1, bump := some .added }
  | .added =>
      { st with tokens := st.tokens ++ [st.stopped], bump := some (.made st.tokens.length) }
  | .made child => { st with relay := child, bump := some (.swapped st.relay) }
  | .swapped old => { st with tokens := st.tokens.set old true, bump := none }

def step (st : State ν) : Event ν → Option (State ν)
  | .accept => if st.accept = .waiting then some { st with accept := .accepted } else none
  | .count =>
      if st.accept = .accepted then some { st with accept := .counted st.generation } else none
  | .spawn =>
      match st.accept with
      | .counted gen => some { st with
          accept := .waiting, handlers := st.handlers ++ [.start gen st.relay] }
      | _ => none
  | .leave =>
      if st.accept = .waiting ∧ st.stopped then some { st with accept := .left } else none
  | .handler i e => do
      let h ← st.handlers[i]?
      let h' ← st.handle h e
      return { st with handlers := st.handlers.set i h' }
  | .bump => if st.bump = none then some { st with bump := some .called } else none
  | .bumping => st.bump.map st.bumping
  | .stop => some { st with stopped := true, tokens := st.tokens.map fun _ => true }
  | .stopRelay =>
      if st.stopped then some { st with tokens := st.tokens.set st.relay true } else none

/-! ## What is promised -/

/-- The counter has been read for the connection `i`. -/
def State.Counted (st : State ν) (i : Nat) : Prop :=
  i < st.handlers.length ∨ i = st.handlers.length ∧ ∃ gen, st.accept = .counted gen

/-- The connection `i` is relayed under a token that is not cancelled. -/
def State.Relays (st : State ν) (i : Nat) : Prop :=
  ∃ token via, st.handlers[i]? = some (.relaying token via) ∧ st.Live token

/-- The token that a handler holds. -/
def Handler.token : Handler ν → Option Nat
  | .start _ token => some token
  | .compared token => some token
  | .admitted token => some token
  | .dialing token _ => some token
  | .relaying token _ => some token
  | _ => none

/-- The handler was neither turned away nor cancelled, and is not about to be. -/
def State.Admits (st : State ν) (h : Handler ν) : Prop :=
  h ≠ .rejected ∧ h ≠ .cancelled ∧ ∀ token, h.token = some token → st.Live token

/-- Where the step compares the counter, it has advanced by less than its range since it
was read. -/
def Timely (st : State ν) : Event ν → Prop
  | .handler i .compare =>
      ∀ gen token, st.handlers[i]? = some (.start gen token) → st.generation < gen + 2 ^ 64
  | _ => True

def TimelySteps (st : State ν) (e : Event ν) (st' : State ν) : Prop :=
  step st e = some st' ∧ Timely st e

end Generation

end RustClash
