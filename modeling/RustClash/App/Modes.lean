import Mathlib.Data.List.Basic
import RustClash.Lib.Lts

/-!
# Proxy mode and enhance mode

`MainView` switches between two modes: in proxy mode the system proxy points to
the local listener, in enhance mode the TUN carries all traffic.  A toggle changes
the flags of the view at once and leaves the rest to a task, which runs beside the
user's next toggles and reports back to the view at its end.

Each call a task awaits is one step, but for `TunService::start`, which takes one
step to begin and one to succeed or fail.  Writing the system proxy and binding
the listener succeed.
-/

namespace RustClash

namespace Modes

/-! ## State -/

/-- Where a task stands.  The tasks of `begin_enhance` know the attempts they have
left, this one included; those that stop the TUN know if they report to the view. -/
inductive Task where
  | silence (attempts : Nat)
  | start (attempts : Nat)
  | starting (attempts : Nat)
  | waiting (attempts : Nat)
  | startFailed (attempts : Nat)
  | startDone (ok : Bool)
  | stop (reports : Bool)
  | listen (reports : Bool)
  | stopDone
deriving DecidableEq, Repr

/-- The flags of `MainView`, `ProxyService` and `TunService`, and the pending tasks. -/
structure State where
  proxyOn : Bool
  enhanceOn : Bool
  enhanceBusy : Bool
  systemProxy : Bool
  listening : Bool
  running : Bool
  starting : Bool
  tasks : List Task
deriving DecidableEq, Repr

/-- The state the program starts in: the listener is up, both modes are off. -/
def init : State where
  proxyOn := false
  enhanceOn := false
  enhanceBusy := false
  systemProxy := false
  listening := true
  running := false
  starting := false
  tasks := []

namespace State

def spawn (st : State) (t : Task) : State := { st with tasks := st.tasks ++ [t] }

def setSystemProxy (st : State) (on : Bool) : State := { st with systemProxy := on }

/-! ## The toggles -/

def toggleProxy (st : State) : State :=
  let on := !st.proxyOn
  let st := if on ∧ st.enhanceOn then { st with enhanceOn := false }.spawn (.stop false) else st
  let st := st.setSystemProxy on
  { st with proxyOn := st.systemProxy }

def beginEnhance (st : State) (attempts : Nat) : State :=
  if st.running then { st with enhanceOn := true, enhanceBusy := false }
  else if st.enhanceBusy then st
  else ({ st with enhanceBusy := true, proxyOn := false }.setSystemProxy false).spawn
    (.silence (max attempts 1))

def stopEnhance (st : State) : State := st.spawn (.stop true)

/-- `toggle_enhance`; it only asks for a node or for elevation where it is not
`available`. -/
def toggleEnhance (st : State) (available : Bool) : State :=
  if !available then st
  else if !st.enhanceOn then st.beginEnhance 1
  else st.stopEnhance

/-! ## The tasks -/

/-- The next step of a task: what it changes and where the task stands then, if it has
not ended.  `ok` says whether a start succeeds; a task that waits for another start
has no step before that one has ended. -/
def advance (st : State) (ok : Bool) : Task → Option (State × Option Task)
  | .silence n => some ({ st with listening := false }, some (.start n))
  | .start n =>
      if st.running then some (st, some (.startDone true))
      else if st.starting then some (st, some (.waiting n))
      else some ({ st with starting := true }, some (.starting n))
  | .starting n =>
      if ok then some ({ st with running := true, starting := false }, some (.startDone true))
      else some ({ st with running := false, starting := false }, some (.startFailed n))
  | .waiting n =>
      if st.starting then none
      else if st.running then some (st, some (.startDone true))
      else some (st, some (.startFailed n))
  | .startFailed n =>
      some ({ st with listening := true },
        some (if 1 < n then .silence (n - 1) else .startDone false))
  | .startDone ok => some ({ st with enhanceOn := ok, enhanceBusy := false }, none)
  | .stop reports => some ({ st with running := false }, some (.listen reports))
  | .listen reports =>
      some ({ st with listening := true }, if reports then some .stopDone else none)
  | .stopDone => some ({ st with enhanceOn := false, enhanceBusy := false }, none)

/-- The tasks with the one at `i` replaced. -/
def resume (tasks : List Task) (i : Nat) (next : Option Task) : List Task :=
  tasks.take i ++ next.toList ++ tasks.drop (i + 1)

end State

/-! ## Runs -/

inductive Event where
  | toggleProxy
  | toggleEnhance (available : Bool)
  /-- The task at place `i` takes its next step. -/
  | task (i : Nat) (ok : Bool)
deriving DecidableEq, Repr

def step (st : State) : Event → Option State
  | .toggleProxy => some st.toggleProxy
  | .toggleEnhance available => some (st.toggleEnhance available)
  | .task i ok => do
      let t ← st.tasks[i]?
      let (st', next) ← st.advance ok t
      return { st' with tasks := State.resume st.tasks i next }

/-- The states that some interleaving of toggles and task steps leads to. -/
def Reachable (st : State) : Prop := ∃ events, Run (fun s e t => step s e = some t) init events st

/-- What the modes promise once nothing is pending. -/
structure Exclusive (st : State) : Prop where
  modes : ¬ (st.proxyOn = true ∧ st.enhanceOn = true)
  enhance : st.enhanceOn = true ↔ st.running = true
  proxy : st.systemProxy = true → st.running = false ∧ st.listening = true

/-- The step does not land in the middle of another switch.  A start that succeeded
reports while the TUN still runs and proxy mode is off; one that failed, and a stop,
report while the TUN is down; the stop that proxy mode asked for comes while enhance
mode is off; and a running TUN is taken over only while proxy mode is off. -/
def Undisturbed (st : State) : Event → Prop
  | .toggleProxy => True
  | .toggleEnhance available =>
      available = true → st.enhanceOn = false → st.running = true → st.proxyOn = false
  | .task i _ =>
      match st.tasks[i]? with
      | some (.startDone true) => st.running = true ∧ st.proxyOn = false
      | some (.startDone false) => st.running = false
      | some (.stop false) => st.enhanceOn = false
      | some .stopDone => st.running = false
      | _ => True

end Modes

end RustClash
