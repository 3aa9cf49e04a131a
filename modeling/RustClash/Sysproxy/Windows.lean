import RustClash.Core.Str
import RustClash.Sysproxy.Snapshot

/-!
# The system proxy of Windows

`set` writes values of the registry and keeps what they were in an undo file;
`recover_orphaned` runs when the program starts and finds the settings of a crashed one.  A
thread writes the settings again when it finds them gone.

Every read and write is one step.  Writes of the registry can fail; the undo file is empty
while it is written.  `apply_wininet` passes the same values to WinINet and is left out.
-/

namespace RustClash

namespace Sysproxy

namespace Windows

/-! ## What is outside of the program -/

/-- The values under `Internet Settings`. -/
structure Registry where
  proxyEnable : Option UInt32
  proxyServer : Option Str
  proxyOverride : Option Str
  autoDetect : Option UInt32
  autoConfigUrl : Option Str
deriving DecidableEq, Repr

/-- What `save_undo` writes. -/
structure Undo where
  enable : UInt32
  server : Str
  «override» : Str
deriving DecidableEq, Repr

inductive UndoFile where
  | absent
  | torn
  | saved (u : Undo)
deriving DecidableEq, Repr

/-- The registry and the undo file, and the statics of the process: `APPLIED`, `KEEPALIVE`,
and whether the thread has been started. -/
structure World where
  reg : Registry
  undo : UndoFile
  applied : Bool
  keepalive : Bool
  spawned : Bool
deriving DecidableEq, Repr

inductive Op where
  | createKey
  | setEnable (v : UInt32)
  | setServer (s : Str)
  | setOverride (s : Str)
  /-- `AutoDetect` is set to 0. -/
  | clearAutoDetect
  | deleteAutoConfig
  | notify
  | truncateUndo
  | writeUndo (u : Undo)
  | removeUndo
  | setApplied (b : Bool)
  | setKeepalive (b : Bool)
  | startKeepalive
deriving DecidableEq, Repr

/-- Calls of the registry and of WinINet may fail. -/
def Op.fallible : Op → Bool
  | .createKey => true
  | .setEnable _ => true
  | .setServer _ => true
  | .setOverride _ => true
  | .clearAutoDetect => true
  | .deleteAutoConfig => true
  | .notify => true
  | _ => false

def effect : Op → World → World
  | .createKey, w => w
  | .setEnable v, w => { w with reg := { w.reg with proxyEnable := some v } }
  | .setServer s, w => { w with reg := { w.reg with proxyServer := some s } }
  | .setOverride s, w => { w with reg := { w.reg with proxyOverride := some s } }
  | .clearAutoDetect, w => { w with reg := { w.reg with autoDetect := some 0 } }
  | .deleteAutoConfig, w => { w with reg := { w.reg with autoConfigUrl := none } }
  | .notify, w => w
  | .truncateUndo, w => { w with undo := .torn }
  | .writeUndo u, w => { w with undo := .saved u }
  | .removeUndo, w => { w with undo := .absent }
  | .setApplied b, w => { w with applied := b }
  | .setKeepalive b, w => { w with keepalive := b }
  | .startKeepalive, w => { w with spawned := true }

inductive Fault where
  | createKey
  | setValue (name : String)
  | settingsChanged
  /-- The settings are those of Clash Party. -/
  | clashParty
  | stolen (enable : UInt32) (server : Str)
deriving DecidableEq, Repr

abbrev Action (α : Type) := Prog World Op Fault α

open Prog

/-! ## Reads and writes -/

/-- `127.0.0.1` with the port of the inbound. -/
def inboundServer : Str := ['1', '2', '7', '.', '0', '.', '0', '.', '1', ':', '7', '8', '9', '0']

def bypass : Str :=
  ("localhost;127.*;::1;[::1];10.*;172.16.*;172.17.*;172.18.*;172.19.*;172.20.*;172.21.*;" ++
    "172.22.*;172.23.*;172.24.*;172.25.*;172.26.*;172.27.*;172.28.*;172.29.*;172.30.*;172.31.*;" ++
    "192.168.*;169.254.*;<local>;<loopback>").toList

def Registry.enable (r : Registry) : UInt32 := r.proxyEnable.getD 0

def Registry.server (r : Registry) : Str := r.proxyServer.getD []

/-- The server names this client. -/
def Registry.NamesInbound (r : Registry) : Prop := Str.contains inboundServer r.server

instance (r : Registry) : Decidable r.NamesInbound := inferInstanceAs (Decidable (_ = true))

def currentlyOurs : Action Bool := do
  let enable ← get fun w => w.reg.enable
  if enable = 1 then get fun w => decide w.reg.NamesInbound
  else pure false

def setValues (enable : UInt32) (server ov : Str) : Action Unit := do
  must .createKey .createKey
  must (.setValue "ProxyEnable") (.setEnable enable)
  must (.setValue "ProxyServer") (.setServer server)
  must (.setValue "ProxyOverride") (.setOverride ov)

def applyOn : Action Unit := do
  setValues 1 inboundServer bypass
  perform .clearAutoDetect
  perform .deleteAutoConfig
  must .settingsChanged .notify

def applyOff : Action Unit := setValues 0 [] []

def saveUndo : Action Unit := do
  let enable ← get fun w => w.reg.enable
  let server ← get fun w => w.reg.server
  let ov ← get fun w => w.reg.proxyOverride.getD []
  perform .truncateUndo
  perform (.writeUndo ⟨enable, server, ov⟩)

def restoreUndo : Action Unit := do
  let undo ← get (·.undo)
  match undo with
  | .absent => pure ()
  | .torn => perform .removeUndo
  | .saved u => do
      ignored (setValues u.enable u.server u.override)
      perform .removeUndo

def stolenMsg (enable : UInt32) (server : Str) : Fault :=
  if Str.contains [':', '7', '8', '9', '0'] server then .clashParty else .stolen enable server

/-! ## Calls -/

/-- The settings are applied, and what they were is saved, unless that is done already. -/
def applyOnce : Action Unit := do
  let applied ← get (·.applied)
  if applied then pure ()
  else do
    saveUndo
    applyOn
    perform (.setApplied true)

/-- `set` looks at the settings when they had time to settle. -/
def keepOn : Action Unit := do
  let ours ← currentlyOurs
  if ours then do
    perform (.setKeepalive true)
    perform .startKeepalive
  else do
    perform (.setApplied false)
    perform (.setKeepalive false)
    let server ← get fun w => w.reg.server
    let enable ← get fun w => w.reg.enable
    fail (stolenMsg enable server)

def setOn : Action Unit := do
  applyOnce
  applyOn
  let ours ← currentlyOurs
  if ours then keepOn
  else do
    applyOn
    keepOn

def offIfOurs : Action Unit := do
  let ours ← currentlyOurs
  if ours then applyOff else pure ()

/-- `set` knows the settings for applied, or finds them to be. -/
def appliedOrOurs : Action Bool := do
  let applied ← get (·.applied)
  if applied then pure true else currentlyOurs

def setOff : Action Unit := do
  perform (.setKeepalive false)
  let ours ← appliedOrOurs
  if ours then do
    restoreUndo
    offIfOurs
    perform (.setApplied false)
    perform .notify
  else perform .notify

def recoverOrphaned : Action Unit := do
  perform (.setKeepalive false)
  let ours ← currentlyOurs
  if ours then do
    perform (.setApplied true)
    restoreUndo
    ignored offIfOurs
    perform (.setApplied false)
    perform .notify
  else do
    perform .removeUndo
    perform (.setApplied false)

def machine : Machine World Op Fault Unit Call where
  effect := effect
  fallible := Op.fallible
  body
    | .on => setOn
    | .off => setOff
    | .recoverOrphaned => Windows.recoverOrphaned
  reset w := { w with applied := false, keepalive := false, spawned := false }

/-! ## Calls and the thread that keeps the settings -/

/-- Where the thread stands in its round. -/
inductive Keep where
  | asleep
  /-- `KEEPALIVE` is set. -/
  | flagged
  /-- `ProxyEnable` is ours. -/
  | enabled
  /-- The settings are not ours. -/
  | stray
  /-- `KEEPALIVE` was still set. -/
  | committing (rest : Action Unit)

structure State where
  main : Machine.State World Op Fault Unit Call
  keep : Keep

def init (reg : Registry) (undo : UndoFile) : State :=
  ⟨Machine.start ⟨reg, undo, false, false, false⟩, .asleep⟩

namespace State

def world (st : State) : World := st.main.world

def stepKeep (st : State) (ok : Bool) : Option State :=
  match st.keep with
  | .asleep =>
      if st.world.spawned then
        some { st with keep := if st.world.keepalive then .flagged else .asleep }
      else none
  | .flagged => some { st with keep := if st.world.reg.enable = 1 then .enabled else .stray }
  | .enabled => some { st with keep := if st.world.reg.NamesInbound then .asleep else .stray }
  | .stray =>
      some { st with keep := if st.world.keepalive then .committing applyOn else .asleep }
  | .committing (.done _) => some { st with keep := .asleep }
  | .committing (.look k) => some { st with keep := .committing (k st.world) }
  | .committing (.act o k) => some {
      main := { st.main with world := after effect o ok st.world }
      keep := .committing (k ok) }

end State

inductive Event where
  | main (e : Machine.Event Call)
  | keep (ok : Bool)
deriving DecidableEq, Repr

def step (st : State) : Event → Option State
  | .main .crash => (machine.step st.main .crash).map fun main => ⟨main, .asleep⟩
  | .main e => (machine.step st.main e).map fun main => { st with main }
  | .keep ok => st.stepKeep ok

/-! ## What is promised -/

/-- A call that takes the settings back has ended, and all its writes succeeded. -/
def State.Restored (st : State) : Prop :=
  ∃ k r, k ≠ Call.on ∧ st.main.Ended k true r

/-- The settings point to this client. -/
def Registry.Ours (r : Registry) : Prop := r.enable = 1 ∧ r.NamesInbound

instance (r : Registry) : Decidable r.Ours := inferInstanceAs (Decidable (_ ∧ _))

/-- Settings of which everything that `set` changes is saved. -/
structure Registry.Plain (r : Registry) : Prop where
  enable : r.proxyEnable ≠ none
  server : r.proxyServer ≠ none
  override : r.proxyOverride ≠ none
  autoDetect : r.autoDetect = some 0
  autoConfigUrl : r.autoConfigUrl = none
  notOurs : ¬ r.Ours

/-- What `save_undo` keeps of the settings. -/
def Registry.undo (r : Registry) : Undo := ⟨r.enable, r.server, r.proxyOverride.getD []⟩

def State.Committing (st : State) : Prop := ∃ p, st.keep = .committing p

/-- Where a write fails, or the program is cut off, the settings are those of before, or they
are ours and the undo file has those of before; a write that takes them back does not fail
unless it has nothing to change.  The settings are applied only over those of before, or
again while they are known to be applied, and the thread is not about to write them when it
is told to stop. -/
def Settled (origin : Registry) (st : State) : Event → Prop
  | .main (.call .on) => st.world.applied = true ∨ st.world.reg = origin
  | .main (.go ok) => ∀ k o, st.main.next = some (k, o) →
      (o = .setKeepalive false → ¬ st.Committing) ∧
      (ok = false → st.world.reg = origin ∨ k = .on ∧ st.world.reg.Ours)
  | .main .crash => st.world.reg = origin ∨
      st.world.reg.Ours ∧ st.world.undo = .saved origin.undo
  | _ => True

def SettledSteps (origin : Registry) (st : State) (e : Event) (st' : State) : Prop :=
  step st e = some st' ∧ Settled origin st e

end Windows

end Sysproxy

end RustClash
