import Mathlib.Logic.Function.Basic
import RustClash.Core.Text
import RustClash.Sysproxy.Snapshot

/-!
# The system proxy under GNOME

The settings are keys of `gsettings`, kept here as it prints them; a text that is set is
printed the same, unless it has escapes in it.  The undo file is one line of seven fields.
-/

namespace RustClash

namespace Sysproxy

namespace Gnome

open Prog Str

/-! ## Settings -/

/-- The keys of `org.gnome.system.proxy`, and of `http` and `https` below it. -/
inductive Key where
  | mode
  | useSame
  | httpEnabled
  | httpHost
  | httpPort
  | httpsHost
  | httpsPort
deriving DecidableEq, Repr

abbrev Settings := Key → Str

structure World where
  settings : Settings
  undo : Option Str

inductive Op where
  | query (k : Key)
  | set (k : Key) (v : Str)
  | truncateUndo
  | writeUndo (text : Str)
  | removeUndo
deriving DecidableEq, Repr

def Op.fallible : Op → Bool
  | .query _ => true
  | .set _ _ => true
  | _ => false

def Op.isQuery : Op → Bool
  | .query _ => true
  | _ => false

def effect : Op → World → World
  | .query _, w => w
  | .set k v, w => { w with settings := Function.update w.settings k v }
  | .truncateUndo, w => { w with undo := some [] }
  | .writeUndo text, w => { w with undo := some text }
  | .removeUndo, w => { w with undo := none }

/-- "gsettings failed (non-GNOME desktop?)". -/
inductive Fault where
  | gsettings
deriving DecidableEq, Repr

abbrev Action (α : Type) := Prog World Op Fault α

/-! ## Values -/

/-- What `gget` makes of what is printed. -/
def value (printed : Str) : Str :=
  let t := trim printed
  if startsWith '\'' t ∧ endsWith '\'' t ∧ 2 ≤ t.length then t.tail.dropLast else t

/-- What `gset` writes. -/
def formatted (v : Str) : Str :=
  if v = ['t', 'r', 'u', 'e'] ∨ v = ['f', 'a', 'l', 's', 'e'] ∨ (parseI32 v).isSome then v
  else '\'' :: replaceAll ['\''] ['\\', '\''] (replaceAll ['\\'] ['\\', '\\'] v) ++ ['\'']

def gget (k : Key) : Action (Option Str) := do
  let ok ← attempt (.query k)
  if ok then get fun w => some (value (w.settings k)) else pure none

def gset (k : Key) (v : Str) : Action Unit := must .gsettings (.set k (formatted v))

structure Snap where
  mode : Str
  useSame : Str
  httpHost : Str
  httpPort : Str
  httpEnabled : Str
  httpsHost : Str
  httpsPort : Str
deriving DecidableEq, Repr

def undoText (s : Snap) : Str :=
  join ['\t'] [s.mode, s.useSame, s.httpHost, s.httpPort, s.httpEnabled, s.httpsHost, s.httpsPort]

def writeUndo (s : Snap) : Action Unit := do
  perform .truncateUndo
  perform (.writeUndo (undoText s))

/-- `load_undo`: fields behind the seventh are passed over. -/
def loadUndo (undo : Option Str) : Option Snap :=
  match undo.map (split (· = '\t')) with
  | some (mode :: useSame :: httpHost :: httpPort :: httpEnabled :: httpsHost :: httpsPort :: _) =>
      some { mode, useSame, httpHost, httpPort, httpEnabled, httpsHost, httpsPort := trim httpsPort }
  | _ => none

/-! ## Calls -/

def inboundHost : Str := ['1', '2', '7', '.', '0', '.', '0', '.', '1']

def inboundPort : Str := ['7', '8', '9', '0']

def manual : Str := ['m', 'a', 'n', 'u', 'a', 'l']

def enabled : Str := ['t', 'r', 'u', 'e']

def capture : Action Snap := do
  let mode ← gget .mode
  let useSame ← gget .useSame
  let httpHost ← gget .httpHost
  let httpPort ← gget .httpPort
  let httpEnabled ← gget .httpEnabled
  let httpsHost ← gget .httpsHost
  let httpsPort ← gget .httpsPort
  pure {
    mode := mode.getD ['n', 'o', 'n', 'e']
    useSame := useSame.getD enabled
    httpHost := httpHost.getD []
    httpPort := httpPort.getD ['0']
    httpEnabled := httpEnabled.getD ['f', 'a', 'l', 's', 'e']
    httpsHost := httpsHost.getD []
    httpsPort := httpsPort.getD ['0'] }

def apply : Action Unit := do
  let snap ← capture
  writeUndo snap
  gset .mode manual
  gset .useSame enabled
  gset .httpEnabled enabled
  gset .httpHost inboundHost
  gset .httpPort inboundPort
  gset .httpsHost inboundHost
  gset .httpsPort inboundPort

def applySnap (s : Snap) : Action Unit := do
  ignored (gset .mode s.mode)
  ignored (gset .useSame s.useSame)
  ignored (gset .httpEnabled s.httpEnabled)
  ignored (gset .httpHost s.httpHost)
  ignored (gset .httpPort s.httpPort)
  ignored (gset .httpsHost s.httpsHost)
  ignored (gset .httpsPort s.httpsPort)

def restore : Action Unit := do
  let undo ← get (·.undo)
  match loadUndo undo with
  | some snap => do
      applySnap snap
      perform .removeUndo
  | none => perform .removeUndo

/-- The settings look like those of this client. -/
def Ours (mode host port : Str) : Prop :=
  contains manual mode ∧ contains inboundHost host ∧ trim port = inboundPort

instance (mode host port : Str) : Decidable (Ours mode host port) :=
  inferInstanceAs (Decidable (_ ∧ _))

def recoverOrphaned : Action Unit := do
  let undo ← get (·.undo)
  match loadUndo undo with
  | none => pure ()
  | some snap => do
      let host ← gget .httpHost
      let port ← gget .httpPort
      let mode ← gget .mode
      if Ours (mode.getD []) (host.getD []) (port.getD []) then do
        applySnap snap
        perform .removeUndo
      else perform .removeUndo

def machine : Machine World Op Fault Unit Call where
  effect := effect
  fallible := Op.fallible
  body
    | .on => apply
    | .off => restore
    | .recoverOrphaned => Gnome.recoverOrphaned
  reset w := w

def init (settings : Settings) : Machine.State World Op Fault Unit Call :=
  Machine.start ⟨settings, none⟩

/-! ## What is promised -/

/-- What `set(true)` saves. -/
def snap (s : Settings) : Snap where
  mode := value (s .mode)
  useSame := value (s .useSame)
  httpHost := value (s .httpHost)
  httpPort := value (s .httpPort)
  httpEnabled := value (s .httpEnabled)
  httpsHost := value (s .httpsHost)
  httpsPort := value (s .httpsPort)

def desktop : Desktop World Op Settings Snap where
  effect := effect
  settings := World.settings
  load w := loadUndo w.undo
  snap := snap
  Near _ _ := True
  fallible := Op.fallible
  query := Op.isQuery
  saves := Op.isQuery
  Ours w := Ours (value (w.settings .mode)) (value (w.settings .httpHost)) (value (w.settings .httpPort))

/-- Settings that are printed as they are set again from the undo file. -/
structure Plain (s : Settings) : Prop where
  formatted : ∀ k, formatted (value (s k)) = s k
  field : ∀ k, '\t' ∉ value (s k)
  last : trim (value (s .httpsPort)) = value (s .httpsPort)

end Gnome

end Sysproxy

end RustClash
