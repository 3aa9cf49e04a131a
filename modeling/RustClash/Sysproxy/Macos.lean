import Mathlib.Algebra.Group.Int.Defs
import RustClash.Core.Text
import RustClash.Sysproxy.Snapshot

/-!
# The system proxy of macOS

Each network service has a web and a secure web proxy, which `networksetup` reports and sets;
setting one also turns it on.  The undo file has a line of seven fields for each service.
-/

namespace RustClash

namespace Sysproxy

namespace Macos

open Prog Str

/-! ## Settings -/

inductive Kind where
  | web
  | secure
deriving DecidableEq, Repr

structure ProxyState where
  enabled : Bool := false
  server : Str := []
  port : Int := 0
deriving DecidableEq, Repr

/-- What `-listallnetworkservices` prints, and the proxies of each service. -/
structure Settings where
  listing : Str
  proxies : Kind → Str → ProxyState

structure World where
  settings : Settings
  undo : Option Str

/-- The settings with one of the proxies put in place. -/
def Settings.put (s : Settings) (kind : Kind) (svc : Str) (st : ProxyState) : Settings :=
  { s with proxies := fun kind' svc' =>
      if kind' = kind ∧ svc' = svc then st else s.proxies kind' svc' }

inductive Op where
  | list
  | query (kind : Kind) (svc : Str)
  | setProxy (kind : Kind) (svc server : Str) (port : Int)
  | setState (kind : Kind) (svc : Str) (on : Bool)
  | truncateUndo
  | writeUndo (text : Str)
  | removeUndo
deriving DecidableEq, Repr

def Op.fallible : Op → Bool
  | .list => true
  | .query _ _ => true
  | .setProxy _ _ _ _ => true
  | .setState _ _ _ => true
  | _ => false

def Op.isQuery : Op → Bool
  | .list => true
  | .query _ _ => true
  | _ => false

/-- A query of a proxy, which `set(true)` saves. -/
def Op.saves : Op → Bool
  | .query _ _ => true
  | _ => false

def effect : Op → World → World
  | .setProxy kind svc server port, w =>
      { w with settings := w.settings.put kind svc ⟨true, server, port⟩ }
  | .setState kind svc on, w =>
      { w with settings := w.settings.put kind svc { w.settings.proxies kind svc with enabled := on } }
  | .truncateUndo, w => { w with undo := some [] }
  | .writeUndo text, w => { w with undo := some text }
  | .removeUndo, w => { w with undo := none }
  | _, w => w

inductive Fault where
  | noServices
  /-- "networksetup … failed". -/
  | networksetup (o : Op)
deriving DecidableEq, Repr

abbrev Action (α : Type) := Prog World Op Fault α

/-! ## Reports -/

def anAsterisk : Str := ['A', 'n', ' ', 'a', 's', 't', 'e', 'r', 'i', 's', 'k']

/-- The services of a listing; those that are disabled are marked. -/
def services (listing : Str) : List Str :=
  ((lines listing).map trim).filter fun line =>
    !line.isEmpty && !anAsterisk.isPrefixOf line && (stripPrefix ['*', ' '] line).isNone

def listServices : Action (List Str) := do
  let ok ← attempt .list
  if ok then get fun w => services w.settings.listing else pure []

def enabledKey : Str := ['E', 'n', 'a', 'b', 'l', 'e', 'd']

def serverKey : Str := ['S', 'e', 'r', 'v', 'e', 'r']

def portKey : Str := ['P', 'o', 'r', 't']

def authenticatedKey : Str :=
  ['A', 'u', 't', 'h', 'e', 'n', 't', 'i', 'c', 'a', 't', 'e', 'd', ' '] ++
    ['P', 'r', 'o', 'x', 'y', ' ', 'E', 'n', 'a', 'b', 'l', 'e', 'd']

def reportLine (key value : Str) : Str := key ++ ':' :: ' ' :: value

/-- What `networksetup` prints of a proxy. -/
def report (st : ProxyState) : Str :=
  reportLine enabledKey (if st.enabled then ['Y', 'e', 's'] else ['N', 'o']) ++
    '\n' :: (reportLine serverKey st.server ++ '\n' :: (reportLine portKey (ofInt st.port) ++
      '\n' :: (reportLine authenticatedKey ['0'] ++ ['\n'])))

def readLine (st : ProxyState) (line : Str) : ProxyState :=
  match splitOnce ':' line with
  | none => st
  | some (k, v) =>
      let v := trim v
      if trim k = enabledKey then { st with enabled := eqIgnoreCase v ['y', 'e', 's'] || v = ['1'] }
      else if trim k = serverKey then { st with server := v }
      else if trim k = portKey then { st with port := (parseI32 v).getD 0 }
      else st

def capture (kind : Kind) (svc : Str) : Action ProxyState := do
  let ok ← attempt (.query kind svc)
  if ok then get fun w => (lines (report (w.settings.proxies kind svc))).foldl readLine {}
  else pure {}

/-! ## The undo file -/

structure ServiceSnap where
  name : Str
  web : ProxyState
  secure : ProxyState
deriving DecidableEq, Repr

def ofBool (b : Bool) : Str := if b then ['t', 'r', 'u', 'e'] else ['f', 'a', 'l', 's', 'e']

def snapLine (x : ServiceSnap) : Str :=
  join ['\t'] [x.name, ofBool x.web.enabled, x.web.server, ofInt x.web.port,
    ofBool x.secure.enabled, x.secure.server, ofInt x.secure.port]

def undoText (snaps : List ServiceSnap) : Str := snaps.flatMap fun x => snapLine x ++ ['\n']

def writeUndo (snaps : List ServiceSnap) : Action Unit := do
  perform .truncateUndo
  perform (.writeUndo (undoText snaps))

/-- A line of fewer fields is passed over, as are fields behind the seventh. -/
def readSnap (line : Str) : Option ServiceSnap :=
  match split (· = '\t') line with
  | name :: webOn :: webServer :: webPort :: secureOn :: secureServer :: securePort :: _ => some {
      name
      web := ⟨eqIgnoreCase webOn (ofBool true), webServer, (parseI32 webPort).getD 0⟩
      secure := ⟨eqIgnoreCase secureOn (ofBool true), secureServer, (parseI32 securePort).getD 0⟩ }
  | _ => none

def loadUndo (undo : Option Str) : Option (List ServiceSnap) :=
  undo.map fun text => (lines text).filterMap readSnap

/-! ## Calls -/

def inboundHost : Str := ['1', '2', '7', '.', '0', '.', '0', '.', '1']

def inboundPort : Int := 7890

def run (o : Op) : Action Unit := must (.networksetup o) o

def captureAll : List Str → Action (List ServiceSnap)
  | [] => pure []
  | svc :: svcs => do
      let web ← capture .web svc
      let secure ← capture .secure svc
      let snaps ← captureAll svcs
      pure (⟨svc, web, secure⟩ :: snaps)

def applyAll : List Str → Action Unit
  | [] => pure ()
  | svc :: svcs => do
      run (.setProxy .web svc inboundHost inboundPort)
      run (.setProxy .secure svc inboundHost inboundPort)
      run (.setState .web svc true)
      run (.setState .secure svc true)
      applyAll svcs

def apply : Action Unit := do
  let svcs ← listServices
  if svcs.isEmpty then fail .noServices
  else do
    let snaps ← captureAll svcs
    writeUndo snaps
    applyAll svcs

def restoreOne (svc : Str) (kind : Kind) (st : ProxyState) : Action Unit :=
  if st.enabled ∧ st.server ≠ [] ∧ 0 < st.port then do
    ignored (run (.setProxy kind svc st.server st.port))
    ignored (run (.setState kind svc true))
  else ignored (run (.setState kind svc false))

def restoreService (s : ServiceSnap) : Action Unit := do
  restoreOne s.name .web s.web
  restoreOne s.name .secure s.secure

def restoreAll : List ServiceSnap → Action Unit
  | [] => pure ()
  | s :: snaps => do
      restoreService s
      restoreAll snaps

def restore : Action Unit := do
  let undo ← get (·.undo)
  match loadUndo undo with
  | some snaps => do
      restoreAll snaps
      perform .removeUndo
  | none => perform .removeUndo

/-- The proxy is this client. -/
def ProxyState.Inbound (st : ProxyState) : Prop :=
  st.enabled ∧ st.server = inboundHost ∧ ofInt st.port = ofInt inboundPort

instance (st : ProxyState) : Decidable st.Inbound := inferInstanceAs (Decidable (_ ∧ _))

def anyInbound : List Str → Action Bool
  | [] => pure false
  | svc :: svcs => do
      let st ← capture .web svc
      if st.Inbound then pure true else anyInbound svcs

def currentlyOurs : Action Bool := do
  let svcs ← listServices
  anyInbound svcs

def recoverOrphaned : Action Unit := do
  let undo ← get (·.undo)
  match loadUndo undo with
  | none => pure ()
  | some snaps => do
      let ours ← currentlyOurs
      if ours then do
        restoreAll snaps
        perform .removeUndo
      else perform .removeUndo

def machine : Machine World Op Fault Unit Call where
  effect := effect
  fallible := Op.fallible
  body
    | .on => apply
    | .off => restore
    | .recoverOrphaned => Macos.recoverOrphaned
  reset w := w

def init (settings : Settings) : Machine.State World Op Fault Unit Call :=
  Machine.start ⟨settings, none⟩

/-! ## What is promised -/

def snap (s : Settings) : List ServiceSnap :=
  (services s.listing).map fun svc => ⟨svc, s.proxies .web svc, s.proxies .secure svc⟩

/-- The services listed are the same, and the others have the proxies that they had; a proxy that
was off has the server that it had. -/
structure Near (origin s : Settings) : Prop where
  listing : s.listing = origin.listing
  others : ∀ kind svc, svc ∉ services origin.listing →
    s.proxies kind svc = origin.proxies kind svc
  off : ∀ kind svc, (origin.proxies kind svc).enabled = false →
    (s.proxies kind svc).server = (origin.proxies kind svc).server ∧
      (s.proxies kind svc).port = (origin.proxies kind svc).port

def desktop : Desktop World Op Settings (List ServiceSnap) where
  effect := effect
  settings := World.settings
  load w := (loadUndo w.undo).filter (!·.isEmpty)
  snap := snap
  Near := Near
  fallible := Op.fallible
  query := Op.isQuery
  saves := Op.saves
  Ours w := ∃ svc ∈ services w.settings.listing, (w.settings.proxies .web svc).Inbound

/-- A proxy that is on with a server and a port, or off with those of this client. -/
def ProxyState.Kept (st : ProxyState) : Prop :=
  if st.enabled then st.server ≠ [] ∧ 0 < st.port ∧ st.port < 2 ^ 31 ∧ '\t' ∉ st.server ∧
    '\n' ∉ st.server ∧ '\r' ∉ st.server ∧ trim st.server = st.server
  else st.server = inboundHost ∧ st.port = inboundPort

/-- Settings of which all is saved and set again. -/
structure Plain (s : Settings) : Prop where
  name : ∀ svc ∈ services s.listing, '\t' ∉ svc ∧ '\n' ∉ svc
  kept : ∀ kind, ∀ svc ∈ services s.listing, (s.proxies kind svc).Kept

end Macos

end Sysproxy

end RustClash
