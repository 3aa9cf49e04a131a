import RustClash.Core.Str
import RustClash.Core.TtlLru
import RustClash.Lib.Lts
import RustClash.Net.Addr

/-!
# Concurrent callers of the resolver

`DohResolver::resolve` as a step relation.  A caller is a future at one of its
suspension points or between two of its locked sections, and a step runs one
caller through one section: the sections that hold a lock are atomic, and any
other caller may step between them.  The lookup itself, `resolve_uncached`, is
an await point whose outcome the environment chooses.

At an await point the environment may also drop the future: `HealthChecker`
does so when its timeout fires, and the relays do when their connection is
cancelled.  A dropped future runs no more code of its own.
-/

namespace RustClash

/-- `Result<Vec<IpAddr>>`; an error is its text. -/
abbrev ResolveResult := Except String (List IpAddr)

namespace DohResolver

/-- A broadcast channel, by its number. -/
abbrev Chan := Nat

/-- Where a caller's future stands. -/
inductive Caller where
  /-- Not polled yet. -/
  | start (host : String)
  /-- At the head of the loop. -/
  | check (key : String)
  /-- The cache missed; the in-flight map is looked at next. -/
  | enter (key : String)
  /-- Awaits the result of another caller. -/
  | wait (key : String) (rx : Chan)
  /-- Awaits `resolve_uncached`. -/
  | lead (key : String)
  /-- Has a result to cache. -/
  | store (key : String) (result : ResolveResult)
  /-- Has a result to send. -/
  | publish (key : String) (result : ResolveResult)
  | done (result : ResolveResult)
  | dropped
deriving DecidableEq

structure State where
  cache : TtlLru (Option (List IpAddr))
  inflight : FinMap String Chan
  /-- What was sent on each channel. -/
  sent : Chan → Option ResolveResult
  nextChan : Chan
  callers : Nat → Option Caller

def State.init : State where
  cache := .new 4096
  inflight := ∅
  sent := fun _ => none
  nextChan := 0
  callers := fun _ => none

def State.set (st : State) (c : Nat) (caller : Caller) : State :=
  { st with callers := Function.update st.callers c (some caller) }

/-- `cached`. -/
def cached (cache : TtlLru (Option (List IpAddr))) (now : Nat) (key : String) :
    Option ResolveResult × TtlLru (Option (List IpAddr)) :=
  let (entry, cache) := cache.get now key
  match entry with
  | some (some ips) =>
      if ips.isEmpty then (some (.error "DNS negative cache"), cache) else (some (.ok ips), cache)
  | some none => (some (.error "DNS negative cache"), cache)
  | none => (none, cache)

/-- The readings a section may take: the clock, and the iteration order of the
cache. -/
structure Readings where
  now : Nat
  later : Nat
  order : List String → List String

inductive Action where
  /-- A future of `resolve host` is created. -/
  | call (c : Nat) (host : String)
  /-- The caller runs its next section. -/
  | run (c : Nat) (r : Readings)
  /-- `resolve_uncached` of a leader returns. -/
  | resolved (c : Nat) (result : ResolveResult)
  /-- A future is dropped at an await point, or before its first poll. -/
  | drop (c : Nat)

/-- A sender of the channel is left in the map. -/
def Open (st : State) (rx : Chan) : Prop := rx ∈ st.inflight.entries.map Sigma.snd

instance (st : State) (rx : Chan) : Decidable (Open st rx) :=
  inferInstanceAs (Decidable (_ ∈ _))

variable (idna : String → Option String)

/-- One section of `resolve`.  A waiter whose channel is open and silent has
nothing to run, nor has a leader whose lookup is under way. -/
def runCaller (st : State) (c : Nat) (r : Readings) : Caller → Option State
  | .start host =>
      let key := domainToAscii idna host
      if key.isEmpty then some (st.set c (.done (.error "empty hostname")))
      else match parseIpAddr key with
        | some ip => some (st.set c (.done (.ok [ip])))
        | none => some (st.set c (.check key))
  | .check key =>
      let (hit, cache) := cached st.cache r.now key
      let st := { st with cache }
      match hit with
      | some result => some (st.set c (.done result))
      | none => some (st.set c (.enter key))
  | .enter key =>
      let (hit, cache) := cached st.cache r.now key
      let st := { st with cache }
      match hit with
      | some result => some (st.set c (.done result))
      | none =>
          match st.inflight.lookup key with
          | some tx => some (st.set c (.wait key tx))
          | none => some { st.set c (.lead key) with
              inflight := st.inflight.insert key st.nextChan
              nextChan := st.nextChan + 1 }
  | .wait key rx =>
      match st.sent rx with
      | some result => some (st.set c (.done result))
      | none => if Open st rx then none else some (st.set c (.check key))
  | .store key result =>
      let cache := match result with
        | .ok ips => st.cache.set r.now r.later r.order key (some ips) (some (secs 300))
        | .error _ => st.cache.set r.now r.later r.order key none (some (secs 30))
      some ({ st with cache }.set c (.publish key result))
  | .publish key result =>
      let st := match st.inflight.lookup key with
        | some tx => { st with
            inflight := st.inflight.erase key
            sent := Function.update st.sent tx (some result) }
        | none => st
      some (st.set c (.done result))
  | .lead _ | .done _ | .dropped => none

/-- The future is suspended at an await point, or was not polled yet. -/
def Caller.Suspended : Caller → Prop
  | .start _ | .wait _ _ | .lead _ => True
  | _ => False

instance : DecidablePred Caller.Suspended := fun c => by
  cases c <;> (unfold Caller.Suspended; infer_instance)

def step (st : State) : Action → Option State
  | .call c host => if st.callers c = none then some (st.set c (.start host)) else none
  | .run c r => (st.callers c).bind (runCaller idna st c r)
  | .resolved c result =>
      match st.callers c with
      | some (.lead key) => some (st.set c (.store key result))
      | _ => none
  | .drop c =>
      match st.callers c with
      | some caller => if caller.Suspended then some (st.set c .dropped) else none
      | none => none

end DohResolver

end RustClash
