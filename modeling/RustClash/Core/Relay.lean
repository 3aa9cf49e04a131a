import Mathlib.Logic.Function.Basic
import RustClash.Lib.Lts
import RustClash.Net.Io

/-!
# The relay

`Relay::copy_bidirectional` copies both ways at once and watches the clock.  Its futures
are polled in any order: a step is one of them coming to the end of what it waits for,
with the answer of the stream or the clock.  Besides its state a half keeps what it has
read, and what it has given to the side that it writes to.
-/

namespace RustClash

namespace Relay

inductive Direction where
  | upload
  | download
deriving DecidableEq

/-- What a side is given. -/
inductive Given where
  | bytes (bs : Bytes)
  | shutdown
deriving DecidableEq

def Given.content : Given → Bytes
  | .bytes bs => bs
  | .shutdown => []

/-- What `copy_half` waits for: the select with the read, `write_all` with what it has left of the
`n` bytes read, or the shutdown of its last line. -/
inductive Await where
  | read
  | writeAll (rest : Bytes) (n : Nat)
  | shutdown
  | returned
deriving DecidableEq

structure Half where
  await : Await
  read : Bytes
  eof : Bool
  given : List Given
  counted : Nat

namespace Half

def start : Half := ⟨.read, [], false, [], 0⟩

/-- The bytes that the side written to has accepted. -/
def written (h : Half) : Bytes := h.given.flatMap Given.content

end Half

/-- The end of what a half waits for. -/
inductive HalfEvent where
  | cancelled
  | read (r : IoResult Bytes)
  | write (r : IoResult Nat)
  | shutdown (r : IoResult Unit)

/-- What a half does to what both halves share. -/
inductive Shared where
  | nothing
  | touchLast
  | cancelStop
deriving DecidableEq

def bufSize : Nat := 64 * 1024

/-- The loop of `copy_half` from one await to the next. -/
def copyHalf (stop : Bool) (h : Half) : HalfEvent → Option (Half × Shared)
  | .cancelled =>
      if h.await = .read ∧ stop then some ({ h with await := .shutdown }, .nothing) else none
  | .read r =>
      if h.await ≠ .read then none
      else
        match r with
        | .error _ => some ({ h with await := .shutdown }, .cancelStop)
        | .ok [] => some ({ h with await := .shutdown, eof := true }, .nothing)
        | .ok (b :: bs) =>
            if bufSize < (b :: bs).length then none
            else
              some ({ h with
                await := .writeAll (b :: bs) (b :: bs).length
                read := h.read ++ b :: bs }, .touchLast)
  | .write r =>
      match h.await with
      | .writeAll rest n =>
          match r with
          | .error _ => some ({ h with await := .returned }, .cancelStop)
          -- `write_all` takes a write of nothing for an error
          | .ok 0 => some ({ h with await := .returned }, .cancelStop)
          | .ok (k + 1) =>
              if rest.length < k + 1 then none
              else
                let given := h.given ++ [.bytes (rest.take (k + 1))]
                if k + 1 = rest.length then
                  some ({ h with await := .read, given, counted := h.counted + n }, .nothing)
                else some ({ h with await := .writeAll (rest.drop (k + 1)) n, given }, .nothing)
      | _ => none
  | .shutdown r =>
      if h.await ≠ .shutdown then none
      else
        match r with
        | .error _ => some ({ h with await := .returned }, .nothing)
        | .ok () => some ({ h with await := .returned, given := h.given ++ [.shutdown] }, .nothing)

/-- Where `copy_bidirectional` is: in the select, behind it with the token cancelled, or done. -/
inductive Phase where
  | select
  | stopping
  | returned
deriving DecidableEq

/-- The futures of `copy_bidirectional`: the clock reads `now`, the last read was at `last`, and the
watcher sleeps until `wake`. -/
structure State where
  halves : Direction → Half
  stop : Bool
  now : Nat
  last : Nat
  wake : Nat
  phase : Phase

def idleMs : Nat := 600000
def sleepMs : Nat := 5000

def State.start (now : Nat) : State :=
  ⟨fun _ => .start, false, now, now, now + sleepMs, .select⟩

inductive Event where
  | half (d : Direction) (e : HalfEvent)
  | elapse (ms : Nat)
  /-- The sleep of `idle_until` is over. -/
  | slept
  /-- `idle_until` sees that the token is cancelled. -/
  | stopSeen
  /-- Both halves have returned. -/
  | joined

namespace State

/-- Nothing was read for as long as the limit. -/
def IdleLimit (st : State) : Prop := idleMs ≤ st.now - st.last

instance (st : State) : Decidable st.IdleLimit := inferInstanceAs (Decidable (_ ≤ _))

/-- The branch of the select that follows `idle_until`. -/
def idle (st : State) : State := { st with stop := true, phase := .stopping }

def share (st : State) : Shared → State
  | .nothing => st
  | .touchLast => { st with last := st.now }
  | .cancelStop => { st with stop := true }

def step (st : State) : Event → Option State
  | .half d e =>
      if st.phase = .returned then none
      else (copyHalf st.stop (st.halves d) e).map fun (h, shared) =>
        ({ st with halves := Function.update st.halves d h } : State).share shared
  | .elapse ms => some { st with now := st.now + ms }
  | .slept =>
      if st.phase = .select ∧ st.wake ≤ st.now then
        if st.IdleLimit then some st.idle else some { st with wake := st.now + sleepMs }
      else none
  | .stopSeen => if st.phase = .select ∧ st.stop then some st.idle else none
  | .joined =>
      if st.phase ≠ .returned ∧ (st.halves .upload).await = .returned ∧
          (st.halves .download).await = .returned then
        some { st with phase := .returned }
      else none

def Steps (st : State) (e : Event) (st' : State) : Prop := st.step e = some st'

end State

end Relay

end RustClash
