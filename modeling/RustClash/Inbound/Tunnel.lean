import RustClash.Core.Relay
import RustClash.Inbound.Http

/-!
# The tunnel of a CONNECT request

`tunnel_connect` reads the client while it dials, answers it, waits for the first record
of a TLS handshake and sends it on in one piece, and hands both streams to the relay.  A
step is one of its futures coming to its end, with the answer of the stream, the dial or
the clock.
-/

namespace RustClash

namespace Inbound.Tunnel

open Str

def maxEarly : Nat := 256 * 1024

/-- The sizes of the buffers that the client is read into while the dial is under way, and
for the first record. -/
def tmpSize : Nat := 16384
def helloSize : Nat := 8192

def response : Bytes := bytes "HTTP/1.1 200 Connection Established\r\n\r\n".toList

/-- What `tunnel_connect` waits for. -/
inductive Phase where
  /-- The select of the dial and a read of the client. -/
  | dialing (early : Bytes)
  /-- `write_all` of the response, with what it has left, and the flush behind it. -/
  | replying (early rest : Bytes)
  | flushing (early : Bytes)
  /-- The read of the client in `flush_first_record`, or five seconds. -/
  | hello (ms : Bytes)
  /-- `write_all` on the destination, with what it has left, and the pieces behind it. -/
  | sending (rest : Bytes) (pieces : List Bytes)
  | settling
  /-- `flush_first_record` has returned. -/
  | coalesced
  | relaying
  /-- The answer is that of `write_http_error`. -/
  | returned (answer : Option (Nat × String))
deriving DecidableEq

/-! ## The first record -/

def completeRecordLen (data : Bytes) : Option Nat :=
  match data with
  | b :: _ :: _ :: hi :: lo :: _ =>
      let frag := hi.toNat <<< 8 ||| lo.toNat
      if b ≠ 0x16 ∨ 16 * 1024 < frag then none
      else if 5 + frag ≤ data.length then some (5 + frag)
      else none
  | _ => none

/-- The writes of the pieces; `write_all` of nothing returns at once. -/
def send (pieces : List Bytes) : Phase :=
  match pieces.filter (!·.isEmpty) with
  | [] => .settling
  | rest :: pieces => .sending rest pieces

/-- `flush_first_record` up to the next await, from its start or from a read that was not
empty. -/
def flushFirstRecord (ms : Bytes) : Phase :=
  if ms.head?.any (· ≠ 0x16) then send [ms]
  else match completeRecordLen ms with
    | some rec => send [ms.take rec, ms.drop rec]
    | none => if 16 * 1024 ≤ ms.length then send [ms] else .hello ms

/-! ## Steps -/

/-- The tunnel, with what was read from the client and written to both sides before the
relay. -/
structure State where
  phase : Phase
  fromClient : Bytes
  toClient : Bytes
  toDest : Bytes
  relay : Option Relay.State

inductive Event where
  | aborted
  | dialed (r : Except String Unit)
  | clientRead (r : IoResult Bytes)
  | clientWritten (r : IoResult Nat)
  | clientFlushed (r : IoResult Unit)
  | timeout
  | destWritten (r : IoResult Nat)
  | destFlushed (r : IoResult Unit)
  /-- The relay starts at the time `now`. -/
  | relayed (now : Nat)
  | relay (e : Relay.Event)

/-- What a write leaves of `rest`: the part written and the part left, nothing if the write
failed.  No stream writes more than it is offered. -/
def writeAll (rest : Bytes) : IoResult Nat → Option (Option (Bytes × Bytes))
  | .error _ => some none
  -- `write_all` takes a write of nothing for an error
  | .ok 0 => some none
  | .ok (k + 1) =>
      if rest.length < k + 1 then none else some (some (rest.take (k + 1), rest.drop (k + 1)))

namespace State

def start (leftover : Bytes) : State where
  phase := if maxEarly < leftover.length then
      .returned (some (400, "CONNECT early buffer limit exceeded"))
    else .dialing leftover
  fromClient := []
  toClient := []
  toDest := []
  relay := none

/-- What a read of the client comes to. -/
def clientRead (st : State) : IoResult Bytes → Option State
  | .error _ =>
      match st.phase with
      | .dialing _ => some { st with phase := .returned none }
      | .hello _ => some { st with phase := .coalesced }
      | _ => none
  | .ok [] =>
      match st.phase with
      | .dialing _ => some { st with phase := .returned none }
      | .hello ms => some { st with phase := send [ms] }
      | _ => none
  | .ok (b :: bs) =>
      match st.phase with
      | .dialing early =>
          if tmpSize < (b :: bs).length then none
          else some { st with
            phase := if maxEarly < early.length + (b :: bs).length then
                .returned (some (400, "CONNECT early buffer limit exceeded"))
              else .dialing (early ++ b :: bs)
            fromClient := st.fromClient ++ b :: bs }
      | .hello ms =>
          if helloSize < (b :: bs).length then none
          else some { st with
            phase := flushFirstRecord (ms ++ b :: bs)
            fromClient := st.fromClient ++ b :: bs }
      | _ => none

/-- What a write on the client comes to. -/
def clientWritten (st : State) (r : IoResult Nat) : Option State :=
  match st.phase with
  | .replying early rest => (writeAll rest r).map fun
      | none => { st with phase := .returned none }
      | some (written, rest) => { st with
          phase := if rest.isEmpty then .flushing early else .replying early rest
          toClient := st.toClient ++ written }
  | _ => none

/-- What a write on the destination comes to. -/
def destWritten (st : State) (r : IoResult Nat) : Option State :=
  match st.phase with
  | .sending rest pieces => (writeAll rest r).map fun
      | none => { st with phase := .coalesced }
      | some (written, rest) => { st with
          phase := send (rest :: pieces)
          toDest := st.toDest ++ written }
  | _ => none

def step (st : State) : Event → Option State
  | .aborted =>
      match st.phase with
      | .dialing _ | .relaying => some { st with phase := .returned none }
      | _ => none
  | .dialed r =>
      match st.phase, r with
      | .dialing early, .ok () => some { st with phase := .replying early response }
      | .dialing _, .error _ =>
          some { st with phase := .returned (some (503, "Failed to reach destination")) }
      | _, _ => none
  | .clientRead r => st.clientRead r
  | .clientWritten r => st.clientWritten r
  | .clientFlushed r =>
      match st.phase, r with
      | .flushing early, .ok () => some { st with phase := flushFirstRecord early }
      | .flushing _, .error _ => some { st with phase := .returned none }
      | _, _ => none
  | .timeout =>
      match st.phase with
      | .hello ms => some { st with phase := send [ms] }
      | _ => none
  | .destWritten r => st.destWritten r
  | .destFlushed _ =>
      match st.phase with
      | .settling => some { st with phase := .coalesced }
      | _ => none
  | .relayed now =>
      match st.phase with
      | .coalesced => some { st with phase := .relaying, relay := some (.start now) }
      | _ => none
  | .relay e =>
      match st.phase, st.relay with
      | .relaying, some r => (r.step e).map fun r => { st with
          phase := if r.phase = .returned then .returned none else .relaying
          relay := some r }
      | _, _ => none

def Steps (st : State) (e : Event) (st' : State) : Prop := st.step e = some st'

/-! ## What was carried -/

/-- A half of the relay, if it has started. -/
def half (st : State) (d : Relay.Direction) : Relay.Half :=
  (st.relay.map (·.halves d)).getD .start

/-- All that was read from the client after the header. -/
def sent (st : State) : Bytes := st.fromClient ++ (st.half .upload).read

/-- All that the destination was given. -/
def forwarded (st : State) : Bytes := st.toDest ++ (st.half .upload).written

/-- All that was read from the destination. -/
def fetched (st : State) : Bytes := (st.half .download).read

/-- All that the client was given. -/
def answered (st : State) : Bytes := st.toClient ++ (st.half .download).written

end State

end Inbound.Tunnel

end RustClash
