import RustClash.Lib.Sink
import RustClash.Net.Io

/-!
# Buffers that are written through a cursor

`poll_write_buf` of the runtime offers what is behind the cursor, once, and moves the
cursor by what was accepted.  A cursor at its end counts as written.
-/

namespace RustClash

/-- `Cursor<Vec<u8>>`. -/
structure Cursor where
  data : Bytes
  pos : Nat
deriving DecidableEq

namespace Cursor

def new (data : Bytes) : Cursor := ⟨data, 0⟩

/-- What is behind the cursor. -/
def remaining (cur : Cursor) : Bytes := cur.data.drop cur.pos

def advance (cur : Cursor) (n : Nat) : Cursor := { cur with pos := cur.pos + n }

@[simp] theorem remaining_new (data : Bytes) : (new data).remaining = data := rfl

theorem remaining_advance (cur : Cursor) (n : Nat) :
    (cur.advance n).remaining = cur.remaining.drop n := by
  rw [remaining, remaining, advance, List.drop_drop]

theorem remaining_eq_nil {cur : Cursor} : cur.remaining = [] ↔ cur.data.length ≤ cur.pos :=
  List.drop_eq_nil_iff

end Cursor

variable {σ : Type} [AsyncWrite σ]

def pollWriteBuf (inner : σ) (cur : Cursor) : Poll (IoResult Nat) × Cursor × σ :=
  if cur.remaining.isEmpty then (.ready (.ok 0), cur, inner)
  else
    match pollWrite inner cur.remaining with
    | (.pending, inner) => (.pending, cur, inner)
    | (.ready (.error e), inner) => (.ready (.error e), cur, inner)
    | (.ready (.ok n), inner) => (.ready (.ok n), cur.advance n, inner)

/-- Either the cursor comes nearer to its end, or the sink may answer with nothing less often. -/
theorem pollWriteBuf_lt (bound : ZeroBound (pollWrite : WriteFn σ UInt8 IoError)) {inner inner' : σ}
    {cur cur' : Cursor} {n : Nat} (h : pollWriteBuf inner cur = (.ready (.ok n), cur', inner'))
    (hpos : cur'.pos < cur'.data.length) :
    cur'.remaining.length + bound.zeros inner' < cur.remaining.length + bound.zeros inner := by
  simp only [pollWriteBuf] at h
  split at h
  · next hempty =>
      cases h
      exact absurd hpos (Nat.not_lt.mpr (Cursor.remaining_eq_nil.mp (List.isEmpty_iff.mp hempty)))
  · next hsome =>
      have hne : cur.remaining ≠ [] := fun h => hsome (List.isEmpty_iff.mpr h)
      split at h
      · cases h
      · cases h
      · next n' inner'' hw =>
          cases h
          have hle := bound.le_of_eq hw
          have hlt := List.length_pos_iff.mpr hne
          rw [Cursor.remaining_advance, List.length_drop]
          cases n with
          | zero =>
              have := bound.lt hne hw
              omega
          | succ n => omega

/-- Where an answer to `poll_write_buf` leaves a layer that holds what is behind the cursor. -/
inductive CursorAnswer (spec : SinkSpec (pollWrite : WriteFn σ UInt8 IoError) pollFlush)
    (items : Bytes) (data : Bytes) : Poll (IoResult Nat) × Cursor × σ → Prop where
  | pending (cur : Cursor) (s : σ) :
      cur.data = data → cur.remaining ≠ [] → spec.Holding cur.remaining s items →
      CursorAnswer spec items data (.pending, cur, s)
  | error (e : IoError) (cur : Cursor) (s : σ) :
      cur.data = data → cur.remaining ≠ [] → spec.Holding cur.remaining s items →
      CursorAnswer spec items data (.ready (.error e), cur, s)
  | count (n : Nat) (cur : Cursor) (s : σ) :
      cur.data = data → spec.Holding cur.remaining s items →
      CursorAnswer spec items data (.ready (.ok n), cur, s)

theorem pollWriteBuf_answer {spec : SinkSpec (pollWrite : WriteFn σ UInt8 IoError) pollFlush}
    {inner : σ} {cur : Cursor} {items : Bytes} (h : spec.Holding cur.remaining inner items)
    (hne : cur.remaining ≠ []) : CursorAnswer spec items cur.data (pollWriteBuf inner cur) := by
  have hans := h.written hne
  rw [pollWriteBuf, if_neg fun h => hne (List.isEmpty_iff.mp h)]
  generalize pollWrite inner cur.remaining = r at hans ⊢
  cases hans with
  | pending s hheld => exact .pending cur s rfl hne hheld
  | error e s hheld => exact .error e cur s rfl hne hheld
  | count n s hn hheld =>
      refine .count n _ s rfl ?_
      rw [Cursor.remaining_advance]
      exact hheld

end RustClash
