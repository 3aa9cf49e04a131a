import RustClash.Lib.PolledRead
import RustClash.Lib.PolledWrite

/-!
# Polled byte streams

The stream traits of the proxy stack and the two wrappers around a layer.  A
layer is a state; a poll takes the state and answers with the next one.  The
`ReadBuf` a caller passes is its number of free bytes, and the answer is the
part that was filled.

`AsyncIo::vision_detach` answers with a stream over the `SharedStream` that the
detached layer goes on writing to.  Such a stream is a `Detached`: what it holds
besides the shared transport, which stays in the state of the layer and is read
there by `pollReadShared`.
-/

namespace RustClash

abbrev Bytes := List UInt8

/-- `[u8; n]`. -/
structure Octets (n : Nat) where
  bytes : Bytes
  size : bytes.length = n
deriving DecidableEq, Repr

inductive ErrorKind where
  | unexpectedEof
  | connectionReset
  | writeZero
  | invalidData
  | other
deriving DecidableEq, Repr

/-- `std::io::Error`. -/
structure IoError where
  kind : ErrorKind
  message : String
deriving DecidableEq, Repr

abbrev IoResult (α : Type) := Except IoError α

class AsyncRead (σ : Type) where
  pollRead : ReadFn σ UInt8 IoError

class AsyncWrite (σ : Type) where
  pollWrite : WriteFn σ UInt8 IoError
  pollFlush : σ → Poll (IoResult Unit) × σ

/-- The stream that a detached layer hands out: the shared transport, or a
prefix before it. -/
inductive Detached where
  | shared
  | prefixed (prefixBytes : Bytes) (pos : Nat)
deriving DecidableEq

/-- `PrefixedStream::wrap_if_needed` around the shared transport. -/
def Detached.wrapIfNeeded (prefixBytes : Bytes) : Detached :=
  if prefixBytes.isEmpty then .shared else .prefixed prefixBytes 0

/-- `vision_detach` does nothing by default, and a layer that never detaches has
no shared transport to poll. -/
class AsyncIo (σ : Type) extends AsyncRead σ, AsyncWrite σ where
  visionDetach : σ → Bytes → Option Detached × σ := fun s _ => (none, s)
  pollReadShared : ReadFn σ UInt8 IoError := fun s _ => (.pending, s)

export AsyncRead (pollRead)
export AsyncWrite (pollWrite pollFlush)
export AsyncIo (visionDetach pollReadShared)

/-! ## Wrappers -/

/-- A handle on the transport that the layer `inner` shares. -/
structure SharedStream (σ : Type) where
  inner : σ

instance {σ : Type} [AsyncIo σ] : AsyncRead (SharedStream σ) where
  pollRead st cap :=
    let (r, inner) := pollReadShared st.inner cap
    (r, ⟨inner⟩)

structure PrefixedStream (σ : Type) where
  prefixBytes : Bytes
  pos : Nat
  inner : σ

def PrefixedStream.remaining {σ : Type} (st : PrefixedStream σ) : Bytes :=
  st.prefixBytes.drop st.pos

instance {σ : Type} [AsyncRead σ] : AsyncRead (PrefixedStream σ) where
  pollRead st cap :=
    if st.pos < st.prefixBytes.length then
      let n := min st.remaining.length cap
      (.ready (.ok (.fill cap st.remaining)), { st with pos := st.pos + n })
    else
      let (r, inner) := pollRead st.inner cap
      (r, { st with inner })

instance {σ : Type} [AsyncWrite σ] : AsyncWrite (PrefixedStream σ) where
  pollWrite st buf :=
    let (r, inner) := pollWrite st.inner buf
    (r, { st with inner })
  pollFlush st :=
    let (r, inner) := pollFlush st.inner
    (r, { st with inner })

namespace Detached

variable {σ : Type} [AsyncIo σ]

/-- A poll of a detached stream over the layer that shares its transport. -/
def pollRead (src : Detached) (session : σ) (cap : Nat) :
    Answer UInt8 IoError cap × Detached × σ :=
  match src with
  | .shared =>
      let (r, handle) := RustClash.pollRead (SharedStream.mk session) cap
      (r, .shared, handle.inner)
  | .prefixed prefixBytes pos =>
      let (r, st) := RustClash.pollRead (PrefixedStream.mk prefixBytes pos (SharedStream.mk session)) cap
      (r, .prefixed st.prefixBytes st.pos, st.inner.inner)

/-- The layer is left alone, or its shared transport is read. -/
theorem pollRead_session (src : Detached) (session : σ) (cap : Nat) :
    (src.pollRead session cap).2.2 = session ∨
      (src.pollRead session cap).2.2 = (pollReadShared session cap).2 := by
  cases src with
  | shared => exact Or.inr rfl
  | prefixed prefixBytes pos =>
      simp only [pollRead, RustClash.pollRead]
      split
      · exact Or.inl rfl
      · exact Or.inr rfl

end Detached

/-! ## Specified layers -/

/-- A layer whose reads are specified, and which stays at its end. -/
class ReadLaw (σ : Type) [AsyncRead σ] where
  spec : ReadSpec (pollRead : ReadFn σ UInt8 IoError)
  steady : spec.Steady

/-- A sink that knows what it has accepted, and accepts nothing by flushing. -/
class WriteLaw (σ : Type) [AsyncWrite σ] where
  spec : WriteSpec (pollWrite : WriteFn σ UInt8 IoError)
  flush_accepted : ∀ s : σ, spec.accepted (pollFlush s).2 = spec.accepted s

/-- A sink that may be offered what it does not accept until it does. -/
class ZeroLaw (σ : Type) [AsyncWrite σ] where
  bound : ZeroBound (pollWrite : WriteFn σ UInt8 IoError)

/-- A layer the reads of whose shared transport are specified. -/
class SharedLaw (σ : Type) [AsyncIo σ] where
  spec : ReadSpec (pollReadShared : ReadFn σ UInt8 IoError)

/-- A handle yields what the shared transport does. -/
def SharedStream.readSpec {σ : Type} [AsyncIo σ] [SharedLaw σ] :
    ReadSpec (pollRead : ReadFn (SharedStream σ) UInt8 IoError) where
  Yields st items o := SharedLaw.spec.Yields st.inner items o
  stalls st := SharedLaw.spec.stalls st.inner
  leaves hy hcap := (SharedLaw.spec.leaves hy hcap).handOn (fun _ _ h => h) rfl rfl

/-- A prefix is read first. -/
def PrefixedStream.readSpec {σ : Type} [AsyncRead σ]
    (spec : ReadSpec (pollRead : ReadFn σ UInt8 IoError)) :
    ReadSpec (pollRead : ReadFn (PrefixedStream σ) UInt8 IoError) where
  Yields st items o := ∃ rest, spec.Yields st.inner rest o ∧ items = st.remaining ++ rest
  stalls st := spec.stalls st.inner
  leaves := by
    rintro ⟨prefixBytes, pos, inner⟩ items o cap ⟨rest, hy, rfl⟩ hcap
    simp only [pollRead]
    split
    · next hpos =>
        have hne : prefixBytes.drop pos ≠ [] := by
          rw [← List.length_pos_iff, List.length_drop]
          omega
        refine leaves_fill hne hcap ⟨rest, hy, ?_⟩ (Nat.le_refl _)
        simp only [remaining, ← List.drop_drop]
        congr 1
        rcases Nat.le_total cap (prefixBytes.drop pos).length with hle | hle
        · rw [Nat.min_eq_right hle]
        · rw [Nat.min_eq_left hle, List.drop_length, List.drop_eq_nil_of_le hle]
    · next hpos =>
        have hnil : prefixBytes.drop pos = [] := List.drop_eq_nil_of_le (Nat.not_lt.mp hpos)
        simp only [remaining, hnil, List.nil_append]
        exact (spec.leaves hy hcap).handOn (fun items o h => ⟨items, h, by simp [hnil]⟩) rfl rfl

namespace Detached

variable {σ : Type} [AsyncIo σ]

/-- The prefix that is still to be read. -/
def remaining : Detached → Bytes
  | .shared => []
  | .prefixed prefixBytes pos => prefixBytes.drop pos

@[simp] theorem remaining_wrapIfNeeded (prefixBytes : Bytes) :
    (wrapIfNeeded prefixBytes).remaining = prefixBytes := by
  simp only [wrapIfNeeded]
  split
  · next h => rw [List.isEmpty_iff.mp h]; rfl
  · rfl

/-- A detached stream, with the layer that shares its transport, yields its prefix and
then what the transport does. -/
def readSpec [SharedLaw σ] :
    ReadSpec (fun (st : Detached × σ) (cap : Nat) => st.1.pollRead st.2 cap) where
  Yields st items o := ∃ rest, SharedLaw.spec.Yields st.2 rest o ∧ items = st.1.remaining ++ rest
  stalls st := SharedLaw.spec.stalls st.2
  leaves := by
    rintro ⟨src, session⟩ items o cap ⟨rest, hy, rfl⟩ hcap
    cases src with
    | shared =>
        exact (SharedStream.readSpec.leaves (s := ⟨session⟩) hy hcap).handOn
          (fun items o h => ⟨items, h, rfl⟩) rfl rfl
    | prefixed prefixBytes pos =>
        refine ((PrefixedStream.readSpec SharedStream.readSpec).leaves
          (s := ⟨prefixBytes, pos, ⟨session⟩⟩) ⟨rest, hy, rfl⟩ hcap).handOn ?_ rfl rfl
        exact fun items o h => h

end Detached

end RustClash
