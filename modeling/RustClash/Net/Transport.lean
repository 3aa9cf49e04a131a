import RustClash.Net.Io

/-!
# The transport under a stack of layers

A `Transport` is a TCP connection as its user sees it: what it answers to reads
and writes is fixed in advance, in the form of two scripts.  Every way of cutting
the peer's bytes into reads with `Pending` in between, and every way of accepting
writes, is a script.  `written` keeps what was accepted.
-/

namespace RustClash

/-- One answer to reads; the bytes that arrive together are not empty. -/
inductive ReadEvent where
  | pending
  | data (b : UInt8) (bs : Bytes)
deriving DecidableEq

/-- One answer to writes. -/
inductive WriteEvent where
  | pending
  | fail (e : IoError)
  | accept (n : Nat)
deriving DecidableEq

structure Transport where
  reads : List ReadEvent
  readEnd : End IoError
  writes : List WriteEvent
  written : Bytes

/-- The bytes that are still to be read. -/
def unread : List ReadEvent → Bytes
  | [] => []
  | .pending :: reads => unread reads
  | .data b bs :: reads => b :: bs ++ unread reads

def stalls : List ReadEvent → Nat
  | [] => 0
  | .pending :: reads => stalls reads + 1
  | .data _ _ :: reads => stalls reads

/-- Bytes that arrive together, before the rest. -/
def arrive : Bytes → List ReadEvent → List ReadEvent
  | [], reads => reads
  | b :: bs, reads => .data b bs :: reads

@[simp] theorem unread_arrive (bs : Bytes) (reads : List ReadEvent) :
    unread (arrive bs reads) = bs ++ unread reads := by
  cases bs <;> rfl

@[simp] theorem stalls_arrive (bs : Bytes) (reads : List ReadEvent) :
    stalls (arrive bs reads) = stalls reads := by
  cases bs <;> rfl

/-! ## Where the pending answers are -/

/-- What is left of a script once `n` bytes have been read. -/
def skip : Nat → List ReadEvent → List ReadEvent
  | 0, reads => reads
  | _ + 1, [] => []
  | n + 1, .pending :: reads => skip (n + 1) reads
  | n + 1, .data _ bs :: reads =>
      if n < bs.length then arrive (bs.drop n) reads else skip (n - bs.length) reads

/-- Whether the next `n` bytes, as many of them as there are, come without a pending
answer before the last of them. -/
def calm : Nat → List ReadEvent → Bool
  | 0, _ => true
  | _ + 1, [] => true
  | _ + 1, .pending :: _ => false
  | n + 1, .data _ bs :: reads => calm (n - bs.length) reads

@[simp] theorem skip_zero (reads : List ReadEvent) : skip 0 reads = reads := by
  cases reads <;> rfl

@[simp] theorem calm_zero (reads : List ReadEvent) : calm 0 reads = true := by
  cases reads <;> rfl

theorem skip_arrive (n : Nat) (bs : Bytes) (reads : List ReadEvent) :
    skip n (arrive bs reads) =
      if n < bs.length then arrive (bs.drop n) reads else skip (n - bs.length) reads := by
  rcases bs with _ | ⟨b, bs⟩
  · rfl
  · rcases n with _ | n
    · rw [skip_zero, List.length_cons, if_pos (Nat.zero_lt_succ _)]
      rfl
    · simp only [arrive, skip, List.length_cons, Nat.add_lt_add_iff_right, List.drop_succ_cons,
        Nat.add_sub_add_right]

theorem calm_arrive (n : Nat) (bs : Bytes) (reads : List ReadEvent) :
    calm n (arrive bs reads) = calm (n - bs.length) reads := by
  rcases bs with _ | ⟨b, bs⟩
  · rfl
  · rcases n with _ | n
    · simp
    · simp only [arrive, calm, List.length_cons, Nat.add_sub_add_right]

/-- All bytes at once. -/
theorem calm_once (n m : Nat) (bs : Bytes) : calm n (skip m (arrive bs [])) = true := by
  have hnil : ∀ k, calm k [] = true := fun k => by cases k <;> rfl
  have hskip : ∀ k, skip k [] = [] := fun k => by cases k <;> rfl
  rw [skip_arrive]
  split
  · rw [calm_arrive]
    exact hnil _
  · rw [hskip]
    exact hnil _

namespace Transport

/-- A transport that serves reads from a script, and accepts all writes. -/
def serving (reads : List ReadEvent) (readEnd : End IoError) : Transport := ⟨reads, readEnd, [], []⟩

/-- A transport that answers writes from a script, and has nothing to read. -/
def accepting (writes : List WriteEvent) : Transport := ⟨[], .eof, writes, []⟩

def endAnswer (t : Transport) (cap : Nat) : Answer UInt8 IoError cap :=
  match t.readEnd with
  | .eof => .ready (.ok (.empty cap))
  | .error e => .ready (.error e)

instance : AsyncRead Transport where
  pollRead t cap :=
    match t.reads with
    | [] => (t.endAnswer cap, t)
    | .pending :: reads => (.pending, { t with reads })
    | .data b bs :: reads =>
        (.ready (.ok (.fill cap (b :: bs))), { t with reads := arrive ((b :: bs).drop cap) reads })

def accept (t : Transport) (buf : Bytes) (n : Nat) : Transport :=
  { t with written := t.written ++ buf.take n }

instance : AsyncWrite Transport where
  pollWrite t buf :=
    match t.writes with
    | [] => (.ready (.ok buf.length), t.accept buf buf.length)
    | .pending :: writes => (.pending, { t with writes })
    | .fail e :: writes => (.ready (.error e), { t with writes })
    | .accept n :: writes =>
        (.ready (.ok (min n buf.length)), { t.accept buf (min n buf.length) with writes })
  pollFlush t :=
    match t.writes with
    | .pending :: writes => (.pending, { t with writes })
    | .fail e :: writes => (.ready (.error e), { t with writes })
    | _ => (.ready (.ok ()), t)

instance : AsyncIo Transport where

/-- A transport yields what its script has left. -/
def readSpec : ReadSpec (pollRead : ReadFn Transport UInt8 IoError) where
  Yields t items o := items = unread t.reads ∧ o = t.readEnd
  stalls t := stalls t.reads
  leaves := by
    rintro t items o cap ⟨rfl, rfl⟩ hcap
    simp only [pollRead]
    split
    · next h =>
        simp only [endAnswer]
        split
        · next hend => simp [Leaves, h, unread, hend]
        · next e hend => simp [Leaves, h, unread, hend]
    · next reads h => simp [Leaves, h, unread, RustClash.stalls]
    · next b bs reads h =>
        rw [h, unread]
        exact leaves_fill (List.cons_ne_nil b bs) hcap (by simp) (by simp [h, RustClash.stalls])

instance : ReadLaw Transport where
  spec := readSpec
  steady := by
    rintro t items o cap t' d ⟨rfl, rfl⟩ hcap hr hd
    simp only [pollRead] at hr
    split at hr
    · next h =>
        simp only [endAnswer] at hr
        split at hr
        · next hend =>
            cases hr
            exact ⟨⟨by rw [h]; rfl, hend.symm⟩, Nat.le_refl _⟩
        · cases hr
    · cases hr
    · cases hr
      obtain ⟨n, rfl⟩ := Nat.exists_eq_succ_of_ne_zero (Nat.ne_of_gt hcap)
      exact absurd hd (List.cons_ne_nil _ _)

/-- A read with an empty buffer takes nothing, and says that the transport is at its end
only when it is, or by filling nothing. -/
theorem pollRead_zero (t : Transport) {n : Nat} (hn : n = 0) :
    match pollRead t n with
    | (.pending, t') => unread t'.reads = unread t.reads ∧ t'.readEnd = t.readEnd ∧
        RustClash.stalls t'.reads < RustClash.stalls t.reads
    | (.ready (.error e), _) => unread t.reads = [] ∧ t.readEnd = .error e
    | (.ready (.ok d), _) => d.items = [] ∧ (unread t.reads ≠ [] ∨ t.readEnd = .eof) := by
  subst hn
  rcases t with ⟨_ | ⟨_ | ⟨b, bs⟩, reads⟩, _ | e, writes, written⟩
  · exact ⟨rfl, Or.inr rfl⟩
  · exact ⟨rfl, rfl⟩
  · exact ⟨rfl, rfl, Nat.lt_succ_self _⟩
  · exact ⟨rfl, rfl, Nat.lt_succ_self _⟩
  · exact ⟨rfl, Or.inl (List.cons_ne_nil _ _)⟩
  · exact ⟨rfl, Or.inl (List.cons_ne_nil _ _)⟩

/-- The answers of a transport to a poll that is not empty. -/
inductive Polled (t : Transport) (n : Nat) : Answer UInt8 IoError n × Transport → Prop where
  | pending (reads : List ReadEvent) :
      t.reads = .pending :: reads → Polled t n (.pending, { t with reads })
  | error (e : IoError) : t.reads = [] → t.readEnd = .error e → Polled t n (.ready (.error e), t)
  | eof : t.reads = [] → t.readEnd = .eof → Polled t n (.ready (.ok (.empty n)), t)
  | data (l : Bytes) (reads : List ReadEvent) :
      l ≠ [] → t.reads = arrive l reads →
      Polled t n (.ready (.ok (.fill n l)), { t with reads := arrive (l.drop n) reads })

theorem pollRead_polled (t : Transport) (n : Nat) : Polled t n (pollRead t n) := by
  simp only [pollRead]
  split
  · next h =>
      simp only [endAnswer]
      split
      · next hend => exact .eof h hend
      · next e hend => exact .error e h hend
  · next reads h => exact .pending reads h
  · next b bs reads h => exact .data (b :: bs) reads (List.cons_ne_nil _ _) h

/-- Bytes that are read move the places of the pending answers. -/
theorem read_places {t t' : Transport} {n k : Nat} {d : Filled UInt8 n} (hk : n ≤ k)
    (hr : pollRead t n = (.ready (.ok d), t')) (hd : d.items ≠ []) :
    unread t.reads = d.items ++ unread t'.reads ∧ t'.readEnd = t.readEnd ∧
      RustClash.stalls t'.reads = RustClash.stalls t.reads ∧
      skip k t.reads = skip (k - d.items.length) t'.reads ∧
      calm k t.reads = calm (k - d.items.length) t'.reads := by
  have h := t.pollRead_polled n
  rw [hr] at h
  cases h with
  | eof => exact absurd rfl hd
  | data l reads hl hreads =>
      rw [hreads]
      refine ⟨?_, rfl, by simp, ?_, ?_⟩
      · rw [unread_arrive, unread_arrive, ← List.append_assoc, Filled.fill_items,
          List.take_append_drop]
      · rw [skip_arrive, skip_arrive, Filled.fill_items, List.length_take, List.length_drop,
          List.drop_drop]
        by_cases hlt : k < l.length
        · rw [if_pos hlt, if_pos (by omega), show n + (k - min n l.length) = k by omega]
        · rw [if_neg hlt, if_neg (by omega),
            show k - min n l.length - (l.length - n) = k - l.length by omega]
      · rw [calm_arrive, calm_arrive, Filled.fill_items, List.length_take, List.length_drop,
          show k - min n l.length - (l.length - n) = k - l.length by omega]

theorem serving_yields (reads : List ReadEvent) (readEnd : End IoError) :
    ReadLaw.spec.Yields (serving reads readEnd) (unread reads) readEnd :=
  (⟨rfl, rfl⟩ : readSpec.Yields (serving reads readEnd) (unread reads) readEnd)

instance : WriteLaw Transport where
  spec :=
    { accepted := Transport.written
      count_le := by
        intro t buf
        simp only [pollWrite]
        split
        · exact Nat.le_refl _
        · exact Nat.zero_le _
        · exact Nat.zero_le _
        · exact Nat.min_le_right _ _
      accepts := by
        intro t buf
        simp only [pollWrite]
        split <;> simp [accept] }
  flush_accepted := by
    intro t
    simp only [pollFlush]
    split <;> rfl

/-- Each answer of nothing uses up a line of the script. -/
instance : ZeroLaw Transport where
  bound :=
    { zeros := fun t => t.writes.length
      le := by
        intro t buf
        simp only [pollWrite]
        split <;> simp_all [accept]
      lt := by
        intro t t' buf hne h
        simp only [pollWrite] at h
        split at h
        · injection h with ha _
          exact absurd (by simpa using ha) hne
        · cases h
        · cases h
        · next n writes hw =>
            injection h with _ ht
            rw [← ht, hw]
            exact Nat.lt_succ_self _ }

end Transport

end RustClash
