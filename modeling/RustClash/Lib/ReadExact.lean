import RustClash.Lib.PolledRead

/-!
# Reading a number of items exactly

`readExact` reads into a buffer until it holds `size` items, from the cursor on
where an earlier call stopped.  The buffer and the cursor outlive a call that
ends with `pending`.  The cursor goes back to the front when the items are there.

`readExact_rule` is the proof rule: a relation between the items read so far and
the state of the source, which every answer that delivers keeps, holds where the
reading stops.
-/

universe u v w

variable {σ : Type u} {β : Type v} {ε : Type w}

namespace List

/-- `Vec::resize`. -/
def resize (zero : β) (size : Nat) (buf : List β) : List β :=
  buf.take size ++ replicate (size - buf.length) zero

/-- A buffer with `d` written over it from `pos` on. -/
def overwrite (buf : List β) (pos : Nat) (d : List β) : List β :=
  buf.take pos ++ d ++ buf.drop (pos + d.length)

@[simp] theorem length_resize (zero : β) (size : Nat) (buf : List β) :
    (buf.resize zero size).length = size := by
  simp only [resize, length_append, length_take, length_replicate]
  omega

theorem take_resize (zero : β) {size n : Nat} {buf : List β} (hn : n ≤ size)
    (hlen : n ≤ buf.length) : (buf.resize zero size).take n = buf.take n := by
  rw [resize, take_append_of_le_length (by rw [length_take]; omega), take_take, Nat.min_eq_left hn]

theorem resize_of_le (zero : β) {size : Nat} {buf : List β} (h : size ≤ buf.length) :
    buf.resize zero size = buf.take size := by
  rw [resize, Nat.sub_eq_zero_of_le h, replicate_zero, append_nil]

theorem length_overwrite {buf d : List β} {pos : Nat} (h : pos + d.length ≤ buf.length) :
    (buf.overwrite pos d).length = buf.length := by
  simp only [overwrite, length_append, length_take, length_drop]
  omega

theorem take_overwrite {buf d : List β} {pos : Nat} (h : pos ≤ buf.length) :
    (buf.overwrite pos d).take (pos + d.length) = buf.take pos ++ d := by
  rw [overwrite, take_append_of_le_length (by rw [length_append, length_take]; omega),
    take_of_length_le (by rw [length_append, length_take]; omega)]

end List

/-! ## The loop -/

def exactPass (read : ReadFn σ β ε) (eof : ε) (size : Nat) (buf : List β) (pos : Nat) (s : σ) :
    (List β × Nat × σ) ⊕ (Poll (Except ε Unit) × List β × Nat × σ) :=
  if pos < size then
    match read s (size - pos) with
    | (.pending, s) => .inr (.pending, buf, pos, s)
    | (.ready (.error e), s) => .inr (.ready (.error e), buf, pos, s)
    | (.ready (.ok d), s) =>
        if d.items.isEmpty then .inr (.ready (.error eof), buf, pos, s)
        else .inl (buf.overwrite pos d.items, pos + d.items.length, s)
  else .inr (.ready (.ok ()), buf, 0, s)

def exactLoop (read : ReadFn σ β ε) (eof : ε) (size : Nat) :
    Loop (List β × Nat × σ) (Poll (Except ε Unit) × List β × Nat × σ) where
  body st := exactPass read eof size st.1 st.2.1 st.2.2
  measure st := size - st.2.1
  decreases := by
    rintro ⟨buf, pos, s⟩ st' h
    change exactPass read eof size buf pos s = .inl st' at h
    simp only [exactPass] at h
    split at h
    · next hlt =>
        split at h
        · cases h
        · cases h
        · next d s' hr =>
            split at h
            · cases h
            · next hd =>
                cases h
                have : 0 < d.items.length := List.length_pos_iff.mpr (by simpa using hd)
                simp only
                omega
    · cases h

/-- Read into `buf` from `pos` on, until `size` items are there. -/
def readExact (read : ReadFn σ β ε) (eof : ε) (zero : β) (size : Nat) (buf : List β) (pos : Nat)
    (s : σ) : Poll (Except ε Unit) × List β × Nat × σ :=
  (exactLoop read eof size).run (buf.resize zero size, pos, s)

/-- Where a reading of `size` items stops: `P` relates the items read so far to the
state of the source. -/
inductive ExactStop (read : ReadFn σ β ε) (eof : ε) (size : Nat) (P : List β → σ → Prop) :
    Poll (Except ε Unit) × List β × Nat × σ → Prop where
  | pending {buf : List β} {pos : Nat} {s s' : σ} :
      buf.length = size → pos < size → P (buf.take pos) s →
      read s (size - pos) = (.pending, s') → ExactStop read eof size P (.pending, buf, pos, s')
  | error {buf : List β} {pos : Nat} {s s' : σ} {e : ε} :
      pos < size → buf.length = size → P (buf.take pos) s →
      read s (size - pos) = (.ready (.error e), s') →
      ExactStop read eof size P (.ready (.error e), buf, pos, s')
  | eof {buf : List β} {pos : Nat} {s s' : σ} {d : Filled β (size - pos)} :
      pos < size → buf.length = size → P (buf.take pos) s →
      read s (size - pos) = (.ready (.ok d), s') → d.items = [] →
      ExactStop read eof size P (.ready (.error eof), buf, pos, s')
  | done {buf : List β} {s : σ} :
      buf.length = size → P buf s → ExactStop read eof size P (.ready (.ok ()), buf, 0, s)

/-- What the items at hand satisfy, and what an answer that delivers keeps, holds
where the reading stops. -/
theorem readExact_rule {read : ReadFn σ β ε} {eof : ε} {size : Nat} {P : List β → σ → Prop}
    (hstep : ∀ {got : List β} {s s' : σ} {d : Filled β (size - got.length)},
      P got s → got.length < size → read s (size - got.length) = (.ready (.ok d), s') →
      d.items ≠ [] → P (got ++ d.items) s')
    (zero : β) {buf : List β} {pos : Nat} {s : σ} (hpos : pos ≤ buf.length) (hsize : pos ≤ size)
    (hP : P (buf.take pos) s) :
    ExactStop read eof size P (readExact read eof zero size buf pos s) := by
  suffices h : ∀ st : List β × Nat × σ, st.1.length = size → st.2.1 ≤ size →
      P (st.1.take st.2.1) st.2.2 → ExactStop read eof size P ((exactLoop read eof size).run st) by
    exact h (buf.resize zero size, pos, s) (List.length_resize _ _ _) hsize
      (by rwa [List.take_resize zero hsize hpos])
  intro st
  refine Loop.rule (l := exactLoop read eof size) (P := fun st r => st.1.length = size →
    st.2.1 ≤ size → P (st.1.take st.2.1) st.2.2 → ExactStop read eof size P r) ?_ ?_ st
  · rintro ⟨buf, pos, s⟩ st' r hb ih hlen hle hP
    change exactPass read eof size buf pos s = .inl st' at hb
    simp only at hlen hle hP
    have hgot : (buf.take pos).length = pos := by
      rw [List.length_take]
      omega
    simp only [exactPass] at hb
    split at hb
    · next hlt =>
        split at hb
        · cases hb
        · cases hb
        · next d s' hr =>
            split at hb
            · cases hb
            · next hd =>
                cases hb
                have hbound := d.bound
                refine ih ?_ (by dsimp only; omega) ?_
                · exact (List.length_overwrite (by omega)).trans hlen
                · simp only
                  rw [List.take_overwrite (by omega)]
                  generalize buf.take pos = got at hgot hP ⊢
                  subst hgot
                  exact hstep hP hlt hr (by simpa using hd)
    · cases hb
  · rintro ⟨buf, pos, s⟩ r hb hlen hle hP
    change exactPass read eof size buf pos s = .inr r at hb
    simp only at hlen hle hP
    simp only [exactPass] at hb
    split at hb
    · next hlt =>
        split at hb
        · next s' hr =>
            cases hb
            exact .pending hlen hlt hP hr
        · next e s' hr =>
            cases hb
            exact .error hlt hlen hP hr
        · next d s' hr =>
            split at hb
            · next hd =>
                cases hb
                exact .eof hlt hlen hP hr (by simpa using hd)
            · cases hb
    · next hge =>
        cases hb
        refine .done hlen ?_
        rwa [List.take_of_length_le (by omega)] at hP

/-- A cursor that is behind the size already: nothing is read. -/
theorem readExact_full (read : ReadFn σ β ε) (eof : ε) (zero : β) {size : Nat} {buf : List β}
    {pos : Nat} (s : σ) (h : size ≤ pos) (hpos : pos ≤ buf.length) :
    readExact read eof zero size buf pos s = (.ready (.ok ()), buf.take size, 0, s) := by
  rw [← List.resize_of_le zero (Nat.le_trans h hpos)]
  refine Loop.run_inr (l := exactLoop read eof size) ?_
  show exactPass read eof size (buf.resize zero size) pos s = _
  rw [exactPass, if_neg (Nat.not_lt.mpr h)]
