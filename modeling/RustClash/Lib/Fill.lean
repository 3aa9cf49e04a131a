import RustClash.Lib.Checked

/-!
# Filling a buffer

A message is built in a buffer of fixed size, from the front: each write starts where the
one before it ended.  `Front` says what the buffer begins with by now, and a write keeps it
as long as there is room.  A program that fills a buffer returns how far it came, or an
error; `Fills` compares it with the message that it is to leave in front.
-/

namespace Checked

variable {α β ε : Type}

/-- `xs[i] = x`. -/
def set (xs : List α) (i : Nat) (x : α) : Checked (List α) :=
  if i < xs.length then .ok (overwrite xs i [x]) else .error .index

/-- A call that gets the mutable slice `xs[i..j]`, with what it returns. -/
def call (xs : List α) (i j : Nat) (f : List α → Checked (β × List α)) : Checked (β × List α) := do
  let part ← slice xs i j
  let (r, part) ← f part
  pure (r, overwrite xs i part)

theorem overwrite_singleton {xs : List α} {i : Nat} (x : α) (h : i < xs.length) :
    overwrite xs i [x] = xs.set i x := by
  rw [overwrite, List.set_eq_take_append_cons_drop, if_pos h, List.append_assoc]
  rfl

theorem set_ok {xs : List α} {i : Nat} (x : α) (h : i < xs.length) :
    set xs i x = .ok (xs.set i x) := by
  rw [set, if_pos h, overwrite_singleton x h]

/-- The buffer has `size` places and begins with `pre`. -/
structure Front (size : Nat) (pre buf : List α) : Prop where
  size : buf.length = size
  front : pre <+: buf

variable {size i j : Nat} {pre new buf : List α} {x : α}

namespace Front

theorem empty (h : buf.length = size) : Front size [] buf := ⟨h, List.nil_prefix⟩

theorem length_le (h : Front size pre buf) : pre.length ≤ size := h.size ▸ h.front.length_le

theorem overwrite (h : Front size pre buf) (hi : pre.length = i)
    (hroom : i + new.length ≤ size) : Front size (pre ++ new) (overwrite buf i new) := by
  refine ⟨by rw [length_overwrite (h.size ▸ hroom), h.size], ?_⟩
  rw [Checked.overwrite, ← hi, ← List.prefix_iff_eq_take.mp h.front]
  exact List.prefix_append _ _

theorem set (h : Front size pre buf) (hi : pre.length = i) (hroom : i < size) :
    ∃ buf', Checked.set buf i x = .ok buf' ∧ Front size (pre ++ [x]) buf' :=
  ⟨_, if_pos (h.size ▸ hroom), h.overwrite hi hroom⟩

theorem copy (h : Front size pre buf) (new : List α) (hi : pre.length = i) (hj : i + new.length = j)
    (hroom : j ≤ size) :
    ∃ buf', Checked.copy buf i j new = .ok buf' ∧ Front size (pre ++ new) buf' :=
  ⟨_, copy_ok hj (h.size ▸ hroom), h.overwrite hi (hj ▸ hroom)⟩

/-- What a call leaves in front of its slice stands behind what was there. -/
theorem call {f : List α → Checked (β × List α)} {r : β} {part : List α}
    (h : Front size pre buf) (hi : pre.length = i) (hij : i ≤ j) (hj : j ≤ size)
    (hf : f ((buf.take j).drop i) = .ok (r, part)) (hpart : Front (j - i) new part) :
    ∃ buf', Checked.call buf i j f = .ok (r, buf') ∧ Front size (pre ++ new) buf' := by
  refine ⟨Checked.overwrite buf i part, ?_, ?_⟩
  · rw [Checked.call, slice_ok hij (h.size ▸ hj), ok_bind, hf]
    rfl
  · have hroom : i + part.length ≤ size := by rw [hpart.size]; omega
    obtain ⟨hsize, hfront⟩ := h.overwrite hi hroom
    exact ⟨hsize, ((List.prefix_append_right_inj pre).mpr hpart.front).trans hfront⟩

theorem within {f : List α → Checked (List α)} {part : List α}
    (h : Front size pre buf) (hi : pre.length = i) (hij : i ≤ j) (hj : j ≤ size)
    (hf : f ((buf.take j).drop i) = .ok part) (hpart : Front (j - i) new part) :
    ∃ buf', Checked.within buf i j f = .ok buf' ∧ Front size (pre ++ new) buf' := by
  refine ⟨Checked.overwrite buf i part, within_ok hij (h.size ▸ hj) hf, ?_⟩
  have hroom : i + part.length ≤ size := by rw [hpart.size]; omega
  obtain ⟨hsize, hfront⟩ := h.overwrite hi hroom
  exact ⟨hsize, ((List.prefix_append_right_inj pre).mpr hpart.front).trans hfront⟩

theorem slice (h : Front size pre buf) : Checked.slice buf 0 pre.length = .ok pre := by
  rw [slice_ok (Nat.zero_le _) h.front.length_le, ← List.prefix_iff_eq_take.mp h.front]
  rfl

end Front

/-- The program returns, with the length of the message, which the buffer begins with, or
with the error. -/
def Fills (size : Nat) (message : Except ε (List α)) (x : Checked (Except ε Nat × List α)) : Prop :=
  ∃ r buf, x = .ok (r, buf) ∧ r = message.map List.length ∧
    ∃ pre, Front size pre buf ∧ ∀ bs, message = .ok bs → pre = bs

theorem fills_ok {bs : List α} {n : Nat} (h : Front size bs buf) (hn : n = bs.length) :
    Fills size (.ok bs : Except ε _) (.ok (.ok n, buf)) :=
  ⟨_, _, rfl, by rw [hn]; rfl, bs, h, fun _ hbs => Except.ok.inj hbs⟩

theorem fills_error {e : ε} (h : Front size pre buf) :
    Fills size (.error e) (.ok (.error e, buf)) :=
  ⟨_, _, rfl, rfl, pre, h, fun _ hbs => (by cases hbs)⟩

/-- A call that fills the rest of the buffer, behind what it begins with. -/
theorem Front.fills {f : List α → Checked (Except ε Nat × List α)}
    {message : Except ε (List α)} (h : Front size pre buf) (hi : pre.length = i)
    (hf : ∀ part : List α, part.length = size - i → Fills (size - i) message (f part)) :
    ∃ r buf', Checked.call buf i buf.length f = .ok (r, buf') ∧ r = message.map List.length ∧
      ∃ pre', Front size pre' buf' ∧ ∀ bs, message = .ok bs → pre' = pre ++ bs := by
  have hle : i ≤ size := hi ▸ h.length_le
  have hpart : ((buf.take buf.length).drop i).length = size - i := by simp [h.size]
  obtain ⟨r, part, hcall, hr, new, hnew, hmessage⟩ := hf _ hpart
  rw [← h.size] at hle hnew
  obtain ⟨buf', hbuf, hfront⟩ := h.call hi hle (Nat.le_of_eq h.size) hcall hnew
  exact ⟨r, buf', hbuf, hr, _, hfront, fun bs hbs => by rw [hmessage bs hbs]⟩

/-- A new buffer of `size` places, up to where `build` says that it has filled it. -/
def filled (size : Nat) (zero : α) (build : List α → Checked (Except ε Nat × List α)) :
    Checked (Except ε (List α)) := do
  let (r, buf) ← build (List.replicate size zero)
  match r with
  | .ok n => return .ok (← slice buf 0 n)
  | .error e => return .error e

theorem filled_eq {zero : α} {build : List α → Checked (Except ε Nat × List α)}
    {message : Except ε (List α)}
    (h : Fills size message (build (List.replicate size zero))) :
    filled size zero build = .ok message := by
  obtain ⟨r, buf, hbuild, rfl, pre, hpre, hmessage⟩ := h
  rw [filled, hbuild]
  cases message with
  | error e => rfl
  | ok bs =>
      have hslice := hpre.slice
      rw [hmessage bs rfl] at hslice
      show (Checked.slice buf 0 bs.length >>= _) = _
      rw [hslice]
      rfl

end Checked
