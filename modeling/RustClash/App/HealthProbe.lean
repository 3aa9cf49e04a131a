import RustClash.App.NodeList
import RustClash.Core.Utf8
import RustClash.Lib.Http
import RustClash.Net.Exchange

/-!
# Probes of nodes

A check of a node dials a page through it, asks for the page and reads until the first line of the
response is there, at most 512 bytes of it.  The line is cut from the decoded text, which may end
inside of a character, so how much of the response is at hand when the reading stops must not
change the line.
-/

namespace RustClash

namespace HealthChecker

open Str

/-! ## Reading the head of the response -/

def slowMs : Int := 400

/-- Sealed, so that no proof evaluates the text. -/
@[irreducible] def request : Bytes :=
  bytes ("GET /generate_204 HTTP/1.1\r\nHost: www.gstatic.com\r\n".toList ++
    "Connection: close\r\nUser-Agent: rust-clash\r\n\r\n".toList)

/-- The length of the buffer. -/
def headSize : Nat := 512

/-- One pass of the loop that fills the buffer. -/
def readRound (got : Bytes) (t : Transport) : (Bytes × Transport) ⊕ (Bytes × Transport) :=
  if headSize ≤ got.length then .inr (got, t)
  else
    match t.read (headSize - got.length) with
    | (.error _, t) => .inr (got, t)
    | (.ok d, t) =>
        if d.items.isEmpty then .inr (got, t)
        else if [13, 10] <:+: got ++ d.items then .inr (got ++ d.items, t)
        else .inl (got ++ d.items, t)

/-- What a pass leaves of the bytes that are to come. -/
inductive Pass (got : Bytes) (t : Transport) :
    (Bytes × Transport) ⊕ (Bytes × Transport) -> Prop where
| full :
  headSize ≤ got.length ->
  Pass got t (.inr (got, t))
| ended {t' : Transport} :
  unread t.reads = [] ->
  Pass got t (.inr (got, t'))
| line {bs : Bytes} {t' : Transport} :
  unread t.reads = bs ++ unread t'.reads ->
  got.length + bs.length ≤ headSize ->
  [13, 10] <:+: got ++ bs ->
  Pass got t (.inr (got ++ bs, t'))
| more {bs : Bytes} {t' : Transport} :
  bs ≠ [] ->
  unread t.reads = bs ++ unread t'.reads ->
  got.length + bs.length ≤ headSize ->
  Pass got t (.inl (got ++ bs, t'))

theorem readRound_pass (got : Bytes) (t : Transport) : Pass got t (readRound got t) := by
  rw [readRound]
  split
  · next hfull => exact .full hfull
  · next hroom =>
      have hcap : 0 < headSize - got.length := Nat.sub_pos_of_lt (Nat.lt_of_not_le hroom)
      have hread := t.read_spec hcap
      generalize t.read (headSize - got.length) = r at hread
      cases hread with
      | error hnil _ => exact .ended hnil
      | eof hd hnil _ =>
          dsimp only
          rw [if_pos (by rw [hd]; rfl)]
          exact .ended hnil
      | @data d _ hne hunread _ =>
          have hbound : got.length + d.items.length ≤ headSize := by
            have := d.bound
            omega
          dsimp only
          rw [if_neg (by rwa [List.isEmpty_iff])]
          split
          · next hline => exact .line hunread hbound hline
          · exact .more hne hunread hbound

def readLoop : Loop (Bytes × Transport) (Bytes × Transport) where
  body st := readRound st.1 st.2
  measure st := (unread st.2.reads).length
  decreases := by
    intro st st' h
    have hpass := readRound_pass st.1 st.2
    rw [h] at hpass
    cases hpass with
    | more hne hunread _ =>
        rw [hunread, List.length_append]
        exact Nat.lt_add_of_pos_left (List.length_pos_iff.mpr hne)

/-- What was read is the front of all that comes, and it is all of it unless it has a line. -/
theorem readLoop_front (st : Bytes × Transport) :
    st.1.length ≤ headSize →
    (readLoop.run st).1 <+: (st.1 ++ unread st.2.reads).take headSize ∧
    ((readLoop.run st).1 = (st.1 ++ unread st.2.reads).take headSize ∨
      [13, 10] <:+: (readLoop.run st).1) := by
  refine Loop.rule (P := fun (st r : Bytes × Transport) => st.1.length ≤ headSize →
    r.1 <+: (st.1 ++ unread st.2.reads).take headSize ∧
      (r.1 = (st.1 ++ unread st.2.reads).take headSize ∨ [13, 10] <:+: r.1)) ?_ ?_ st
  · intro st st' r hround ih _
    have hpass := readRound_pass st.1 st.2
    rw [show readRound st.1 st.2 = .inl st' from hround] at hpass
    cases hpass with
    | more _ hunread hbound =>
        rw [hunread, ← List.append_assoc]
        exact ih (by rwa [List.length_append])
  · intro st r hround hle
    have hpass := readRound_pass st.1 st.2
    rw [show readRound st.1 st.2 = .inr r from hround] at hpass
    cases hpass with
    | full hfull =>
        have hall : (st.1 ++ unread st.2.reads).take headSize = st.1 :=
          List.take_left' (Nat.le_antisymm hle hfull)
        rw [hall]
        exact ⟨List.prefix_refl _, .inl rfl⟩
    | ended hnil =>
        have hall : (st.1 ++ unread st.2.reads).take headSize = st.1 := by
          rw [hnil, List.append_nil, List.take_of_length_le hle]
        rw [hall]
        exact ⟨List.prefix_refl _, .inl rfl⟩
    | line hunread hbound hline =>
        rw [hunread, ← List.append_assoc]
        exact ⟨List.prefix_take_iff.mpr ⟨List.prefix_append _ _, by rwa [List.length_append]⟩,
          .inr hline⟩

/-! ## The verdict -/

def firstLine (head : Str) : Str := (Http.splitPair '\r' '\n' head).headD []

/-- Whether what was read tells that the page is there. -/
def verdict (got : Bytes) : Bool :=
  !got.isEmpty && contains " 204".toList (firstLine (fromUtf8Lossy got))

/-- A line that is there stays the same, whatever was read with it. -/
theorem verdict_of_line {got all : Bytes} (hfront : got <+: all) (hline : [13, 10] <:+: got) :
    verdict got = verdict all := by
  obtain ⟨more, rfl⟩ := hfront
  obtain ⟨before, after, rfl⟩ := hline
  have hsplit (bs : Bytes) : fromUtf8Lossy (before ++ [13, 10] ++ bs) =
      fromUtf8Lossy before ++ '\r' :: '\n' :: fromUtf8Lossy bs := by
    rw [List.append_assoc, List.cons_append, List.singleton_append,
      fromUtf8Lossy_append (by decide), fromUtf8Lossy_cons_ascii (by decide)]
    rfl
  have hempty (bs : Bytes) : (before ++ [13, 10] ++ bs).isEmpty = false := by
    simp
  rw [List.append_assoc _ after more, verdict, verdict, hempty, hempty, hsplit, hsplit, firstLine,
    firstLine, Http.headD_splitPair_append (fromUtf8Lossy after) (fromUtf8Lossy (after ++ more))]

/-! ## The check -/

/-- `probe_resolved`, over the stream that was dialed. -/
def probeResolved (t : Transport) : IoResult Bool :=
  match t.send request with
  | (.error e, _) => .error e
  | (.ok (), t) => .ok (verdict (readLoop.run ([], t)).1)

def failed : HealthCheckResult := ⟨false, none, .latencyFailed⟩

/-- The result after so many milliseconds. -/
def passed (ms : Nat) : HealthCheckResult :=
  ⟨true, some (Int32.ofNat ms).toInt, if slowMs ≤ (Int32.ofNat ms).toInt then .slow else .ok⟩

/-- `check`, over what was dialed; `ms` are the milliseconds since the address is known, and
`inTime` says whether the work ends before the time is up. -/
def check {ε : Type} (dialed : Except ε Transport) (inTime : Bool) (ms : Nat) :
    HealthCheckResult :=
  match dialed with
  | .error _ => failed
  | .ok t =>
      match probeResolved t with
      | .error _ => failed
      | .ok there => if inTime && there then passed ms else failed

theorem probeResolved_verdict (t : Transport) : probeResolved t =
    (t.send request).1.map fun _ => verdict ((unread t.reads).take headSize) := by
  obtain ⟨hreads, -⟩ := t.send_keeps request
  rw [probeResolved]
  generalize t.send request = r at hreads
  obtain ⟨_ | _, t'⟩ := r
  · rfl
  · have hfront := readLoop_front ([], t') (Nat.zero_le _)
    rw [List.nil_append, show t'.reads = t.reads from hreads] at hfront
    have hsame : verdict (readLoop.run ([], t')).1 =
        verdict ((unread t.reads).take headSize) := by
      obtain ⟨hcut, hall | hline⟩ := hfront
      · rw [hall]
      · exact verdict_of_line hcut hline
    exact congrArg Except.ok hsame

/-- A node is there if and only if the request got through, the first line among the first 512
bytes of the response says so, and all of it was in time; how the response arrives does not
matter. -/
theorem check_verdict {ε : Type} (t : Transport) (inTime : Bool) (ms : Nat) :
    check (ε := ε) (.ok t) inTime ms =
      if inTime ∧ (t.send request).1.isOk ∧ verdict ((unread t.reads).take headSize) then passed ms
      else failed := by
  rw [check, probeResolved_verdict]
  generalize (t.send request).1 = sent
  generalize verdict ((unread t.reads).take headSize) = v
  cases sent with
  | error e => exact (if_neg fun h => Bool.false_ne_true h.2.1).symm
  | ok u =>
      show (if (inTime && v) = true then passed ms else failed) = _
      refine if_congr ?_ rfl rfl
      rw [Bool.and_eq_true]
      exact ⟨fun h => ⟨h.1, rfl, h.2⟩, fun h => ⟨h.1, h.2.2⟩⟩

/-- The page is there, and the line that says so arrives in two pieces. -/
example : (check (ε := Unit) (.ok (.serving [.data 72 (bytes "TTP/1.1 20".toList), .pending,
    .data 52 (bytes " No Content\r\n".toList)] .eof)) true 400).status = .slow := by
  decide +kernel

end HealthChecker

end RustClash
