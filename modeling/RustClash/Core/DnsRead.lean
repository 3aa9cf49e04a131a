import RustClash.Core.Dns

/-!
# What the readers of DNS messages read

`NameAt` is the grammar of names: labels of at most 63 bytes, the root, and pointers to
anywhere in the message.  A derivation is as long as the reading of the name
(`readLabels_nameAt`).  `InPlace` is where a name ends in its own place, whatever it
points to; it follows from a reading that succeeds, of any bytes at all.
-/

namespace RustClash

namespace Dns

open Str Checked

variable {msg : Bytes}

/-! ## Bytes at an offset -/

theorem get_of_getElem? {α : Type} {xs : List α} {i : Nat} {x : α} (h : xs[i]? = some x) :
    get xs i = .ok x := by
  rw [Checked.get, h]

/-- What stands at an offset is read there. -/
theorem read_cons {b : UInt8} {bs : Bytes} {off : Nat} (h : b :: bs <+: msg.drop off) :
    msg[off]? = some b ∧ off + 1 + bs.length ≤ msg.length ∧
      slice msg (off + 1) (off + 1 + bs.length) = .ok bs := by
  obtain ⟨rest, hrest⟩ := h
  have hlen : (b :: bs ++ rest).length = msg.length - off := by rw [hrest, List.length_drop]
  rw [List.cons_append, List.length_cons, List.length_append] at hlen
  have hle : off + 1 + bs.length ≤ msg.length := by omega
  refine ⟨?_, hle, ?_⟩
  · rw [← Nat.add_zero off, ← List.getElem?_drop, ← hrest]
    rfl
  · have hdrop : msg.drop (off + 1) = bs ++ rest := by
      rw [← List.drop_drop, ← hrest]
      rfl
    rw [slice_ok (by omega) hle, List.drop_take, hdrop,
      show off + 1 + bs.length - (off + 1) = bs.length by omega, List.take_left]

theorem prefix_of_eq {α : Type} {a xs : List α} (h : xs = a) : a <+: xs.drop 0 :=
  ⟨[], (List.append_nil a).trans h.symm⟩

/-- What stands behind something at an offset. -/
theorem prefix_drop {α : Type} {a b xs : List α} {n : Nat} (h : a ++ b <+: xs.drop n) :
    b <+: xs.drop (n + a.length) := by
  obtain ⟨rest, hrest⟩ := h
  rw [← List.drop_drop, ← hrest, List.append_assoc, List.drop_left]
  exact List.prefix_append _ _

theorem be16_of_isPrefix {v : UInt16} {bs : Bytes} {off : Nat}
    (h : toBe16 v.toNat ++ bs <+: msg.drop off) : be16 msg off = .ok v := by
  have hcons : toBe16 v.toNat ++ bs = UInt8.ofNat (v.toNat / 256) :: UInt8.ofNat v.toNat :: bs := rfl
  rw [hcons] at h
  obtain ⟨hhi, -, -⟩ := read_cons h
  have hlo : UInt8.ofNat v.toNat :: bs <+: msg.drop (off + 1) := prefix_drop (a := [_]) h
  rw [be16, get_of_getElem? hhi]
  show (get msg (off + 1) >>= _) = _
  rw [get_of_getElem? (read_cons hlo).1]
  have hv : ofBe16 (UInt8.ofNat (v.toNat / 256)) (UInt8.ofNat v.toNat) = v.toNat :=
    ofBe16_toBe16 v.toNat_lt
  show Except.ok (UInt16.ofNat (ofBe16 _ _)) = _
  rw [hv, UInt16.ofNat_toNat]

theorem getElem?_of_get {i : Nat} {b : UInt8} (h : get msg i = .ok b) : msg[i]? = some b := by
  rw [Checked.get] at h
  cases hb : msg[i]? with
  | none => rw [hb] at h; cases h
  | some c => rw [hb] at h; cases h; rfl

theorem isPrefix_of_be16 {i : Nat} {v : UInt16} (h : be16 msg i = .ok v) :
    toBe16 v.toNat <+: msg.drop i := by
  obtain ⟨hi, hhi, h⟩ := bind_eq_ok.mp h
  obtain ⟨lo, hlo, h⟩ := bind_eq_ok.mp h
  cases h
  have hlt : ofBe16 hi lo < 2 ^ 16 := by
    have := hi.toNat_lt
    have := lo.toNat_lt
    simp only [ofBe16]
    omega
  have hget := List.getElem?_eq_some_iff.mp (getElem?_of_get hhi)
  have hget' := List.getElem?_eq_some_iff.mp (getElem?_of_get hlo)
  rw [UInt16.toNat_ofNat_of_lt' hlt, toBe16_ofBe16, List.drop_eq_getElem_cons hget.1,
    List.drop_eq_getElem_cons hget'.1, hget.2, hget'.2]
  exact ⟨_, rfl⟩

theorem prefix_append_drop {a b : Bytes} {off : Nat} (ha : a <+: msg.drop off)
    (hb : b <+: msg.drop (off + a.length)) : a ++ b <+: msg.drop off := by
  obtain ⟨rest, hrest⟩ := ha
  rw [← List.drop_drop, ← hrest, List.drop_left] at hb
  rw [← hrest]
  exact (List.prefix_append_right_inj a).mpr hb

theorem be16_eq_iff {i : Nat} {v : UInt16} :
    be16 msg i = .ok v ↔ toBe16 v.toNat <+: msg.drop i :=
  ⟨isPrefix_of_be16, fun h => @be16_of_isPrefix msg v [] i (by rwa [List.append_nil])⟩

theorem runs_be16 {off : Nat} (h : off + 2 ≤ msg.length) : Runs (be16 msg off) := by
  rw [be16]
  refine Runs.bind ⟨_, get_ok (by omega) 0⟩ fun hi => ?_
  exact Runs.bind ⟨_, get_ok (by omega) 0⟩ fun lo => runs_pure _

/-! ## The rounds of `read_dns_name` -/

variable {n : Nat} {r : NameReader}

theorem readLabels_root (h : msg[r.off]? = some 0) : readLabels msg (n + 1) r =
    .ok (some (join ['.'] r.labels, if r.jumped then r.stop else r.off + 1)) := by
  have hlt : r.off < msg.length := (List.getElem?_eq_some_iff.mp h).1
  rw [readLabels, if_neg (by omega), get_of_getElem? h]
  rfl

theorem readLabels_pointer {high low : UInt8} (h : msg[r.off]? = some high)
    (hp : high &&& 0xC0 = 0xC0) (hlow : msg[r.off + 1]? = some low) : readLabels msg (n + 1) r =
    readLabels msg n
      ⟨pointer high low, if r.jumped then r.stop else r.off + 2, true, r.labels⟩ := by
  have hlt : r.off + 1 < msg.length := (List.getElem?_eq_some_iff.mp hlow).1
  have hne : high ≠ 0 := by
    rintro rfl
    cases hp
  rw [readLabels, if_neg (by omega), get_of_getElem? h]
  show (if high = 0 then _ else _) = _
  rw [if_neg hne, if_pos hp, if_neg (by omega), get_of_getElem? hlow]
  rfl

theorem readLabels_label {len : UInt8} {label : Bytes} (hlen : len.toNat = label.length)
    (h0 : len ≠ 0) (hp : len &&& 0xC0 ≠ 0xC0) (h : len :: label <+: msg.drop r.off) :
    readLabels msg (n + 1) r = readLabels msg n ⟨r.off + 1 + label.length, r.stop, r.jumped,
      r.labels ++ [fromUtf8Lossy label]⟩ := by
  obtain ⟨hget, hle, hslice⟩ := read_cons h
  rw [readLabels, if_neg (by omega), get_of_getElem? hget]
  show (if len = 0 then _ else _) = _
  rw [if_neg h0, if_neg hp, hlen, if_neg (by omega), hslice]
  rfl

/-- All that a round does. -/
theorem readLabels_cases (msg : Bytes) (n : Nat) (r : NameReader) :
    readLabels msg (n + 1) r = .ok none ∨
    msg[r.off]? = some 0 ∨
    (∃ high low, msg[r.off]? = some high ∧ high &&& 0xC0 = 0xC0 ∧ msg[r.off + 1]? = some low) ∨
    ∃ len label, len.toNat = label.length ∧ len ≠ 0 ∧ len &&& 0xC0 ≠ 0xC0 ∧
      len :: label <+: msg.drop r.off := by
  by_cases hoff : msg.length ≤ r.off
  · exact .inl (by rw [readLabels, if_pos hoff])
  · have hget : msg[r.off]? = some msg[r.off] := List.getElem?_eq_getElem (Nat.not_le.mp hoff)
    by_cases h0 : msg[r.off] = 0
    · exact .inr (.inl (by rw [hget, h0]))
    · by_cases hp : msg[r.off] &&& 0xC0 = 0xC0
      · by_cases hlow : msg.length ≤ r.off + 1
        · left
          rw [readLabels, if_neg hoff, get_of_getElem? hget]
          show (if msg[r.off] = 0 then _ else _) = _
          rw [if_neg h0, if_pos hp, if_pos hlow]
        · exact .inr (.inr (.inl ⟨_, _, hget, hp, List.getElem?_eq_getElem (Nat.not_le.mp hlow)⟩))
      · by_cases hlen : msg.length < r.off + 1 + msg[r.off].toNat
        · left
          rw [readLabels, if_neg hoff, get_of_getElem? hget]
          show (if msg[r.off] = 0 then _ else _) = _
          rw [if_neg h0, if_neg hp, if_pos hlen]
        · refine .inr (.inr (.inr ⟨_, (msg.drop (r.off + 1)).take msg[r.off].toNat, ?_, h0, hp, ?_⟩))
          · rw [List.length_take, List.length_drop]
            omega
          · rw [List.drop_eq_getElem_cons (Nat.not_le.mp hoff), List.cons_prefix_cons]
            exact ⟨rfl, List.take_prefix _ _⟩

/-! ## Names -/

/-- A name at `off` that is resolved in `k` steps to its labels, and the offset after it. -/
inductive NameAt (msg : Bytes) : (off k : Nat) → (labels : List Bytes) → (next : Nat) → Prop where
  | root {off : Nat} : msg[off]? = some 0 → NameAt msg off 1 [] (off + 1)
  | label {off k next : Nat} {b : Bytes} {labels : List Bytes} : 0 < b.length → b.length < 64 →
      UInt8.ofNat b.length :: b <+: msg.drop off → NameAt msg (off + 1 + b.length) k labels next →
      NameAt msg off (k + 1) (b :: labels) next
  | pointer {off k next : Nat} {high low : UInt8} {labels : List Bytes} :
      msg[off]? = some high → high &&& 0xC0 = 0xC0 → msg[off + 1]? = some low →
      NameAt msg (pointer high low) k labels next → NameAt msg off (k + 1) labels (off + 2)

theorem ofNat_label {m : Nat} (h0 : 0 < m) (h : m < 64) : (UInt8.ofNat m).toNat = m ∧
    UInt8.ofNat m ≠ 0 ∧ UInt8.ofNat m &&& 0xC0 ≠ 0xC0 := by
  have hmod : (UInt8.ofNat m).toNat = m := by
    rw [UInt8.toNat_ofNat']
    omega
  refine ⟨hmod, fun hz => ?_, fun hp => ?_⟩
  · rw [hz] at hmod
    exact absurd hmod (Nat.ne_of_lt h0)
  · have hle : (UInt8.ofNat m &&& 0xC0).toNat ≤ (UInt8.ofNat m).toNat := by
      rw [UInt8.toNat_and]
      exact Nat.and_le_left
    rw [hp, hmod] at hle
    exact absurd hle (by simp; omega)

/-- A name is read in as many rounds as it has steps, and is refused if there are fewer. -/
theorem readLabels_nameAt {off k next : Nat} {labels : List Bytes}
    (h : NameAt msg off k labels next) (stop : Nat) (jumped : Bool) (read : List Str) :
    readLabels msg n ⟨off, stop, jumped, read⟩ = .ok (if k ≤ n then
      some (join ['.'] (read ++ labels.map fromUtf8Lossy), if jumped then stop else next)
    else none) := by
  induction h generalizing n stop jumped read with
  | root h0 =>
      cases n with
      | zero => rfl
      | succ n =>
          rw [readLabels_root h0, if_pos (Nat.le_add_left 1 n), List.map_nil, List.append_nil]
  | label hpos hlt hbytes _ ih =>
      cases n with
      | zero => rfl
      | succ n =>
          obtain ⟨hlen, h0, hp⟩ := ofNat_label hpos hlt
          rw [readLabels_label hlen h0 hp hbytes, ih]
          simp only [Nat.add_le_add_iff_right, List.map_cons, List.append_assoc,
            List.singleton_append]
  | pointer hhigh hp hlow _ ih =>
      cases n with
      | zero => rfl
      | succ n =>
          rw [readLabels_pointer hhigh hp hlow, ih]
          simp only [Nat.add_le_add_iff_right, if_true]

theorem readDnsName_nameAt {off k next : Nat} {labels : List Bytes}
    (h : NameAt msg off k labels next) : readDnsName msg off = .ok (if k ≤ 64 then
      some (join ['.'] (labels.map fromUtf8Lossy), next) else none) :=
  readLabels_nameAt h off false []

/-! ## Any bytes -/

/-- A name ends in its own place with its root or its first pointer. -/
inductive InPlace (msg : Bytes) : (off next : Nat) → Prop where
  | root {off : Nat} : msg[off]? = some 0 → InPlace msg off (off + 1)
  | pointer {off : Nat} {high : UInt8} : msg[off]? = some high → high &&& 0xC0 = 0xC0 →
      off + 2 ≤ msg.length → InPlace msg off (off + 2)
  | label {off next : Nat} {len : UInt8} : msg[off]? = some len → len ≠ 0 → len &&& 0xC0 ≠ 0xC0 →
      off + 1 + len.toNat ≤ msg.length → InPlace msg (off + 1 + len.toNat) next → InPlace msg off next

theorem InPlace.bounds {off next : Nat} (h : InPlace msg off next) :
    off < next ∧ next ≤ msg.length := by
  induction h with
  | root h0 =>
      have hlt := (List.getElem?_eq_some_iff.mp h0).1
      omega
  | pointer _ _ hle => omega
  | label _ _ _ _ _ ih => omega

/-- The loop returns, and what it resumes at is fixed by the labels before its first jump. -/
theorem readLabels_inPlace : ∀ (n : Nat) (r : NameReader), readLabels msg n r = .ok none ∨
    ∃ name next, readLabels msg n r = .ok (some (name, next)) ∧
      if r.jumped then next = r.stop else InPlace msg r.off next
  | 0, _ => .inl rfl
  | n + 1, r => by
      rcases readLabels_cases msg n r with hnone | h0 | ⟨high, low, hhigh, hp, hlow⟩ |
        ⟨len, label, hlen, h0, hp, hbytes⟩
      · exact .inl hnone
      · refine .inr ⟨_, _, readLabels_root h0, ?_⟩
        split
        · rfl
        · exact .root h0
      · have hle : r.off + 2 ≤ msg.length := (List.getElem?_eq_some_iff.mp hlow).1
        rw [readLabels_pointer hhigh hp hlow]
        refine (readLabels_inPlace n _).imp id ?_
        rintro ⟨name, next, hread, hnext⟩
        refine ⟨name, next, hread, ?_⟩
        rw [if_pos rfl] at hnext
        split
        · next hjumped => rw [hnext, if_pos hjumped]
        · next hjumped =>
            rw [hnext, if_neg hjumped]
            exact .pointer hhigh hp hle
      · obtain ⟨hget, hle, -⟩ := read_cons hbytes
        rw [readLabels_label hlen h0 hp hbytes]
        refine (readLabels_inPlace n _).imp id ?_
        rintro ⟨name, next, hread, hnext⟩
        refine ⟨name, next, hread, ?_⟩
        split
        · next hjumped => rwa [if_pos hjumped] at hnext
        · next hjumped =>
            rw [if_neg hjumped, ← hlen] at hnext
            exact .label hget h0 hp (by omega) hnext

/-- A name is refused, or read up to its end in its own place. -/
theorem readDnsName_inPlace (msg : Bytes) (off : Nat) : readDnsName msg off = .ok none ∨
    ∃ name next, readDnsName msg off = .ok (some (name, next)) ∧ InPlace msg off next :=
  readLabels_inPlace 64 _

theorem runs_readDnsName (msg : Bytes) (off : Nat) : Runs (readDnsName msg off) := by
  rcases readDnsName_inPlace msg off with h | ⟨name, next, h, -⟩
  · exact ⟨_, h⟩
  · exact ⟨_, h⟩

theorem runs_parseDnsQuery (payload : Bytes) : Runs (parseDnsQuery payload) := by
  rw [parseDnsQuery]
  split
  · exact runs_ok _
  · next hlen =>
      refine (runs_be16 (by omega)).bind fun id => (runs_be16 (by omega)).bind fun flags => ?_
      split
      · exact runs_ok _
      · refine (runs_be16 (by omega)).bind fun qd => ?_
        split
        · exact runs_ok _
        · refine (runs_readDnsName _ _).bind fun name => ?_
          rcases name with _ | ⟨qname, off⟩
          · exact runs_ok _
          · dsimp only
            split
            · exact runs_ok _
            · next hroom =>
                rw [not_or] at hroom
                exact (runs_be16 (by omega)).bind fun _ => (runs_be16 (by omega)).bind fun _ => runs_ok _

theorem runs_skipQuestions : ∀ (n off : Nat), Runs (skipQuestions msg n off)
  | 0, _ => runs_ok _
  | n + 1, off => by
      rw [skipQuestions]
      refine (runs_readDnsName _ _).bind fun name => ?_
      rcases name with _ | ⟨name, next⟩
      · exact runs_ok _
      · dsimp only
        split
        · exact runs_ok _
        · exact runs_skipQuestions n _

theorem runs_readAddress {off : Nat} (h : off + 4 ≤ msg.length) : Runs (readAddress msg off) := by
  rw [readAddress]
  refine Runs.bind ⟨_, get_ok (by omega) 0⟩ fun a => ?_
  refine Runs.bind ⟨_, get_ok (by omega) 0⟩ fun b => ?_
  refine Runs.bind ⟨_, get_ok (by omega) 0⟩ fun c => ?_
  exact Runs.bind ⟨_, get_ok (by omega) 0⟩ fun d => runs_pure _

theorem runs_readAnswers : ∀ (n off : Nat) (ips : List IpAddr), Runs (readAnswers msg n off ips)
  | 0, _, _ => runs_ok _
  | n + 1, off, ips => by
      rw [readAnswers]
      refine (runs_readDnsName _ _).bind fun name => ?_
      rcases name with _ | ⟨name, next⟩
      · exact runs_ok _
      · dsimp only
        split
        · exact runs_ok _
        · refine (runs_be16 (by omega)).bind fun ty => (runs_be16 (by omega)).bind fun rdlen => ?_
          split
          · exact runs_ok _
          · next hroom =>
              split
              · next ha =>
                  rw [ha.2] at hroom
                  have hfour : (4 : UInt16).toNat = 4 := rfl
                  refine (runs_readAddress (by omega)).bind fun ip => ?_
                  exact runs_readAnswers n _ _
              · exact runs_readAnswers n _ _

theorem runs_parseAAnswers (msg : Bytes) : Runs (parseAAnswers msg) := by
  rw [parseAAnswers]
  split
  · exact runs_ok _
  · refine (runs_be16 (by omega)).bind fun flags => ?_
    split
    · exact runs_ok _
    · refine (runs_be16 (by omega)).bind fun qd => (runs_be16 (by omega)).bind fun an => ?_
      refine (runs_skipQuestions _ _).bind fun off => ?_
      cases off with
      | none => exact runs_ok _
      | some off => exact runs_readAnswers _ _ _

/-- The loop over the labels of a question ends at or after its start. -/
theorem run_questionLoop (query : Bytes) (i : Nat) :
    ∃ j, i ≤ j ∧ (questionLoop query).run i = .ok j := by
  refine Loop.rule (P := fun i r => ∃ j, i ≤ j ∧ r = Except.ok j) ?_ ?_ i
  · rintro i i' r hb ⟨j, hj, hr⟩
    refine ⟨j, ?_, hr⟩
    have hlt := (questionLoop query).decreases hb
    simp only [questionLoop] at hlt
    omega
  · intro i r hb
    simp only [questionLoop] at hb
    split at hb
    · next hlt =>
        rw [get_ok hlt 0] at hb
        split at hb
        · next he => cases he
        · split at hb
          · cases hb
            exact ⟨i, Nat.le_refl _, rfl⟩
          · cases hb
    · cases hb
      exact ⟨i, Nat.le_refl _, rfl⟩

theorem runs_buildAResponse (query : Bytes) (ip : Ipv4Addr) : Runs (buildAResponse query ip) := by
  rw [buildAResponse]
  split
  · exact runs_ok _
  · next hlen =>
      have hheader : ((query.take 12).drop 0).length = 12 := by
        rw [List.drop_zero, List.length_take]
        omega
      obtain ⟨i, hi, hrun⟩ := run_questionLoop query 12
      rw [runs_bind]
      refine ⟨_, slice_ok (by omega) (by omega), ?_⟩
      rw [runs_bind]
      refine ⟨_, copy_ok rfl (by omega), ?_⟩
      rw [runs_bind]
      refine ⟨_, copy_ok rfl (by rw [length_overwrite (by simp; omega)]; omega), ?_⟩
      rw [runs_bind]
      refine ⟨i, hrun, ?_⟩
      split
      · exact runs_ok _
      · rw [runs_bind]
        exact ⟨_, slice_ok (by omega) (by omega), runs_ok _⟩

/-! ## Responses -/

/-- A record of the answer section, behind its name. -/
structure Answer where
  ty : UInt16
  cls : UInt16
  ttl : UInt32
  rdata : Bytes
  short : rdata.length < 65536

def Answer.bytes (a : Answer) : Bytes :=
  toBe16 a.ty.toNat ++ (toBe16 a.cls.toNat ++ (toBe 4 a.ttl.toNat ++
    (toBe16 (UInt16.ofNat a.rdata.length).toNat ++ a.rdata)))

/-- The address of a record of type A. -/
def Answer.address (a : Answer) : Option IpAddr :=
  match a.rdata with
  | [w, x, y, z] => if a.ty = 1 then some (.v4 ⟨w, x, y, z⟩) else none
  | _ => none

structure Header where
  id : UInt16
  flags : UInt16
  qd : UInt16
  an : UInt16
  ns : UInt16
  ar : UInt16

def Header.bytes (h : Header) : Bytes :=
  toBe16 h.id.toNat ++ (toBe16 h.flags.toNat ++ (toBe16 h.qd.toNat ++ (toBe16 h.an.toNat ++
    (toBe16 h.ns.toNat ++ toBe16 h.ar.toNat))))

/-- `n` questions from `off` to `stop`. -/
inductive QuestionsAt (msg : Bytes) : (n off stop : Nat) → Prop where
  | nil {off : Nat} : QuestionsAt msg 0 off off
  | cons {n off k next stop : Nat} {labels : List Bytes} : NameAt msg off k labels next → k ≤ 64 →
      next + 4 ≤ msg.length → QuestionsAt msg n (next + 4) stop → QuestionsAt msg (n + 1) off stop

/-- The records of the answer section, from `off` to `stop`. -/
inductive AnswersAt (msg : Bytes) : (answers : List Answer) → (off stop : Nat) → Prop where
  | nil {off : Nat} : AnswersAt msg [] off off
  | cons {off k next stop : Nat} {labels : List Bytes} {a : Answer} {answers : List Answer} :
      NameAt msg off k labels next → k ≤ 64 → a.bytes <+: msg.drop next →
      AnswersAt msg answers (next + 10 + a.rdata.length) stop → AnswersAt msg (a :: answers) off stop

/-- A response with these records in its answer section.  Whatever follows is not read. -/
inductive Response (msg : Bytes) (answers : List Answer) : Prop where
  | intro (h : Header) (start stop : Nat) : h.bytes <+: msg → h.flags &&& 0x8000 ≠ 0 →
      h.an.toNat = answers.length → QuestionsAt msg h.qd.toNat 12 start →
      AnswersAt msg answers start stop → Response msg answers

theorem skipQuestions_at {n off stop : Nat} (h : QuestionsAt msg n off stop) :
    skipQuestions msg n off = .ok (some stop) := by
  induction h with
  | nil => rfl
  | cons hname hk hroom _ ih =>
      rw [skipQuestions, readDnsName_nameAt hname, if_pos hk]
      show (if _ then _ else _) = _
      rw [if_neg (by omega), ih]

theorem length_answer (a : Answer) : a.bytes.length = 10 + a.rdata.length := by
  simp only [Answer.bytes, List.length_append, length_toBe16, length_toBe]
  omega

theorem readAddress_of_isPrefix {off : Nat} {w x y z : UInt8} (h : [w, x, y, z] <+: msg.drop off) :
    readAddress msg off = .ok (.v4 ⟨w, x, y, z⟩) := by
  have h1 : [x, y, z] <+: msg.drop (off + 1) := prefix_drop (a := [w]) h
  have h2 : [y, z] <+: msg.drop (off + 2) := prefix_drop (a := [x]) h1
  have h3 : [z] <+: msg.drop (off + 3) := prefix_drop (a := [y]) h2
  rw [readAddress, get_of_getElem? (read_cons h).1]
  show (get msg (off + 1) >>= _) = _
  rw [get_of_getElem? (read_cons h1).1]
  show (get msg (off + 2) >>= _) = _
  rw [get_of_getElem? (read_cons h2).1]
  show (get msg (off + 3) >>= _) = _
  rw [get_of_getElem? (read_cons h3).1]
  rfl

/-- One record gives its address, if it has one, and the next is read behind it. -/
theorem readAnswers_record {n off next : Nat} {name : Str} {a : Answer}
    (hread : readDnsName msg off = .ok (some (name, next))) (hbytes : a.bytes <+: msg.drop next)
    (ips : List IpAddr) : readAnswers msg (n + 1) off ips =
      readAnswers msg n (next + 10 + a.rdata.length) (ips ++ a.address.toList) := by
  have hroom : next + 10 + a.rdata.length ≤ msg.length := by
    have hle := hbytes.length_le
    rw [length_answer, List.length_drop] at hle
    omega
  have hrdlen := prefix_drop (prefix_drop (prefix_drop hbytes))
  have hrdata := prefix_drop hrdlen
  have hlen : (UInt16.ofNat a.rdata.length).toNat = a.rdata.length := by
    rw [UInt16.toNat_ofNat']
    exact Nat.mod_eq_of_lt a.short
  simp only [length_toBe16, length_toBe] at hrdlen hrdata
  rw [readAnswers, hread]
  show (if _ then _ else _) = _
  rw [if_neg (by omega), be16_of_isPrefix hbytes]
  show (be16 msg (next + 8) >>= _) = _
  rw [be16_of_isPrefix hrdlen]
  show (if _ then _ else _) = _
  rw [hlen, if_neg (by omega)]
  split
  · next ha =>
      have hfour : a.rdata.length = 4 := by
        rw [← hlen, ha.2]
        rfl
      obtain ⟨w, x, y, z, hwxyz⟩ : ∃ w x y z, a.rdata = [w, x, y, z] := by
        match h : a.rdata, hfour with
        | [w, x, y, z], _ => exact ⟨w, x, y, z, rfl⟩
      have haddress : a.address = some (.v4 ⟨w, x, y, z⟩) := by
        rw [Answer.address, hwxyz]
        exact if_pos ha.1
      rw [hwxyz] at hrdata
      rw [readAddress_of_isPrefix hrdata, haddress]
      rfl
  · next ha =>
      have haddress : a.address = none := by
        rw [Answer.address]
        split
        · next w x y z hwxyz =>
            refine if_neg fun hty => ha ⟨hty, ?_⟩
            rw [hwxyz]
            rfl
        · rfl
      rw [haddress, Option.toList_none, List.append_nil]

theorem readAnswers_cons {n off k next : Nat} {labels : List Bytes} {a : Answer}
    (hname : NameAt msg off k labels next) (hk : k ≤ 64) (hbytes : a.bytes <+: msg.drop next)
    (ips : List IpAddr) : readAnswers msg (n + 1) off ips =
      readAnswers msg n (next + 10 + a.rdata.length) (ips ++ a.address.toList) :=
  readAnswers_record (by rw [readDnsName_nameAt hname, if_pos hk]) hbytes ips

theorem readAnswers_at {answers : List Answer} {off stop : Nat} (h : AnswersAt msg answers off stop)
    (ips : List IpAddr) : readAnswers msg answers.length off ips =
      .ok (some (ips ++ answers.filterMap Answer.address)) := by
  induction h generalizing ips with
  | nil => rw [List.filterMap_nil, List.append_nil]; rfl
  | @cons _ _ _ _ _ a answers hname hk hbytes _ ih =>
      rw [List.length_cons, readAnswers_cons hname hk hbytes, ih, List.append_assoc]
      cases h : a.address <;> simp [h]

theorem parseAAnswers_response {answers : List Answer} (h : Response msg answers) :
    parseAAnswers msg = .ok (some (answers.filterMap Answer.address)) := by
  obtain ⟨header, start, stop, hheader, hflags, han, hquestions, hanswers⟩ := h
  have hflags' := prefix_drop (n := 0) hheader
  have hqd := prefix_drop hflags'
  have han' := prefix_drop hqd
  simp only [length_toBe16] at hflags' hqd han'
  have hlen : 12 ≤ msg.length := hheader.length_le
  rw [parseAAnswers, if_neg (by omega), be16_of_isPrefix hflags']
  show (if _ then _ else _) = _
  rw [if_neg hflags, be16_of_isPrefix hqd]
  show (be16 msg 6 >>= _) = _
  rw [be16_of_isPrefix han']
  show (skipQuestions msg header.qd.toNat 12 >>= _) = _
  rw [skipQuestions_at hquestions, han]
  exact readAnswers_at hanswers []

/-- A response gives the addresses of its records of type A, in order, whatever else it
holds and however its names are written.  Over any bytes the readers return without an
access out of range, and a name that is read ends where its labels do in place. -/
theorem responses_read (msg : Bytes) :
    (∀ answers, Response msg answers →
      parseAAnswers msg = .ok (some (answers.filterMap Answer.address))) ∧
    (∀ off, Runs (readDnsName msg off)) ∧ Runs (parseAAnswers msg) ∧ Runs (parseDnsQuery msg) ∧
    (∀ ip, Runs (buildAResponse msg ip)) ∧
    ∀ off name next, readDnsName msg off = .ok (some (name, next)) →
      InPlace msg off next ∧ off < next ∧ next ≤ msg.length := by
  refine ⟨fun answers h => parseAAnswers_response h, runs_readDnsName msg, runs_parseAAnswers msg,
    runs_parseDnsQuery msg, runs_buildAResponse msg, fun off name next h => ?_⟩
  rcases readDnsName_inPlace msg off with hnone | ⟨name', next', hread, hplace⟩
  · rw [hnone] at h
    cases h
  · rw [hread] at h
    cases h
    exact ⟨hplace, hplace.bounds⟩

/-- One question for `a.b`, its alias `c.b`, and the address of the alias, whose name is a
pointer into the data of the first record. -/
def aliasResponse : Bytes :=
  [0, 1, 0x81, 0x80, 0, 1, 0, 2, 0, 0, 0, 0, 1, 97, 1, 98, 0, 0, 1, 0, 1,
    0xC0, 12, 0, 5, 0, 1, 0, 0, 0, 60, 0, 4, 1, 99, 0xC0, 14,
    0xC0, 33, 0, 1, 0, 1, 0, 0, 0, 60, 0, 4, 1, 2, 3, 4]

theorem responses_read_alias :
    parseAAnswers aliasResponse = .ok (some [.v4 ⟨1, 2, 3, 4⟩]) := by
  have hb : NameAt aliasResponse 14 2 [[98]] 17 :=
    .label (b := [98]) (by decide) (by decide) (by decide) (.root rfl)
  have hab : NameAt aliasResponse 12 3 [[97], [98]] 17 :=
    .label (b := [97]) (by decide) (by decide) (by decide) hb
  have hcb : NameAt aliasResponse 33 4 [[99], [98]] 37 :=
    .label (b := [99]) (by decide) (by decide) (by decide) (.pointer rfl rfl rfl hb)
  refine (responses_read aliasResponse).1 [⟨5, 1, 60, [1, 99, 0xC0, 14], by decide⟩,
    ⟨1, 1, 60, [1, 2, 3, 4], by decide⟩] ?_
  refine .intro ⟨1, 0x8180, 1, 2, 0, 0⟩ 21 53 (by decide) (by decide) rfl ?_ ?_
  · exact .cons hab (by decide) (by decide) .nil
  · exact .cons (.pointer rfl rfl rfl hab) (by decide) (by decide)
      (.cons (.pointer rfl rfl rfl hcb) (by decide) (by decide) .nil)

end Dns

end RustClash
