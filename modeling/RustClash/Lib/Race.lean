import Mathlib.Algebra.GroupWithZero.Nat
import Mathlib.Data.List.Perm.Subperm
import Mathlib.Data.List.Range
import RustClash.Lib.Lts

/-!
# Races

Tasks run side by side, and each sends at most one message over a channel.  A receiver takes the
messages in the order in which they were sent, until one of them decides, until none can come any
more, or until its time is up.  `verdict` says what the receiver knows at any point of any run, and
`waits` that it never waits for nothing.
-/

structure Race (τ μ ρ α : Type) where
  /-- What the task at a place may do at a time: it sends a message, or goes on. -/
  step : Nat → Nat → τ → Option μ → τ → Prop
  ended : τ → Prop
  /-- What becomes of the tasks once the receiver has decided. -/
  stop : τ → τ
  receive : ρ → μ → ρ ⊕ α
  /-- The channel is empty and will stay so. -/
  closed : ρ → α
  /-- When the receiver gives up, and what it says then. -/
  deadline : Option (Nat × α)

namespace Race

variable {τ μ ρ α : Type}

/-- The messages that were sent, of which the receiver took the first `taken`. -/
structure State (τ μ ρ α : Type) where
  now : Nat
  tasks : List τ
  sent : List (Nat × μ)
  taken : Nat
  receiver : ρ ⊕ α

def start (tasks : List τ) (r : ρ) : State τ μ ρ α := ⟨0, tasks, [], 0, .inl r⟩

inductive Event where
  | tick (d : Nat)
  | task (i : Nat)
  | receive
  | close
  | expire

variable (race : Race τ μ ρ α)

/-- The messages in their order, up to the one that decides. -/
def read : ρ → List μ → ρ ⊕ α
  | r, [] => .inl r
  | r, m :: ms => (race.receive r m).elim (fun r => read r ms) .inr

inductive Step (s : State τ μ ρ α) : Event → State τ μ ρ α → Prop
| tick {d : Nat} :
  Step s (.tick d) { s with now := s.now + d }
| task {i : Nat} {t t' : τ} {m : Option μ} :
  s.tasks[i]? = some t ->
  race.step s.now i t m t' ->
  Step s (.task i)
    { s with tasks := s.tasks.set i t', sent := s.sent ++ m.toList.map fun m => (i, m) }
| receive {r r' : ρ} {i : Nat} {m : μ} :
  s.receiver = .inl r ->
  s.sent[s.taken]? = some (i, m) ->
  race.receive r m = .inl r' ->
  Step s .receive { s with taken := s.taken + 1, receiver := .inl r' }
| decide {r : ρ} {a : α} {i : Nat} {m : μ} :
  s.receiver = .inl r ->
  s.sent[s.taken]? = some (i, m) ->
  race.receive r m = .inr a ->
  Step s .receive
    { s with taken := s.taken + 1, receiver := .inr a, tasks := s.tasks.map race.stop }
| close {r : ρ} :
  s.receiver = .inl r ->
  s.taken = s.sent.length ->
  (∀ t ∈ s.tasks, race.ended t) ->
  Step s .close { s with receiver := .inr (race.closed r) }
| expire {r : ρ} {t : Nat} {a : α} :
  s.receiver = .inl r ->
  race.deadline = some (t, a) ->
  t ≤ s.now ->
  Step s .expire { s with receiver := .inr a }

/-- A task sends one message at most, and that is its end. -/
structure Once : Prop where
  ends : ∀ {now i t m t'}, race.step now i t (some m) t' → race.ended t'
  stays : ∀ {now i t m t'}, race.ended t → ¬ race.step now i t m t'
  stop : ∀ {t}, race.ended t → race.ended (race.stop t)

/-- What the receiver knows, that started with `r₀`. -/
inductive Verdict (r₀ : ρ) (s : State τ μ ρ α) : Prop
| running {r : ρ} :
  s.receiver = .inl r ->
  race.read r₀ ((s.sent.take s.taken).map Prod.snd) = .inl r ->
  Verdict r₀ s
| decided {a : α} :
  s.receiver = .inr a ->
  race.read r₀ ((s.sent.take s.taken).map Prod.snd) = .inr a ->
  Verdict r₀ s
| closed {r : ρ} :
  s.receiver = .inr (race.closed r) ->
  s.taken = s.sent.length ->
  race.read r₀ (s.sent.map Prod.snd) = .inl r ->
  (∀ t ∈ s.tasks, race.ended t) ->
  Verdict r₀ s
| expired {r : ρ} {t : Nat} {a : α} :
  s.receiver = .inr a ->
  race.deadline = some (t, a) ->
  t ≤ s.now ->
  race.read r₀ ((s.sent.take s.taken).map Prod.snd) = .inl r ->
  Verdict r₀ s

structure Inv (n : Nat) (r₀ : ρ) (s : State τ μ ρ α) : Prop where
  size : s.tasks.length = n
  taken : s.taken ≤ s.sent.length
  /-- Each message is from a task that has ended, and there is one from each at most. -/
  senders : ∀ x ∈ s.sent, ∃ t, s.tasks[x.1]? = some t ∧ race.ended t
  once : (s.sent.map Prod.fst).Nodup
  verdict : race.Verdict r₀ s

variable {race} {n : Nat} {r₀ : ρ} {s s' : State τ μ ρ α} {e : Event}

theorem inv_start (tasks : List τ) (r : ρ) : race.Inv tasks.length r (start tasks r) where
  size := rfl
  taken := Nat.zero_le _
  senders := by
    intro x hx
    cases hx
  once := List.nodup_nil
  verdict := .running rfl rfl

theorem read_snoc (r : ρ) (ms : List μ) (m : μ) :
    race.read r (ms ++ [m]) = (race.read r ms).elim (fun r => race.receive r m) .inr := by
  induction ms generalizing r with
  | nil =>
    simp only [List.nil_append, read, Sum.elim_inl]
    rcases race.receive r m with r' | a <;> rfl
  | cons m' ms ih =>
    simp only [List.cons_append, read]
    rcases race.receive r m' with r' | a
    · exact ih r'
    · rfl

/-- One message more is taken. -/
theorem read_taken {r : ρ} {i : Nat} {m : μ} (hm : s.sent[s.taken]? = some (i, m))
    (h : race.read r₀ ((s.sent.take s.taken).map Prod.snd) = .inl r) :
    race.read r₀ ((s.sent.take (s.taken + 1)).map Prod.snd) = race.receive r m := by
  rw [List.take_add_one, hm, Option.toList_some, List.map_append, List.map_singleton, read_snoc, h]
  rfl

theorem Verdict.reads {r : ρ} (h : race.Verdict r₀ s) (hr : s.receiver = .inl r) :
    race.read r₀ ((s.sent.take s.taken).map Prod.snd) = .inl r := by
  cases h with
  | running hr' hread =>
    cases hr.symm.trans hr'
    exact hread
  | decided hr' => cases hr.symm.trans hr'
  | closed hr' => cases hr.symm.trans hr'
  | expired hr' => cases hr.symm.trans hr'

/-- The messages that were taken stay the same when others are sent. -/
theorem take_sent (h : s.taken ≤ s.sent.length) (more : List (Nat × μ)) :
    (s.sent ++ more).take s.taken = s.sent.take s.taken :=
  List.take_append_of_le_length h

theorem Inv.task (honce : race.Once) (h : race.Inv n r₀ s) {i : Nat} {t t' : τ} {m : Option μ}
    (ht : s.tasks[i]? = some t) (hstep : race.step s.now i t m t') :
    race.Inv n r₀
      { s with tasks := s.tasks.set i t', sent := s.sent ++ m.toList.map fun m => (i, m) } := by
  have hlt : i < s.tasks.length := (List.getElem?_eq_some_iff.mp ht).1
  have hnew : ¬ race.ended t := fun hended => honce.stays hended hstep
  have hother : ∀ x ∈ s.sent, x.1 ≠ i := by
    rintro x hx rfl
    obtain ⟨t₁, ht₁, hended⟩ := h.senders x hx
    cases ht.symm.trans ht₁
    exact hnew hended
  refine ⟨(List.length_set ..).trans h.size, ?_, ?_, ?_, ?_⟩
  · exact Nat.le_trans h.taken (List.length_append ▸ Nat.le_add_right _ _)
  · intro x hx
    rcases List.mem_append.mp hx with hx | hx
    · obtain ⟨t₁, ht₁, hended⟩ := h.senders x hx
      exact ⟨t₁, (List.getElem?_set_ne (Ne.symm (hother x hx))).trans ht₁, hended⟩
    · cases m with
      | none => cases hx
      | some m =>
        rw [List.mem_singleton.mp hx]
        exact ⟨t', List.getElem?_set_self hlt, honce.ends hstep⟩
  · cases m with
    | none =>
      simp only [Option.toList_none, List.map_nil, List.append_nil]
      exact h.once
    | some m =>
      simp only [Option.toList_some, List.map_singleton, List.map_append]
      refine List.nodup_append.mpr ⟨h.once, List.pairwise_singleton _ i, ?_⟩
      intro j hj k hk
      rw [List.mem_singleton.mp hk]
      obtain ⟨x, hx, rfl⟩ := List.mem_map.mp hj
      exact hother x hx
  · cases h.verdict with
    | running hr hread => exact .running hr (by rw [take_sent h.taken]; exact hread)
    | decided hr hread => exact .decided hr (by rw [take_sent h.taken]; exact hread)
    | closed _ _ _ hended => exact absurd (hended t (List.mem_of_getElem? ht)) hnew
    | expired hr hdead hnow hread =>
      exact .expired hr hdead hnow (by rw [take_sent h.taken]; exact hread)

theorem Inv.step (honce : race.Once) (h : race.Inv n r₀ s) (hstep : race.Step s e s') :
    race.Inv n r₀ s' := by
  cases hstep with
  | tick =>
    refine ⟨h.size, h.taken, h.senders, h.once, ?_⟩
    cases h.verdict with
    | running hr hread => exact .running hr hread
    | decided hr hread => exact .decided hr hread
    | closed hr htaken hread hended => exact .closed hr htaken hread hended
    | expired hr hdead hnow hread =>
      exact .expired hr hdead (Nat.le_trans hnow (Nat.le_add_right _ _)) hread
  | task ht hstep => exact h.task honce ht hstep
  | receive hr hm hreceive =>
    have hlt := (List.getElem?_eq_some_iff.mp hm).1
    exact ⟨h.size, hlt, h.senders, h.once,
      .running rfl ((read_taken hm (h.verdict.reads hr)).trans hreceive)⟩
  | decide hr hm hreceive =>
    have hlt := (List.getElem?_eq_some_iff.mp hm).1
    refine ⟨(List.length_map ..).trans h.size, hlt, ?_, h.once,
      .decided rfl ((read_taken hm (h.verdict.reads hr)).trans hreceive)⟩
    intro x hx
    obtain ⟨t, ht, hended⟩ := h.senders x hx
    exact ⟨race.stop t, by rw [List.getElem?_map, ht]; rfl, honce.stop hended⟩
  | close hr htaken hended =>
    have hread := h.verdict.reads hr
    rw [htaken, List.take_length] at hread
    exact ⟨h.size, h.taken, h.senders, h.once, .closed rfl htaken hread hended⟩
  | expire hr hdead hnow =>
    exact ⟨h.size, h.taken, h.senders, h.once, .expired rfl hdead hnow (h.verdict.reads hr)⟩

theorem inv_run (honce : race.Once) {tasks : List τ} {es : List Event}
    (h : Run race.Step (start tasks r₀) es s) : race.Inv tasks.length r₀ s :=
  h.invariant (I := race.Inv tasks.length r₀) (fun hi hs => hi.step honce hs)
    (inv_start tasks r₀)

theorem Inv.sender_lt (h : race.Inv n r₀ s) {x : Nat × μ} (hx : x ∈ s.sent) : x.1 < n := by
  obtain ⟨t, ht, -⟩ := h.senders x hx
  exact h.size ▸ (List.getElem?_eq_some_iff.mp ht).1

theorem Inv.senders_subset (h : race.Inv n r₀ s) : s.sent.map Prod.fst ⊆ List.range n := by
  intro i hi
  obtain ⟨x, hx, rfl⟩ := List.mem_map.mp hi
  exact List.mem_range.mpr (h.sender_lt hx)

theorem Inv.sent_le (h : race.Inv n r₀ s) : s.sent.length ≤ n := by
  have hle := (h.once.subperm h.senders_subset).length_le
  rwa [List.length_map, List.length_range] at hle

/-- Once there are as many messages as tasks, each has sent one. -/
theorem Inv.all_sent (h : race.Inv n r₀ s) (hall : n ≤ s.sent.length) {i : Nat} (hi : i < n) :
    ∃ m, (i, m) ∈ s.sent := by
  have hsub : List.range n ⊆ s.sent.map Prod.fst := by
    refine ((h.once.subperm h.senders_subset).perm_of_length_le ?_).symm.subset
    rw [List.length_map, List.length_range]
    exact hall
  obtain ⟨x, hx, rfl⟩ := List.mem_map.mp (hsub (List.mem_range.mpr hi))
  exact ⟨x.2, hx⟩

/-- If every task has sent a message, there are as many. -/
theorem le_sent (h : ∀ i < n, ∃ m, (i, m) ∈ s.sent) : n ≤ s.sent.length := by
  have hsub : List.range n ⊆ s.sent.map Prod.fst := by
    intro i hi
    obtain ⟨m, hm⟩ := h i (List.mem_range.mp hi)
    exact List.mem_map.mpr ⟨_, hm, rfl⟩
  have hle := (List.nodup_range.subperm hsub).length_le
  rwa [List.length_map, List.length_range] at hle

/-! ## The end of a race -/

/-- What a state has still to do: a task may send once more, and a message must be taken. -/
def left (weight : τ → Nat) (s : State τ μ ρ α) : Nat :=
  2 * (s.tasks.map weight).sum + (s.sent.length - s.taken) +
    s.receiver.elim (fun _ => 1) fun _ => 0

/-- Each of `n` tasks knows by when it takes its next step, which brings it nearer to its end, and
none is under way after `limit`. -/
structure Timely (race : Race τ μ ρ α) (weight : τ → Nat) (due : Nat → τ → Nat) (n limit : Nat) :
    Prop where
  nearer : ∀ {now i t m t'}, race.step now i t m t' → weight t' < weight t
  stop : ∀ t, weight (race.stop t) ≤ weight t
  goes : ∀ {now i t}, i < n → ¬ race.ended t → due i t ≤ now → ∃ m t', race.step now i t m t'
  next : ∀ {now i t m t'}, i < n → race.step now i t m t' → now ≤ due i t → ¬ race.ended t' →
    now ≤ due i t' ∧ due i t' ≤ limit

/-- Time passes only while everybody waits for it, and no further than the next thing that is
due. -/
structure Prompt (race : Race τ μ ρ α) (due : Nat → τ → Nat) (s : State τ μ ρ α) (d : Nat) :
    Prop where
  idle : s.taken = s.sent.length
  running : ∃ (i : Nat) (t : τ), s.tasks[i]? = some t ∧ ¬ race.ended t
  due : ∀ (i : Nat) (t : τ), s.tasks[i]? = some t → ¬ race.ended t → s.now + d ≤ due i t
  deadline : ∀ t a, race.deadline = some (t, a) → s.now + d ≤ t

/-- A step, and a prompt one as long as the receiver has not decided. -/
structure PromptStep (race : Race τ μ ρ α) (due : Nat → τ → Nat) (s : State τ μ ρ α) (e : Event)
    (s' : State τ μ ρ α) : Prop where
  step : race.Step s e s'
  prompt : ∀ r d, s.receiver = .inl r → e = .tick d → race.Prompt due s d

def Event.ticks : Event → Bool
  | .tick _ => true
  | _ => false

variable {weight : τ → Nat} {due : Nat → τ → Nat} {limit : Nat}

theorem sum_map_le {f g : τ → Nat} (h : ∀ t, f t ≤ g t) (ts : List τ) :
    (ts.map f).sum ≤ (ts.map g).sum := by
  induction ts with
  | nil => exact Nat.le_refl 0
  | cons t ts ih =>
    simp only [List.map_cons, List.sum_cons]
    exact Nat.add_le_add (h t) ih

theorem sum_set_lt {ts : List τ} {i : Nat} {t t' : τ} (ht : ts[i]? = some t)
    (hlt : weight t' < weight t) : ((ts.set i t').map weight).sum < (ts.map weight).sum := by
  induction ts generalizing i with
  | nil => cases ht
  | cons u ts ih =>
    cases i with
    | zero =>
      cases ht
      simp only [List.set_cons_zero, List.map_cons, List.sum_cons]
      omega
    | succ i =>
      simp only [List.set_cons_succ, List.map_cons, List.sum_cons]
      have := ih (i := i) ht
      omega

/-- Every event but the passing of time leaves less to do. -/
theorem Step.less (htimely : race.Timely weight due n limit) (hstep : race.Step s e s')
    (he : e.ticks = false) : left weight s' < left weight s := by
  cases hstep with
  | tick => cases he
  | @task i t t' m ht hstep =>
    have hlt := sum_set_lt ht (htimely.nearer hstep)
    have hone : m.toList.length ≤ 1 := by cases m <;> simp
    simp only [left, List.length_append, List.length_map]
    omega
  | receive hr hm =>
    have hlt := (List.getElem?_eq_some_iff.mp hm).1
    simp only [left, hr, Sum.elim_inl]
    omega
  | decide hr hm =>
    have hlt := (List.getElem?_eq_some_iff.mp hm).1
    have hsum := sum_map_le htimely.stop s.tasks
    simp only [left, hr, Sum.elim_inl, Sum.elim_inr, List.map_map, Function.comp_def]
    omega
  | close hr =>
    simp only [left, hr, Sum.elim_inl, Sum.elim_inr]
    omega
  | expire hr =>
    simp only [left, hr, Sum.elim_inl, Sum.elim_inr]
    omega

theorem Step.left_of_ticks (hstep : race.Step s e s') (he : e.ticks = true) :
    left weight s' = left weight s := by
  cases hstep with
  | tick => rfl
  | task => cases he
  | receive => cases he
  | decide => cases he
  | close => cases he
  | expire => cases he

/-- There are only so many events besides the passing of time. -/
theorem events_le (htimely : race.Timely weight due n limit) {es : List Event}
    (h : Run race.Step s es s') :
    es.countP (fun e => !e.ticks) + left weight s' ≤ left weight s := by
  induction h with
  | nil => exact Nat.le_of_eq (Nat.zero_add _)
  | @snoc es t u e _ hstep ih =>
    rw [List.countP_append, List.countP_singleton]
    cases he : e.ticks with
    | true =>
      rw [hstep.left_of_ticks he]
      exact ih
    | false =>
      have hless := hstep.less htimely he
      simp only [Bool.not_false, if_true]
      omega

/-- What is true of a prompt run as long as the receiver has not decided. -/
structure InTime (race : Race τ μ ρ α) (due : Nat → τ → Nat) (limit : Nat) (s : State τ μ ρ α) :
    Prop where
  now : s.now ≤ limit
  due : ∀ (i : Nat) (t : τ), s.tasks[i]? = some t → ¬ race.ended t →
    s.now ≤ due i t ∧ due i t ≤ limit
  deadline : ∀ t a, race.deadline = some (t, a) → s.now ≤ t

theorem InTime.step (honce : race.Once) (htimely : race.Timely weight due n limit)
    (hsize : s.tasks.length = n) (hstep : race.PromptStep due s e s') {r r' : ρ}
    (hr : s.receiver = .inl r) (hr' : s'.receiver = .inl r') (h : race.InTime due limit s) :
    race.InTime due limit s' := by
  have hprompt := hstep.prompt
  cases hstep.step with
  | @tick d =>
    have hp := hprompt r d hr rfl
    obtain ⟨i, t, hi, ht⟩ := hp.running
    exact ⟨Nat.le_trans (hp.due i t hi ht) (h.due i t hi ht).2,
      fun j u hj hu => ⟨hp.due j u hj hu, (h.due j u hj hu).2⟩, hp.deadline⟩
  | @task i t t' m ht htask =>
    refine ⟨h.now, ?_, h.deadline⟩
    intro j u hj hu
    by_cases hij : i = j
    · subst hij
      have hlt := (List.getElem?_eq_some_iff.mp ht).1
      cases (List.getElem?_set_self hlt).symm.trans hj
      have hnew : ¬ race.ended t := fun hended => honce.stays hended htask
      exact htimely.next (hsize ▸ hlt) htask (h.due i t ht hnew).1 hu
    · exact h.due j u ((List.getElem?_set_ne hij).symm.trans hj) hu
  | receive => exact ⟨h.now, h.due, h.deadline⟩
  | decide => cases hr'
  | close => cases hr'
  | expire => cases hr'

/-- What was undecided after a step was undecided before it. -/
theorem Step.undecided (hstep : race.Step s e s') {r' : ρ} (hr' : s'.receiver = .inl r') :
    ∃ r, s.receiver = .inl r := by
  cases hstep with
  | tick => exact ⟨r', hr'⟩
  | task => exact ⟨r', hr'⟩
  | receive hr => exact ⟨_, hr⟩
  | decide => cases hr'
  | close => cases hr'
  | expire => cases hr'

/-- As long as the receiver has not decided, the limit has not passed. -/
theorem inTime_run (honce : race.Once) {tasks : List τ}
    (htimely : race.Timely weight due tasks.length limit)
    (hstart : race.InTime due limit (start tasks r₀)) {es : List Event}
    (h : Run (race.PromptStep due) (start tasks r₀) es s) {r : ρ} (hr : s.receiver = .inl r) :
    race.InTime due limit s := by
  induction h generalizing r with
  | nil => exact hstart
  | snoc hrun hstep ih =>
    obtain ⟨r₁, hr₁⟩ := hstep.step.undecided hr
    have hsize := (inv_run honce (hrun.mono PromptStep.step)).size
    exact (ih hr₁).step honce htimely hsize hstep hr₁ hr

/-- A receiver that has not decided waits for something that can happen at once, or else for time
to pass. -/
theorem goes_on (htimely : race.Timely weight due n limit) (hsize : s.tasks.length = n)
    (htaken : s.taken ≤ s.sent.length) {r : ρ} (hr : s.receiver = .inl r) :
    ∃ e s', race.PromptStep due s e s' ∧ (e = .tick 1 ∨ e.ticks = false) := by
  have hnow : ∀ {e s'}, race.Step s e s' → e.ticks = false →
      ∃ e s', race.PromptStep due s e s' ∧ (e = .tick 1 ∨ e.ticks = false) := by
    intro e s' hstep he
    refine ⟨e, s', ⟨hstep, ?_⟩, .inr he⟩
    rintro r d - rfl
    cases he
  rcases Nat.lt_or_eq_of_le htaken with hlt | hidle
  · rcases hm : s.sent[s.taken] with ⟨i, m⟩
    have hget : s.sent[s.taken]? = some (i, m) := by rw [List.getElem?_eq_getElem hlt, hm]
    rcases hreceive : race.receive r m with r' | a
    · exact hnow (.receive hr hget hreceive) rfl
    · exact hnow (.decide hr hget hreceive) rfl
  · by_cases hended : ∀ t ∈ s.tasks, race.ended t
    · exact hnow (.close hr hidle hended) rfl
    · simp only [not_forall] at hended
      obtain ⟨t, hmem, ht⟩ := hended
      obtain ⟨i, hi⟩ := List.getElem?_of_mem hmem
      by_cases hdue : ∃ (j : Nat) (u : τ), s.tasks[j]? = some u ∧ ¬ race.ended u ∧ due j u ≤ s.now
      · obtain ⟨j, u, hj, hu, hle⟩ := hdue
        have hlt := (List.getElem?_eq_some_iff.mp hj).1
        obtain ⟨m, u', hstep⟩ := htimely.goes (hsize ▸ hlt) hu hle
        exact hnow (.task hj hstep) rfl
      · by_cases hdead : ∃ t a, race.deadline = some (t, a) ∧ t ≤ s.now
        · obtain ⟨t, a, hdead, hle⟩ := hdead
          exact hnow (.expire hr hdead hle) rfl
        · refine ⟨.tick 1, _, ⟨.tick, ?_⟩, .inl rfl⟩
          rintro r' d - hd
          cases hd
          refine ⟨hidle, ⟨i, t, hi, ht⟩, ?_, ?_⟩
          · intro j u hj hu
            exact Nat.lt_of_not_le fun hle => hdue ⟨j, u, hj, hu, hle⟩
          · intro t a hta
            exact Nat.lt_of_not_le fun hle => hdead ⟨t, a, hta, hle⟩

end Race
