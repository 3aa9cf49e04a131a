import RustClash.Lib.Race
import RustClash.Net.Addr

/-!
# Connecting to one of many addresses

`connect_happy` tries up to four addresses at once, each a quarter of a second after the one before
it, and keeps the first connection.  The attempts are the tasks of a race, and what the network
does with each of them and when is up to it.
-/

namespace RustClash

/-- `SocketAddr`. -/
structure SocketAddr where
  ip : IpAddr
  port : UInt16
deriving DecidableEq

def IpAddr.isIpv4 : IpAddr → Bool
  | .v4 _ => true
  | .v6 _ => false

def IpAddr.isIpv6 (ip : IpAddr) : Bool := !ip.isIpv4

/-- The errors of `connect_happy`, of which the last are those of the system. -/
inductive ConnectError (ε : Type) where
  /-- "no addresses" -/
  | notFound
  /-- "tcp connect timeout" -/
  | timedOut
  /-- "unreachable" -/
  | hostUnreachable
  | os (e : ε)
deriving DecidableEq

/-- The errors that come from an attempt. -/
inductive ConnectError.OfAttempt {ε : Type} : ConnectError ε → Prop
| timedOut : OfAttempt .timedOut
| os {e : ε} : OfAttempt (.os e)

namespace InterfaceBinder

/-! ## The addresses -/

/-- Addresses are added until there are four. -/
def pushFour (port : UInt16) : List SocketAddr → List IpAddr → List SocketAddr
  | addrs, [] => addrs
  | addrs, ip :: ips =>
      let addrs := addrs ++ [⟨ip, port⟩]
      if addrs.length = 4 then addrs else pushFour port addrs ips

/-- The addresses that are tried. -/
def happyAddrs (ips : List IpAddr) (port : UInt16) : List SocketAddr :=
  let addrs := pushFour port [] (ips.filter IpAddr.isIpv4)
  if addrs.length < 4 then pushFour port addrs (ips.filter IpAddr.isIpv6) else addrs

theorem pushFour_eq (port : UInt16) (ips : List IpAddr) {as : List SocketAddr}
    (h : as.length < 4) :
    pushFour port as ips = (as ++ ips.map (SocketAddr.mk · port)).take 4 := by
  induction ips generalizing as with
  | nil =>
    rw [List.map_nil, List.append_nil, List.take_of_length_le (Nat.le_of_lt h)]
    rfl
  | cons ip ips ih =>
    have hlen : (as ++ [SocketAddr.mk ip port]).length = as.length + 1 := by simp
    rw [List.map_cons, List.append_cons as, pushFour]
    split
    · next hfull => rw [← hfull, List.take_left]
    · next hfull => exact ih (by omega)

/-- The first four, with those of version 4 before the others. -/
theorem happyAddrs_eq (ips : List IpAddr) (port : UInt16) : happyAddrs ips port =
    ((ips.filter IpAddr.isIpv4 ++ ips.filter IpAddr.isIpv6).map (SocketAddr.mk · port)).take 4 := by
  have hfour := @pushFour_eq port (ips.filter IpAddr.isIpv4) [] (by decide)
  rw [List.nil_append] at hfour
  simp only [happyAddrs, List.map_append]
  split
  · next hlt =>
    rw [pushFour_eq port _ hlt, hfour]
    rw [hfour, List.length_take] at hlt
    have hshort : ((ips.filter IpAddr.isIpv4).map (SocketAddr.mk · port)).length ≤ 4 := by omega
    rw [List.take_of_length_le hshort]
  · next hge =>
    rw [hfour, List.length_take] at hge
    rw [hfour, List.take_append_of_le_length (by omega)]

/-! ## The attempts -/

inductive Attempt where
  | sleeping
  | connecting (since : Nat)
  | sent (since : Nat)
  | aborted (since : Option Nat)

namespace Attempt

/-- When the network was first asked. -/
def since : Attempt → Option Nat
  | .sleeping => none
  | .connecting since => some since
  | .sent since => some since
  | .aborted since => since

inductive Ended : Attempt → Prop
| sent {since : Nat} : Ended (.sent since)
| aborted {since : Option Nat} : Ended (.aborted since)

/-- `JoinHandle::abort`. -/
def abort : Attempt → Attempt
  | .sent since => .sent since
  | t => .aborted t.since

theorem since_abort (t : Attempt) : t.abort.since = t.since := by
  cases t <;> rfl

theorem ended_abort (t : Attempt) : t.abort.Ended := by
  cases t with
  | sleeping => exact .aborted
  | connecting => exact .aborted
  | sent => exact .sent
  | aborted => exact .aborted

theorem abort_eq_sent {t : Attempt} {since : Nat} (h : t.abort = .sent since) :
    t = .sent since := by
  cases t with
  | sleeping => cases h
  | connecting => cases h
  | sent => exact h
  | aborted => cases h

variable {ε : Type} (addrs : List SocketAddr) (timeLimit now i : Nat)

/-- The attempt at place `i` sleeps, asks the network, and sends what comes of it. -/
inductive Step :
  Attempt → Option (Except (ConnectError ε) SocketAddr) → Attempt → Prop
| wake :
  250 * i ≤ now ->
  Step .sleeping none (.connecting now)
| connect {since : Nat} {addr : SocketAddr} :
  addrs[i]? = some addr ->
  Step (.connecting since) (some (.ok addr)) (.sent since)
| refuse {since : Nat} (e : ε) :
  Step (.connecting since) (some (.error (.os e))) (.sent since)
| timeout {since : Nat} :
  since + timeLimit ≤ now ->
  Step (.connecting since) (some (.error .timedOut)) (.sent since)

end Attempt

variable {ε : Type}

/-- The loop that receives: the last error, and how many attempts are left. -/
def receive : Option (ConnectError ε) × Nat → Except (ConnectError ε) SocketAddr →
    (Option (ConnectError ε) × Nat) ⊕ Except (ConnectError ε) SocketAddr
  | _, .ok stream => .inr (.ok stream)
  | (_, left), .error e => if left - 1 = 0 then .inr (.error e) else .inl (some e, left - 1)

/-- The attempts at two addresses or more. -/
def connectHappy (addrs : List SocketAddr) (timeLimit : Nat) :
    Race Attempt (Except (ConnectError ε) SocketAddr) (Option (ConnectError ε) × Nat)
      (Except (ConnectError ε) SocketAddr) where
  step := Attempt.Step addrs timeLimit
  ended := Attempt.Ended
  stop := Attempt.abort
  receive := receive
  closed r := .error (r.1.getD .hostUnreachable)
  deadline := none

variable {addrs : List SocketAddr} {timeLimit : Nat}

/-- How a race of two attempts or more stands. -/
abbrev Happy (ε : Type) :=
  Race.State Attempt (Except (ConnectError ε) SocketAddr) (Option (ConnectError ε) × Nat)
    (Except (ConnectError ε) SocketAddr)

def Happy.start (addrs : List SocketAddr) : Happy ε :=
  Race.start (addrs.map fun _ => .sleeping) (none, addrs.length)

theorem connectHappy_once : (connectHappy (ε := ε) addrs timeLimit).Once where
  ends := by
    intro now i t m t' h
    cases h with
    | connect => exact .sent
    | refuse => exact .sent
    | timeout => exact .sent
  stays := by
    intro now i t m t' hended h
    cases hended with
    | sent => cases h
    | aborted => cases h
  stop := by
    intro t h
    cases h with
    | sent => exact .sent
    | aborted => exact .aborted

/-! ## What the receiver reads -/

def Failed (m : Except (ConnectError ε) SocketAddr) : Prop := ∃ e, m = .error e

section Reading

variable {last last' : Option (ConnectError ε)} {left left' : Nat}
  {ms : List (Except (ConnectError ε) SocketAddr)}

/-- Undecided, it has counted every message, and each was an error. -/
theorem read_inl (hleft : 0 < left)
    (h : (connectHappy addrs timeLimit).read (last, left) ms = .inl (last', left')) :
    (∀ m ∈ ms, Failed m) ∧ left' + ms.length = left ∧ 0 < left' := by
  induction ms generalizing last left with
  | nil =>
    cases h
    exact ⟨fun _ hm => (by cases hm), rfl, hleft⟩
  | cons m ms ih =>
    cases m with
    | ok stream => cases h
    | error e =>
      simp only [Race.read, connectHappy, receive] at h
      split at h
      · cases h
      · next hmore =>
        obtain ⟨hfailed, hcount, hpos⟩ := ih (by omega) h
        refine ⟨List.forall_mem_cons.mpr ⟨⟨e, rfl⟩, hfailed⟩, ?_, hpos⟩
        rw [List.length_cons]
        omega

/-- It keeps the first connection, or the error that leaves no attempt. -/
theorem read_inr {r : Except (ConnectError ε) SocketAddr} (hleft : 0 < left)
    (h : (connectHappy addrs timeLimit).read (last, left) ms = .inr r) :
    ∃ before after, ms = before ++ r :: after ∧ (∀ m ∈ before, Failed m) ∧
      (Failed r → before.length + 1 = left) := by
  induction ms generalizing last left with
  | nil => cases h
  | cons m ms ih =>
    cases m with
    | ok stream =>
      cases h
      refine ⟨[], ms, rfl, fun _ hm => (by cases hm), ?_⟩
      rintro ⟨e, he⟩
      cases he
    | error e =>
      simp only [Race.read, connectHappy, receive] at h
      split at h
      · next hlast =>
        cases h
        refine ⟨[], ms, rfl, fun _ hm => (by cases hm), fun _ => ?_⟩
        rw [List.length_nil]
        omega
      · next hmore =>
        obtain ⟨before, after, rfl, hfailed, hcount⟩ := ih (by omega) h
        refine ⟨.error e :: before, after, rfl, List.forall_mem_cons.mpr ⟨⟨e, rfl⟩, hfailed⟩, ?_⟩
        intro hr
        have := hcount hr
        rw [List.length_cons]
        omega

end Reading

/-! ## Every order of events -/

/-- What the others see of a step of the attempt at place `i`. -/
structure Attempt.Seen (addrs : List SocketAddr) (now i : Nat) (t : Attempt)
    (m : Option (Except (ConnectError ε) SocketAddr)) (t' : Attempt) : Prop where
  since : t'.since = some now ∧ 250 * i ≤ now ∨ t'.since = t.since
  lives : ∀ x, t' ≠ .aborted x
  sends : ∀ x, t' = .sent x → ∃ r, m = some r
  addr : ∀ stream, m = some (.ok stream) → addrs[i]? = some stream
  error : ∀ e, m = some (.error e) → e.OfAttempt

theorem Attempt.Step.seen {now i : Nat} {t t' : Attempt}
    {m : Option (Except (ConnectError ε) SocketAddr)}
    (h : Attempt.Step addrs timeLimit now i t m t') : Attempt.Seen addrs now i t m t' := by
  cases h with
  | wake hnow => exact ⟨.inl ⟨rfl, hnow⟩, by simp, by simp, by simp, by simp⟩
  | connect haddr => exact ⟨.inr rfl, by simp, by simp, by simpa using haddr, by simp⟩
  | refuse => exact ⟨.inr rfl, by simp, by simp, by simp, by simpa using .os⟩
  | timeout => exact ⟨.inr rfl, by simp, by simp, by simp, by simpa using .timedOut⟩

/-- What is true of a race at any time. -/
structure Happy.Inv (addrs : List SocketAddr) (timeLimit : Nat) (s : Happy ε) : Prop where
  race : (connectHappy addrs timeLimit).Inv addrs.length (none, addrs.length) s
  /-- Each attempt begins a quarter of a second after the one before it, or later. -/
  since : ∀ (i : Nat) t x, s.tasks[i]? = some t → t.since = some x → 250 * i ≤ x ∧ x ≤ s.now
  sent : ∀ (i : Nat) x, s.tasks[i]? = some (.sent x) → ∃ m, (i, m) ∈ s.sent
  aborted : ∀ (i : Nat) x, s.tasks[i]? = some (.aborted x) → ∃ r, s.receiver = .inr r
  /-- Who is connected is connected to its own address. -/
  addr : ∀ i stream, (i, .ok stream) ∈ s.sent → addrs[i]? = some stream
  error : ∀ i e, (i, .error e) ∈ s.sent → e.OfAttempt
  reads : ∀ r, s.receiver = .inr r → (connectHappy addrs timeLimit).read (none, addrs.length)
    ((s.sent.take s.taken).map Prod.snd) = .inr r
  ended : ∀ r, s.receiver = .inr r → ∀ t ∈ s.tasks, t.Ended

namespace Happy

variable {s s' : Happy ε} {e : Race.Event}

theorem inv_start : (start (ε := ε) addrs).Inv addrs timeLimit where
  race := by
    have hinv : (connectHappy addrs timeLimit).Inv _ _ (start (ε := ε) addrs) := Race.inv_start ..
    rwa [List.length_map] at hinv
  since := by
    intro i t x hi ht
    rw [start, Race.start, List.getElem?_map] at hi
    obtain ⟨a, -, rfl⟩ := Option.map_eq_some_iff.mp hi
    cases ht
  sent := by
    intro i x hi
    rw [start, Race.start, List.getElem?_map] at hi
    obtain ⟨a, -, ha⟩ := Option.map_eq_some_iff.mp hi
    cases ha
  aborted := by
    intro i x hi
    rw [start, Race.start, List.getElem?_map] at hi
    obtain ⟨a, -, ha⟩ := Option.map_eq_some_iff.mp hi
    cases ha
  addr := by
    intro i stream hm
    cases hm
  error := by
    intro i e hm
    cases hm
  reads := by
    intro r hr
    cases hr
  ended := by
    intro r hr
    cases hr

variable (h : s.Inv addrs timeLimit)

include h

theorem Inv.undecided_lt (hpos : 0 < addrs.length) {r : Option (ConnectError ε) × Nat}
    (hr : s.receiver = .inl r) : s.taken < addrs.length := by
  obtain ⟨last, left⟩ := r
  obtain ⟨-, hcount, hleft⟩ := read_inl hpos (h.race.verdict.reads hr)
  rw [List.length_map, List.length_take, Nat.min_eq_left h.race.taken] at hcount
  omega

/-- The channel does not close before the receiver has decided. -/
theorem Inv.not_closed (hpos : 0 < addrs.length) {r : Option (ConnectError ε) × Nat}
    (hr : s.receiver = .inl r) (htaken : s.taken = s.sent.length)
    (hended : ∀ t ∈ s.tasks, t.Ended) : False := by
  have hall : ∀ i < addrs.length, ∃ m, (i, m) ∈ s.sent := by
    intro i hi
    have hlt : i < s.tasks.length := h.race.size.symm ▸ hi
    rcases ht : s.tasks[i]? with - | t
    · exact absurd (List.getElem?_eq_none_iff.mp ht) (Nat.not_le_of_lt hlt)
    · cases hended t (List.mem_of_getElem? ht) with
      | sent => exact h.sent i _ ht
      | aborted =>
        obtain ⟨r', hr'⟩ := h.aborted i _ ht
        cases hr.symm.trans hr'
  have hle := Race.le_sent hall
  have hlt := h.undecided_lt hpos hr
  omega

theorem Inv.task {i : Nat} {t t' : Attempt} {m : Option (Except (ConnectError ε) SocketAddr)}
    (ht : s.tasks[i]? = some t) (hstep : Attempt.Step addrs timeLimit s.now i t m t') :
    Inv addrs timeLimit
      { s with tasks := s.tasks.set i t', sent := s.sent ++ m.toList.map fun m => (i, m) } := by
  have hlt : i < s.tasks.length := (List.getElem?_eq_some_iff.mp ht).1
  have htask : ∀ {j : Nat} {u : Attempt}, (s.tasks.set i t')[j]? = some u →
      i = j ∧ u = t' ∨ s.tasks[j]? = some u := by
    intro j u hj
    by_cases hij : i = j
    · subst hij
      cases (List.getElem?_set_self hlt).symm.trans hj
      exact .inl ⟨rfl, rfl⟩
    · exact .inr ((List.getElem?_set_ne hij).symm.trans hj)
  have hseen := hstep.seen
  refine ⟨h.race.task connectHappy_once ht hstep, ?_, ?_, ?_, ?_, ?_, ?_, ?_⟩
  · intro j u x hj hu
    rcases htask hj with ⟨rfl, rfl⟩ | hj
    · rcases hseen.since with ⟨hnow, hstart⟩ | hsame
      · cases hnow.symm.trans hu
        exact ⟨hstart, Nat.le_refl _⟩
      · exact h.since i t x ht (hsame.symm.trans hu)
    · exact h.since j u x hj hu
  · intro j x hj
    rcases htask hj with ⟨rfl, rfl⟩ | hj
    · obtain ⟨m, rfl⟩ := hseen.sends x rfl
      exact ⟨m, List.mem_append_right _ (by simp)⟩
    · obtain ⟨m, hm⟩ := h.sent j x hj
      exact ⟨m, List.mem_append_left _ hm⟩
  · intro j x hj
    rcases htask hj with ⟨rfl, hu⟩ | hj
    · exact absurd hu.symm (hseen.lives x)
    · exact h.aborted j x hj
  · intro j stream hm
    rcases List.mem_append.mp hm with hm | hm
    · exact h.addr j stream hm
    · obtain ⟨m, hm, heq⟩ := List.mem_map.mp hm
      cases heq
      exact hseen.addr stream (Option.mem_toList.mp hm)
  · intro j e hm
    rcases List.mem_append.mp hm with hm | hm
    · exact h.error j e hm
    · obtain ⟨m, hm, heq⟩ := List.mem_map.mp hm
      cases heq
      exact hseen.error e (Option.mem_toList.mp hm)
  · intro r hr
    rw [Race.take_sent h.race.taken]
    exact h.reads r hr
  · intro r hr
    exact absurd hstep (connectHappy_once.stays (h.ended r hr t (List.mem_of_getElem? ht)))

theorem Inv.step (hpos : 0 < addrs.length)
    (hstep : (connectHappy addrs timeLimit).Step s e s') : s'.Inv addrs timeLimit := by
  have hrace := h.race.step connectHappy_once hstep
  cases hstep with
  | @tick d =>
    refine ⟨hrace, ?_, h.sent, h.aborted, h.addr, h.error, h.reads, h.ended⟩
    intro i t x hi hx
    have hsince := h.since i t x hi hx
    exact ⟨hsince.1, Nat.le_trans hsince.2 (Nat.le_add_right _ _)⟩
  | task ht hstep => exact h.task ht hstep
  | receive hr =>
    refine ⟨hrace, h.since, h.sent, ?_, h.addr, h.error, ?_, ?_⟩
    · intro i x hi
      obtain ⟨r', hr'⟩ := h.aborted i x hi
      cases hr.symm.trans hr'
    · intro r hr
      cases hr
    · intro r hr
      cases hr
  | decide hr hm hreceive =>
    have hback : ∀ {i : Nat} {t : Attempt}, (s.tasks.map Attempt.abort)[i]? = some t →
        ∃ u, s.tasks[i]? = some u ∧ u.abort = t := by
      intro i t hi
      rw [List.getElem?_map] at hi
      exact Option.map_eq_some_iff.mp hi
    refine ⟨hrace, ?_, ?_, fun _ _ _ => ⟨_, rfl⟩, h.addr, h.error, ?_, ?_⟩
    · intro i t x hi hx
      obtain ⟨u, hu, rfl⟩ := hback hi
      exact h.since i u x hu (u.since_abort ▸ hx)
    · intro i x hi
      obtain ⟨u, hu, hx⟩ := hback hi
      exact h.sent i x (Attempt.abort_eq_sent hx ▸ hu)
    · intro r heq
      cases heq
      exact (Race.read_taken hm (h.race.verdict.reads hr)).trans hreceive
    · rintro r - t ht
      obtain ⟨u, -, rfl⟩ := List.mem_map.mp ht
      exact u.ended_abort
  | close hr htaken hended => exact (h.not_closed hpos hr htaken hended).elim
  | expire hr hdead => cases hdead

omit h

theorem inv_run (hpos : 0 < addrs.length) {es : List Race.Event}
    (h : Run (connectHappy addrs timeLimit).Step (start addrs) es s) : s.Inv addrs timeLimit :=
  h.invariant (I := Inv addrs timeLimit) (fun hi hs => hi.step hpos hs) inv_start

/-- What a race has come to. -/
inductive Outcome (addrs : List SocketAddr) (s : Happy ε) : Prop
/-- All that was received are errors, and fewer than there are addresses. -/
| waiting {r : Option (ConnectError ε) × Nat} :
  s.receiver = .inl r ->
  (∀ x ∈ s.sent.take s.taken, Failed x.2) ->
  s.taken < addrs.length ->
  (∀ (i : Nat) x, s.tasks[i]? ≠ some (.aborted x)) ->
  Outcome addrs s
/-- The first connection that was sent is kept, and every attempt has come to an end. -/
| connected {i : Nat} {stream : SocketAddr}
    {before after : List (Nat × Except (ConnectError ε) SocketAddr)} :
  s.receiver = .inr (.ok stream) ->
  addrs[i]? = some stream ->
  s.sent = before ++ (i, .ok stream) :: after ->
  (∀ x ∈ before, Failed x.2) ->
  (∀ t ∈ s.tasks, t.Ended) ->
  Outcome addrs s
/-- Every address was tried, and the last error is returned. -/
| failed {i : Nat} {e : ConnectError ε}
    {before : List (Nat × Except (ConnectError ε) SocketAddr)} :
  s.receiver = .inr (.error e) ->
  s.sent = before ++ [(i, .error e)] ->
  e.OfAttempt ->
  (∀ x ∈ s.sent, Failed x.2) ->
  (∀ j < addrs.length, ∃ e, (j, .error e) ∈ s.sent) ->
  Outcome addrs s

/-- A list of messages is cut where the list of what they say is. -/
theorem split_sent {xs : List (Nat × Except (ConnectError ε) SocketAddr)}
    {before after : List (Except (ConnectError ε) SocketAddr)}
    {r : Except (ConnectError ε) SocketAddr} (h : xs.map Prod.snd = before ++ r :: after) :
    ∃ before' i after', xs = before' ++ (i, r) :: after' ∧ before'.map Prod.snd = before ∧
      after'.map Prod.snd = after := by
  obtain ⟨before', rest, rfl, hbefore, hrest⟩ := List.map_eq_append_iff.mp h
  obtain ⟨x, after', rfl, rfl, hafter⟩ := List.map_eq_cons_iff.mp hrest
  exact ⟨before', x.1, after', rfl, hbefore, hafter⟩

theorem Inv.outcome (hpos : 0 < addrs.length) (h : s.Inv addrs timeLimit) : Outcome addrs s := by
  rcases hr : s.receiver with ⟨last, left⟩ | r
  · obtain ⟨hfailed, -, -⟩ := read_inl hpos (h.race.verdict.reads hr)
    refine .waiting hr ?_ (h.undecided_lt hpos hr) ?_
    · intro x hx
      exact hfailed x.2 (List.mem_map_of_mem hx)
    · intro i x hi
      obtain ⟨r', hr'⟩ := h.aborted i x hi
      cases hr.symm.trans hr'
  · obtain ⟨before, after, hsplit, hfailed, hcount⟩ := read_inr hpos (h.reads r hr)
    obtain ⟨before, i, after, htake, rfl, rfl⟩ := split_sent hsplit
    have hsent : s.sent = before ++ (i, r) :: (after ++ s.sent.drop s.taken) := by
      rw [← List.cons_append, ← List.append_assoc, ← htake, List.take_append_drop]
    have hbefore : ∀ x ∈ before, Failed x.2 :=
      fun x hx => hfailed x.2 (List.mem_map_of_mem hx)
    cases r with
    | ok stream =>
      have haddr := h.addr i stream (hsent ▸ List.mem_append_right _ (List.mem_cons_self ..))
      exact .connected hr haddr hsent hbefore (h.ended _ hr)
    | error e =>
      have hlen := hcount ⟨e, rfl⟩
      rw [List.length_map] at hlen
      -- one error more than was counted would be one more than there are attempts
      have hle := h.race.sent_le
      have hmore : after ++ s.sent.drop s.taken = [] := by
        rw [hsent, List.length_append, List.length_cons] at hle
        exact List.length_eq_zero_iff.mp (by omega)
      rw [hmore] at hsent
      have hall : ∀ x ∈ s.sent, Failed x.2 := by
        intro x hx
        rw [hsent] at hx
        rcases List.mem_append.mp hx with hx | hx
        · exact hbefore x hx
        · rw [List.mem_singleton.mp hx]
          exact ⟨e, rfl⟩
      have herror := h.error i e (hsent ▸ List.mem_append_right _ (List.mem_singleton_self _))
      refine .failed hr hsent herror hall ?_
      intro j hj
      have hfull : addrs.length ≤ s.sent.length := by
        rw [hsent, List.length_append, List.length_singleton]
        omega
      obtain ⟨m, hm⟩ := h.race.all_sent hfull hj
      obtain ⟨e', rfl⟩ := hall _ hm
      exact ⟨e', hm⟩

end Happy

/-! ## On time -/

namespace Attempt

/-- How many steps an attempt may still take. -/
def weight : Attempt → Nat
  | .sleeping => 2
  | .connecting _ => 1
  | _ => 0

/-- When the next timer of an attempt goes off. -/
def due (timeLimit i : Nat) : Attempt → Nat
  | .sleeping => 250 * i
  | .connecting since => since + timeLimit
  | _ => 0

end Attempt

theorem connectHappy_timely (addrs : List SocketAddr) (timeLimit n : Nat) :
    (connectHappy (ε := ε) addrs timeLimit).Timely Attempt.weight (Attempt.due timeLimit) n
      (250 * (n - 1) + timeLimit) where
  nearer := by
    intro now i t m t' h
    cases h with
    | wake => exact Nat.lt_succ_self 1
    | connect => exact Nat.zero_lt_one
    | refuse => exact Nat.zero_lt_one
    | timeout => exact Nat.zero_lt_one
  stop := by
    intro t
    cases t <;> exact Nat.zero_le _
  goes := by
    intro now i t _ ht hdue
    cases t with
    | sleeping => exact ⟨_, _, .wake hdue⟩
    | connecting => exact ⟨_, _, .timeout hdue⟩
    | sent => exact absurd .sent ht
    | aborted => exact absurd .aborted ht
  next := by
    intro now i t m t' hi h hdue ht'
    cases h with
    | wake hnow =>
      simp only [Attempt.due] at hdue ⊢
      omega
    | connect => exact absurd .sent ht'
    | refuse => exact absurd .sent ht'
    | timeout => exact absurd .sent ht'

theorem inTime_start : (connectHappy (ε := ε) addrs timeLimit).InTime (Attempt.due timeLimit)
    (250 * (addrs.length - 1) + timeLimit) (Happy.start addrs) where
  now := Nat.zero_le _
  due := by
    intro i t hi _
    have hlt := (List.getElem?_eq_some_iff.mp hi).1
    rw [Happy.start, Race.start, List.length_map] at hlt
    rw [Happy.start, Race.start, List.getElem?_map] at hi
    obtain ⟨a, -, rfl⟩ := Option.map_eq_some_iff.mp hi
    refine ⟨Nat.zero_le _, ?_⟩
    simp only [Attempt.due]
    omega
  deadline := by
    intro t a hta
    cases hta

theorem left_start :
    Race.left Attempt.weight (Happy.start (ε := ε) addrs) = 4 * addrs.length + 1 := by
  have hsum :
      ((addrs.map fun _ => Attempt.sleeping).map Attempt.weight).sum = 2 * addrs.length := by
    induction addrs with
    | nil => rfl
    | cons a addrs ih =>
      simp only [List.map_cons, List.sum_cons, List.length_cons, Attempt.weight] at ih ⊢
      omega
  simp only [Race.left, Happy.start, Race.start, hsum, List.length_nil, Sum.elim_inl]
  omega

/-! ## The whole of it -/

/-- How a call stands: there is no address, it waits for an attempt at the only one or has what came
of it, or its attempts race. -/
inductive ConnectHappy (ε : Type) where
  | none
  | one (now : Nat) (t : Attempt) (r : Option (Except (ConnectError ε) SocketAddr))
  | many (s : Happy ε)

namespace ConnectHappy

def start (addrs : List SocketAddr) : ConnectHappy ε :=
  match addrs with
  | [] => .none
  | [_] => .one 0 (.connecting 0) .none
  | addrs => .many (Happy.start addrs)

def now : ConnectHappy ε → Nat
  | .none => 0
  | .one now _ _ => now
  | .many s => s.now

/-- What the call returns, when it does. -/
def result : ConnectHappy ε → Option (Except (ConnectError ε) SocketAddr)
  | .none => some (.error .notFound)
  | .one _ _ r => r
  | .many s => s.receiver.getRight?

/-- The only address is tried without a task. -/
inductive Step (addrs : List SocketAddr) (timeLimit : Nat) :
  ConnectHappy ε → Race.Event → ConnectHappy ε → Prop
| tick {now d : Nat} {t : Attempt} {r : Option (Except (ConnectError ε) SocketAddr)} :
  Step addrs timeLimit (.one now t r) (.tick d) (.one (now + d) t r)
| answer {now : Nat} {t t' : Attempt} {r : Except (ConnectError ε) SocketAddr} :
  Attempt.Step addrs timeLimit now 0 t (some r) t' ->
  Step addrs timeLimit (.one now t Option.none) (.task 0) (.one now t' (some r))
| race {s s' : Happy ε} {e : Race.Event} :
  (connectHappy addrs timeLimit).Step s e s' ->
  Step addrs timeLimit (.many s) e (.many s')

/-- Steps with timers that go off on time, until there is a result. -/
inductive PromptStep (addrs : List SocketAddr) (timeLimit : Nat) :
  ConnectHappy ε → Race.Event → ConnectHappy ε → Prop
| tick {now d : Nat} {t : Attempt} {r : Option (Except (ConnectError ε) SocketAddr)} :
  (r = Option.none → now + d ≤ t.due timeLimit 0) ->
  PromptStep addrs timeLimit (.one now t r) (.tick d) (.one (now + d) t r)
| answer {now : Nat} {t t' : Attempt} {r : Except (ConnectError ε) SocketAddr} :
  Attempt.Step addrs timeLimit now 0 t (some r) t' ->
  PromptStep addrs timeLimit (.one now t Option.none) (.task 0) (.one now t' (some r))
| race {s s' : Happy ε} {e : Race.Event} :
  (connectHappy addrs timeLimit).PromptStep (Attempt.due timeLimit) s e s' ->
  PromptStep addrs timeLimit (.many s) e (.many s')

/-- What a call has come to. -/
inductive Outcome (addrs : List SocketAddr) : ConnectHappy ε → Prop
| none :
  addrs = [] ->
  Outcome addrs .none
| waiting {addr : SocketAddr} {now : Nat} :
  addrs = [addr] ->
  Outcome addrs (.one now (.connecting 0) Option.none)
| connected {addr : SocketAddr} {now : Nat} :
  addrs = [addr] ->
  Outcome addrs (.one now (.sent 0) (some (.ok addr)))
| failed {addr : SocketAddr} {now : Nat} {e : ConnectError ε} :
  addrs = [addr] ->
  e.OfAttempt ->
  Outcome addrs (.one now (.sent 0) (some (.error e)))
/-- The attempts keep their distance, and their race comes to what it should. -/
| many {s : Happy ε} :
  2 ≤ addrs.length ->
  (∀ (i : Nat) t x, s.tasks[i]? = some t → t.since = some x → 250 * i ≤ x ∧ x ≤ s.now) ->
  s.Outcome addrs ->
  Outcome addrs (.many s)

theorem PromptStep.step {c c' : ConnectHappy ε} {e : Race.Event}
    (h : PromptStep addrs timeLimit c e c') : Step addrs timeLimit c e c' := by
  cases h with
  | tick => exact .tick
  | answer h => exact .answer h
  | race h => exact .race h.step

/-- A race goes on as one. -/
theorem run_many {s : Happy ε} {es : List Race.Event} {c : ConnectHappy ε}
    {step : ConnectHappy ε → Race.Event → ConnectHappy ε → Prop}
    {race : Happy ε → Race.Event → Happy ε → Prop}
    (hrace : ∀ {s e c}, step (.many s) e c → ∃ s', c = .many s' ∧ race s e s')
    (h : Run step (.many s) es c) : ∃ s', c = .many s' ∧ Run race s es s' := by
  induction h with
  | nil => exact ⟨s, rfl, .nil⟩
  | snoc _ hstep ih =>
      obtain ⟨t, rfl, hrun⟩ := ih
      obtain ⟨u, rfl, hu⟩ := hrace hstep
      exact ⟨u, rfl, hrun.snoc hu⟩

theorem step_outcome {addr : SocketAddr} {now : Nat} {t : Attempt} {e : Race.Event}
    {r : Option (Except (ConnectError ε) SocketAddr)} {c : ConnectHappy ε}
    (h : Outcome [addr] (.one now t r)) (hstep : Step [addr] timeLimit (.one now t r) e c) :
    Outcome [addr] c := by
  cases hstep with
  | tick =>
      cases h with
      | waiting => exact .waiting rfl
      | connected heq => exact .connected heq
      | failed heq herror => exact .failed heq herror
  | answer ht =>
      cases h with
      | waiting =>
          cases ht with
          | connect haddr =>
              cases haddr
              exact .connected rfl
          | refuse => exact .failed rfl .os
          | timeout => exact .failed rfl .timedOut

end ConnectHappy

open ConnectHappy in
/-- In every order of events, a call comes to what it should. -/
theorem connectHappy_run (ips : List IpAddr) (port : UInt16) (timeLimit : Nat)
    {es : List Race.Event} {c : ConnectHappy ε}
    (h : Run (Step (happyAddrs ips port) timeLimit) (start (happyAddrs ips port)) es c) :
    c.Outcome (happyAddrs ips port) := by
  generalize happyAddrs ips port = addrs at h
  match addrs, h with
  | [], h =>
      refine h.invariant (I := Outcome []) ?_ (.none rfl)
      intro c e c' hc hstep
      cases hc with
      | none => cases hstep
      | waiting heq => cases heq
      | connected heq => cases heq
      | failed heq => cases heq
      | many htwo => exact absurd htwo (by decide)
  | [addr], h =>
      refine h.invariant (I := Outcome [addr]) ?_ (.waiting rfl)
      intro c e c' hc hstep
      cases c with
      | none => cases hstep
      | one => exact step_outcome hc hstep
      | many =>
          cases hc with
          | many htwo => exact absurd htwo (Nat.not_succ_le_self 1)
  | a :: b :: addrs, h =>
      have htwo : 2 ≤ (a :: b :: addrs).length := Nat.le_add_left 2 addrs.length
      have hpos := Nat.lt_of_lt_of_le Nat.zero_lt_two htwo
      have hrace {s : Happy ε} {e : Race.Event} {c : ConnectHappy ε}
          (hstep : Step (a :: b :: addrs) timeLimit (.many s) e c) :
          ∃ s', c = .many s' ∧ (connectHappy (a :: b :: addrs) timeLimit).Step s e s' := by
        cases hstep with
        | race hstep => exact ⟨_, rfl, hstep⟩
      obtain ⟨s, rfl, hrun⟩ := run_many hrace h
      have hinv := Happy.inv_run hpos hrun
      exact .many htwo hinv.since (hinv.outcome hpos)

namespace ConnectHappy

/-- What a call to the only address has come to in a prompt run: it has no result until the time
limit is up, and one step brings it. -/
structure OnTime (timeLimit : Nat) (es : List Race.Event) (now : Nat) (t : Attempt)
    (r : Option (Except (ConnectError ε) SocketAddr)) : Prop where
  events : es.countP (fun e => !e.ticks) ≤ if r.isSome then 1 else 0
  waits : r = Option.none → t = .connecting 0 ∧ now ≤ timeLimit

theorem run_none {es : List Race.Event} {c : ConnectHappy ε}
    (h : Run (PromptStep [] timeLimit) .none es c) : es = [] ∧ c = .none := by
  induction h with
  | nil => exact ⟨rfl, rfl⟩
  | snoc _ hstep ih =>
      obtain ⟨-, rfl⟩ := ih
      cases hstep

theorem run_one {addr : SocketAddr} {es : List Race.Event} {c : ConnectHappy ε}
    (h : Run (PromptStep [addr] timeLimit) (.one 0 (.connecting 0) Option.none) es c) :
    ∃ now t r, c = .one now t r ∧ OnTime timeLimit es now t r := by
  induction h with
  | nil => exact ⟨_, _, _, rfl, Nat.le_refl 0, fun _ => ⟨rfl, Nat.zero_le _⟩⟩
  | snoc _ hstep ih =>
      obtain ⟨now, t, r, rfl, hevents, hwaits⟩ := ih
      cases hstep with
      | tick hdue =>
          refine ⟨_, _, _, rfl, ?_, fun hr => ⟨(hwaits hr).1, ?_⟩⟩
          · rw [List.countP_append]
            exact hevents
          · have hnow := hdue hr
            rw [(hwaits hr).1] at hnow
            exact Nat.le_trans hnow (Nat.le_of_eq (Nat.zero_add timeLimit))
      | answer =>
          refine ⟨_, _, _, rfl, ?_, fun hr => by cases hr⟩
          rw [List.countP_append]
          exact Nat.add_le_add_right hevents 1

/-- A call that waits can go on. -/
theorem goes_on_one {addr : SocketAddr} {now : Nat} (hnow : now ≤ timeLimit) :
    ∃ e c, PromptStep (ε := ε) [addr] timeLimit (.one now (.connecting 0) Option.none) e c ∧
      (e = .tick 1 ∨ e.ticks = false) := by
  rcases Nat.lt_or_eq_of_le hnow with hlt | rfl
  · refine ⟨.tick 1, _, .tick fun _ => ?_, .inl rfl⟩
    rw [Attempt.due, Nat.zero_add]
    exact hlt
  · exact ⟨.task 0, _, .answer (.timeout (Nat.le_of_eq (Nat.zero_add now))), .inr rfl⟩

end ConnectHappy

/-- If timers go off and messages are received on time, a race always has something to do until it
has decided, there is only so much of it, and the last attempt ends within its limit. -/
theorem inTime_many (htwo : 2 ≤ addrs.length) {es : List Race.Event} {s : Happy ε}
    (h : Run ((connectHappy addrs timeLimit).PromptStep (Attempt.due timeLimit))
      (Happy.start addrs) es s) :
    es.countP (fun e => !e.ticks) ≤ 4 * addrs.length + 1 ∧
    ∀ r, s.receiver = .inl r → s.now ≤ 250 * (addrs.length - 1) + timeLimit ∧
      ∃ e s', (connectHappy addrs timeLimit).PromptStep (Attempt.due timeLimit) s e s' ∧
        (e = .tick 1 ∨ e.ticks = false) := by
  have htimely := connectHappy_timely (ε := ε) addrs timeLimit addrs.length
  have hrun := h.mono Race.PromptStep.step
  constructor
  · have hle := Race.events_le htimely hrun
    rw [left_start] at hle
    exact Nat.le_trans (Nat.le_add_right _ _) hle
  · intro r hr
    have hinv := Happy.inv_run (Nat.lt_of_lt_of_le Nat.zero_lt_two htwo) hrun
    refine ⟨?_, Race.goes_on htimely hinv.race.size hinv.race.taken hr⟩
    have htasks : (connectHappy (ε := ε) addrs timeLimit).Timely Attempt.weight
        (Attempt.due timeLimit) (addrs.map fun _ => Attempt.sleeping).length
        (250 * (addrs.length - 1) + timeLimit) := by
      rw [List.length_map]
      exact htimely
    exact (Race.inTime_run connectHappy_once htasks inTime_start h hr).now

open ConnectHappy in
/-- No more than four addresses are tried.  If timers go off and messages are received on time,
there is always something to do until the call returns, there is only so much of it, and the last
attempt ends within its limit. -/
theorem connectHappy_inTime (ips : List IpAddr) (port : UInt16) (timeLimit : Nat)
    {es : List Race.Event} {c : ConnectHappy ε}
    (h : Run (PromptStep (happyAddrs ips port) timeLimit) (start (happyAddrs ips port)) es c) :
    (happyAddrs ips port).length ≤ 4 ∧
    es.countP (fun e => !e.ticks) ≤ 4 * (happyAddrs ips port).length + 1 ∧
    (c.result = Option.none → c.now ≤ 250 * ((happyAddrs ips port).length - 1) + timeLimit ∧
      ∃ e c', PromptStep (happyAddrs ips port) timeLimit c e c' ∧
        (e = .tick 1 ∨ e.ticks = false)) := by
  refine ⟨by rw [happyAddrs_eq]; exact List.length_take_le _ _, ?_⟩
  generalize happyAddrs ips port = addrs at h ⊢
  match addrs, h with
  | [], h =>
      obtain ⟨rfl, rfl⟩ := run_none h
      exact ⟨Nat.zero_le _, fun hr => by cases hr⟩
  | [addr], h =>
      obtain ⟨now, t, r, rfl, hevents, hwaits⟩ := run_one h
      have hone : (if r.isSome then 1 else 0) ≤ 1 := by split <;> decide
      refine ⟨Nat.le_trans (Nat.le_trans hevents hone) (Nat.le_add_left 1 _), fun hr => ?_⟩
      obtain ⟨rfl, hnow⟩ := hwaits hr
      cases (show r = Option.none from hr)
      exact ⟨Nat.le_trans hnow (Nat.le_add_left _ _), goes_on_one hnow⟩
  | a :: b :: addrs, h =>
      have hrace {s : Happy ε} {e : Race.Event} {c : ConnectHappy ε}
          (hstep : PromptStep (a :: b :: addrs) timeLimit (.many s) e c) :
          ∃ s', c = .many s' ∧ (connectHappy (a :: b :: addrs) timeLimit).PromptStep
            (Attempt.due timeLimit) s e s' := by
        cases hstep with
        | race hstep => exact ⟨_, rfl, hstep⟩
      obtain ⟨s, rfl, hrun⟩ := run_many hrace h
      have htwo : 2 ≤ (a :: b :: addrs).length := Nat.le_add_left 2 addrs.length
      obtain ⟨hevents, hwaits⟩ := inTime_many htwo hrun
      refine ⟨hevents, fun hr => ?_⟩
      rcases hreceiver : s.receiver with r | r
      · obtain ⟨hnow, e, s', hstep, he⟩ := hwaits r hreceiver
        exact ⟨hnow, e, _, .race hstep, he⟩
      · rw [result, hreceiver] at hr
        cases hr

namespace Sample

def ips : List IpAddr := [.v6 ⟨List.replicate 16 0, rfl⟩, .v4 ⟨10, 0, 0, 1⟩]

def tried : List SocketAddr := happyAddrs ips 443

abbrev Step := (connectHappy (ε := Unit) tried 300).PromptStep (Attempt.due 300)

/-- The second attempt has begun, and the first was refused. -/
def refused : Happy Unit where
  now := 250
  tasks := [.sent 0, .connecting 250]
  sent := [(0, .error (.os ()))]
  taken := 1
  receiver := .inl (some (.os ()), 1)

/-- The second attempt is connected. -/
def connected : Happy Unit where
  now := 250
  tasks := [.sent 0, .sent 250]
  sent := [(0, .error (.os ())), (1, .ok ⟨.v6 ⟨List.replicate 16 0, rfl⟩, 443⟩)]
  taken := 2
  receiver := .inr (.ok ⟨.v6 ⟨List.replicate 16 0, rfl⟩, 443⟩)

theorem prompt {s s' : Happy Unit} {e : Race.Event} (h : (connectHappy tried 300).Step s e s')
    (he : e.ticks = false) : Step s e s' := by
  refine ⟨h, ?_⟩
  rintro r d - rfl
  cases he

theorem waits : Step ⟨0, [.connecting 0, .sleeping], [], 0, .inl (none, 2)⟩ (.tick 250)
    ⟨250, [.connecting 0, .sleeping], [], 0, .inl (none, 2)⟩ := by
  refine ⟨.tick, ?_⟩
  rintro r d - hd
  cases hd
  refine ⟨rfl, ⟨0, _, rfl, ?_⟩, ?_, ?_⟩
  · intro hended
    cases hended
  · intro i t hi ht
    match i with
    | 0 => cases hi; exact (by decide : 250 ≤ 300)
    | 1 => cases hi; exact Nat.le_refl 250
    | i + 2 => cases hi
  · intro t a hta
    cases hta

theorem run_refused : Run (ConnectHappy.PromptStep tried 300) (.start tried)
    [.task 0, .tick 250, .task 1, .task 0, .receive] (.many refused) := by
  refine .cons (.race (prompt (.task rfl (.wake (by decide))) rfl)) ?_
  refine .cons (.race waits) ?_
  refine .cons (.race (prompt (.task rfl (.wake (by decide))) rfl)) ?_
  refine .cons (.race (prompt (.task rfl (.refuse ())) rfl)) ?_
  exact .single (.race (prompt (.receive rfl rfl rfl) rfl))

theorem run_connected : Run (ConnectHappy.Step tried 300) (.start tried)
    ([.task 0, .tick 250, .task 1, .task 0, .receive] ++ [.task 1] ++ [.receive])
      (.many connected) := by
  have hconnect : ConnectHappy.Step tried 300 (.many refused) (.task 1) (.many _) :=
    .race (.task rfl (.connect rfl))
  exact .snoc (.snoc (run_refused.mono ConnectHappy.PromptStep.step) hconnect)
    (.race (.decide rfl rfl rfl))

end Sample

theorem connectHappy_run_connected :
    (ConnectHappy.many Sample.connected).Outcome (happyAddrs Sample.ips 443) :=
  connectHappy_run Sample.ips 443 300 Sample.run_connected

theorem connectHappy_inTime_refused :
    250 ≤ 250 * ((happyAddrs Sample.ips 443).length - 1) + 300 :=
  ((connectHappy_inTime Sample.ips 443 300 Sample.run_refused).2.2 rfl).1

end InterfaceBinder

end RustClash
