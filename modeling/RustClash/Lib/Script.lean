import Mathlib.Data.List.Basic

/-!
# Scripts

A `Script` is what one side of an exchange does: acts that the other side takes or
refuses, and reads of what the other side sends.  A `Peer` is one way for the other
side to behave, and `run` is the exchange of the two.

Three readings of a script say what its runs do, and each is found from the script
alone: what every act is like (`Emits`), what the first of some acts is like
(`Opens`), and what the script can be brought to return (`Can`).
-/

universe u

inductive Script (A B ε : Type) (α : Type u) where
  | done (r : Except ε α)
  | act (a : A) (k : Script A B ε α)
  | read (n : Nat) (k : List B → Script A B ε α)

/-- The answers to the acts, with the errors of those that are refused, and what there is to
read, with the error of a read of more than that. -/
structure Peer (B ε : Type) where
  answers : List (Option ε)
  input : List B
  failure : ε

/-- The peer that takes the acts of `p`, and another one before them. -/
def Peer.taking {B ε : Type} (p : Peer B ε) : Peer B ε := { p with answers := none :: p.answers }

/-- The peer that sends `bs` before what `p` sends. -/
def Peer.sending {B ε : Type} (bs : List B) (p : Peer B ε) : Peer B ε := { p with input := bs ++ p.input }

namespace Script

variable {A B ε ε' : Type} {α β : Type}

def bind (f : α → Script A B ε β) : Script A B ε α → Script A B ε β
  | done (.ok a) => f a
  | done (.error e) => done (.error e)
  | act a k => act a (k.bind f)
  | read n k => read n fun bs => (k bs).bind f

instance : Monad (Script A B ε) where
  pure a := done (.ok a)
  bind x f := x.bind f

def fail (e : ε) : Script A B ε α := done (.error e)

def ofExcept (r : Except ε α) : Script A B ε α := done r

def perform (a : A) : Script A B ε Unit := act a (done (.ok ()))

/-- Exactly `n` of what the other side sends. -/
def readExact (n : Nat) : Script A B ε (List B) := read n fun bs => done (.ok bs)

def mapError (f : ε → ε') : Script A B ε α → Script A B ε' α
  | done r => done (r.mapError f)
  | act a k => act a (k.mapError f)
  | read n k => read n fun bs => (k bs).mapError f

/-- The result and the acts, in order.  A peer without an answer takes the act. -/
def run : Script A B ε α → Peer B ε → Except ε α × List A
  | done r, _ => (r, [])
  | act a k, p =>
      match p.answers.head?.join with
      | some e => (.error e, [a])
      | none => let (r, acts) := k.run { p with answers := p.answers.tail }; (r, a :: acts)
  | read n k, p =>
      if p.input.length < n then (.error p.failure, [])
      else (k (p.input.take n)).run { p with input := p.input.drop n }

/-- The script can be brought to return a value with `Q`. -/
def Can (Q : α → Prop) : Script A B ε α → Prop
  | done (.ok a) => Q a
  | done (.error _) => False
  | act _ k => k.Can Q
  | read n k => ∃ bs, bs.length = n ∧ (k bs).Can Q

/-- Every act has `P`, and every value `Q`. -/
def Emits (P : A → Prop) (Q : α → Prop) : Script A B ε α → Prop
  | done (.ok a) => Q a
  | done (.error _) => True
  | act a k => P a ∧ k.Emits P Q
  | read n k => ∀ bs, bs.length = n → (k bs).Emits P Q

/-- The first act of those that `visible` picks has `P`, and a value without one before it
has `Q`. -/
def Opens (visible : A → Bool) (P : A → Prop) (Q : α → Prop) : Script A B ε α → Prop
  | done (.ok a) => Q a
  | done (.error _) => True
  | act a k => if visible a then P a else k.Opens visible P Q
  | read n k => ∀ bs, bs.length = n → (k bs).Opens visible P Q

/-! ## How the readings compose -/

section

variable {P : A → Prop} {Q : α → Prop} {R : β → Prop} {v : A → Bool} {a : α} {e : ε}

@[simp] theorem can_pure : (pure a : Script A B ε α).Can Q ↔ Q a := Iff.rfl
@[simp] theorem can_fail : (fail e : Script A B ε α).Can Q ↔ False := Iff.rfl
@[simp] theorem emits_pure : (pure a : Script A B ε α).Emits P Q ↔ Q a := Iff.rfl
@[simp] theorem emits_fail : (fail e : Script A B ε α).Emits P Q ↔ True := Iff.rfl
@[simp] theorem opens_pure : (pure a : Script A B ε α).Opens v P Q ↔ Q a := Iff.rfl
@[simp] theorem opens_fail : (fail e : Script A B ε α).Opens v P Q ↔ True := Iff.rfl

@[simp] theorem can_ofExcept {r : Except ε α} :
    (ofExcept r : Script A B ε α).Can Q ↔ ∃ a, r = .ok a ∧ Q a := by
  cases r with
  | ok a => exact ⟨fun h => ⟨a, rfl, h⟩, fun ⟨_, hr, h⟩ => Except.ok.inj hr ▸ h⟩
  | error e => exact ⟨False.elim, fun ⟨_, hr, _⟩ => nomatch hr⟩

@[simp] theorem emits_ofExcept {r : Except ε α} :
    (ofExcept r : Script A B ε α).Emits P Q ↔ ∀ a, r = .ok a → Q a := by
  cases r with
  | ok a => exact ⟨fun h b hb => Except.ok.inj hb ▸ h, fun h => h a rfl⟩
  | error e => exact ⟨fun _ _ hb => (nomatch hb), fun _ => trivial⟩

@[simp] theorem opens_ofExcept {r : Except ε α} :
    (ofExcept r : Script A B ε α).Opens v P Q ↔ ∀ a, r = .ok a → Q a := by
  cases r with
  | ok a => exact ⟨fun h b hb => Except.ok.inj hb ▸ h, fun h => h a rfl⟩
  | error e => exact ⟨fun _ _ hb => (nomatch hb), fun _ => trivial⟩

@[simp] theorem can_perform {x : A} {Q : Unit → Prop} :
    (perform x : Script A B ε Unit).Can Q ↔ Q () := Iff.rfl

@[simp] theorem emits_perform {x : A} {Q : Unit → Prop} :
    (perform x : Script A B ε Unit).Emits P Q ↔ P x ∧ Q () := Iff.rfl

@[simp] theorem opens_perform {x : A} {Q : Unit → Prop} :
    (perform x : Script A B ε Unit).Opens v P Q ↔ if v x then P x else Q () := Iff.rfl

@[simp] theorem can_readExact {n : Nat} {Q : List B → Prop} :
    (readExact n : Script A B ε (List B)).Can Q ↔ ∃ bs, bs.length = n ∧ Q bs := Iff.rfl

@[simp] theorem emits_readExact {n : Nat} {Q : List B → Prop} :
    (readExact n : Script A B ε (List B)).Emits P Q ↔ ∀ bs, bs.length = n → Q bs := Iff.rfl

@[simp] theorem opens_readExact {n : Nat} {Q : List B → Prop} :
    (readExact n : Script A B ε (List B)).Opens v P Q ↔ ∀ bs, bs.length = n → Q bs := Iff.rfl

variable {f : α → Script A B ε β}

@[simp] theorem can_bind : ∀ {s : Script A B ε α},
    (s >>= f).Can R ↔ s.Can fun a => (f a).Can R
  | done (.ok _) => Iff.rfl
  | done (.error _) => Iff.rfl
  | act _ k => can_bind (s := k)
  | read _ k => exists_congr fun bs => and_congr_right fun _ => can_bind (s := k bs)

@[simp] theorem emits_bind : ∀ {s : Script A B ε α},
    (s >>= f).Emits P R ↔ s.Emits P fun a => (f a).Emits P R
  | done (.ok _) => Iff.rfl
  | done (.error _) => Iff.rfl
  | act _ k => and_congr_right fun _ => emits_bind (s := k)
  | read _ k => forall_congr' fun bs => imp_congr_right fun _ => emits_bind (s := k bs)

@[simp] theorem opens_bind : ∀ {s : Script A B ε α},
    (s >>= f).Opens v P R ↔ s.Opens v P fun a => (f a).Opens v P R
  | done (.ok _) => Iff.rfl
  | done (.error _) => Iff.rfl
  | act x k => by
      show (if v x then _ else _) ↔ if v x then _ else _
      split
      · rfl
      · exact opens_bind (s := k)
  | read _ k => forall_congr' fun bs => imp_congr_right fun _ => opens_bind (s := k bs)

/-- What does not depend on the value holds, if there can be one. -/
theorem of_can {C : Prop} : ∀ {s : Script A B ε α}, s.Can (fun _ => C) → C
  | done (.ok _), h => h
  | done (.error _), h => h.elim
  | act _ k, h => of_can (s := k) h
  | read _ k, ⟨bs, _, h⟩ => of_can (s := k bs) h

variable {g : ε → ε'}

@[simp] theorem can_mapError : ∀ {s : Script A B ε α}, (s.mapError g).Can Q ↔ s.Can Q
  | done (.ok _) => Iff.rfl
  | done (.error _) => Iff.rfl
  | act _ k => can_mapError (s := k)
  | read _ k => exists_congr fun bs => and_congr_right fun _ => can_mapError (s := k bs)

@[simp] theorem emits_mapError : ∀ {s : Script A B ε α}, (s.mapError g).Emits P Q ↔ s.Emits P Q
  | done (.ok _) => Iff.rfl
  | done (.error _) => Iff.rfl
  | act _ k => and_congr_right fun _ => emits_mapError (s := k)
  | read _ k => forall_congr' fun bs => imp_congr_right fun _ => emits_mapError (s := k bs)

@[simp] theorem opens_mapError : ∀ {s : Script A B ε α},
    (s.mapError g).Opens v P Q ↔ s.Opens v P Q
  | done (.ok _) => Iff.rfl
  | done (.error _) => Iff.rfl
  | act x k => by
      show (if v x then _ else _) ↔ if v x then _ else _
      split
      · rfl
      · exact opens_mapError (s := k)
  | read _ k => forall_congr' fun bs => imp_congr_right fun _ => opens_mapError (s := k bs)

end

/-! ## What the readings say of runs -/

section

variable {P : A → Prop} {Q : α → Prop} {v : A → Bool}

theorem run_taking (a : A) (k : Script A B ε α) (p : Peer B ε) :
    (act a k).run p.taking = ((k.run p).1, a :: (k.run p).2) := rfl

theorem run_sending (bs : List B) (k : List B → Script A B ε α) (p : Peer B ε) :
    (read bs.length k).run (p.sending bs) = (k bs).run p := by
  have hlen : ¬ (bs ++ p.input).length < bs.length := by
    rw [List.length_append]
    omega
  simp only [run, Peer.sending, if_neg hlen, List.take_left, List.drop_left]

/-- What an act makes of a run: it ends there, or goes on behind it. -/
theorem run_act (a : A) (k : Script A B ε α) (p : Peer B ε) :
    (∃ e, (act a k).run p = (.error e, [a])) ∨
      ∃ p', (act a k).run p = ((k.run p').1, a :: (k.run p').2) := by
  simp only [run]
  cases p.answers.head?.join with
  | some e => exact .inl ⟨e, rfl⟩
  | none => exact .inr ⟨_, rfl⟩

theorem run_read (n : Nat) (k : List B → Script A B ε α) (p : Peer B ε) :
    (∃ e, (read n k).run p = (.error e, [])) ∨
      ∃ bs p', bs.length = n ∧ (read n k).run p = (k bs).run p' := by
  simp only [run]
  split
  · exact .inl ⟨_, rfl⟩
  · next h => exact .inr ⟨_, _, List.length_take_of_le (by omega), rfl⟩

theorem can_iff [Inhabited ε] : ∀ {s : Script A B ε α},
    s.Can Q ↔ ∃ p a, (s.run p).1 = .ok a ∧ Q a
  | done (.ok a) => by
      constructor
      · intro h
        exact ⟨⟨[], [], default⟩, a, rfl, h⟩
      · rintro ⟨_, _, hr, h⟩
        cases hr
        exact h
  | done (.error e) => by
      constructor
      · exact False.elim
      · rintro ⟨_, _, hr, -⟩
        cases hr
  | act x k => by
      rw [Can, can_iff (s := k)]
      constructor
      · rintro ⟨p, a, hr, h⟩
        exact ⟨p.taking, a, hr, h⟩
      · rintro ⟨p, a, hr, h⟩
        rcases run_act x k p with ⟨e, he⟩ | ⟨p', hp⟩
        · rw [he] at hr
          cases hr
        · rw [hp] at hr
          exact ⟨p', a, hr, h⟩
  | read n k => by
      constructor
      · rintro ⟨bs, rfl, h⟩
        obtain ⟨p, a, hr, h⟩ := can_iff.mp h
        exact ⟨p.sending bs, a, by rw [run_sending, hr], h⟩
      · rintro ⟨p, a, hr, h⟩
        rcases run_read n k p with ⟨e, he⟩ | ⟨bs, p', hbs, hp⟩
        · rw [he] at hr
          cases hr
        · rw [hp] at hr
          exact ⟨bs, hbs, can_iff.mpr ⟨p', a, hr, h⟩⟩

theorem emits_iff [Inhabited ε] : ∀ {s : Script A B ε α},
    s.Emits P Q ↔ ∀ p, (∀ x ∈ (s.run p).2, P x) ∧ ∀ a, (s.run p).1 = .ok a → Q a
  | done (.ok a) => by
      constructor
      · intro h p
        refine ⟨List.forall_mem_nil _, fun b hb => ?_⟩
        cases hb
        exact h
      · intro h
        exact (h ⟨[], [], default⟩).2 a rfl
  | done (.error e) => by
      refine ⟨fun _ _ => ⟨List.forall_mem_nil _, fun b hb => ?_⟩, fun _ => trivial⟩
      cases hb
  | act x k => by
      rw [Emits, emits_iff (s := k)]
      constructor
      · rintro ⟨hx, hk⟩ p
        rcases run_act x k p with ⟨e, he⟩ | ⟨p', hp⟩
        · rw [he]
          exact ⟨by simpa using hx, fun b hb => by cases hb⟩
        · rw [hp]
          exact ⟨List.forall_mem_cons.mpr ⟨hx, (hk p').1⟩, (hk p').2⟩
      · intro h
        refine ⟨?_, fun p => ?_⟩
        · exact (h (Peer.taking ⟨[], [], default⟩)).1 x List.mem_cons_self
        · have htaken := h p.taking
          rw [run_taking] at htaken
          exact ⟨(List.forall_mem_cons.mp htaken.1).2, htaken.2⟩
  | read n k => by
      constructor
      · intro h p
        rcases run_read n k p with ⟨e, he⟩ | ⟨bs, p', hbs, hp⟩
        · rw [he]
          exact ⟨List.forall_mem_nil _, fun b hb => by cases hb⟩
        · rw [hp]
          exact emits_iff.mp (h bs hbs) p'
      · rintro h bs rfl
        refine emits_iff.mpr fun p => ?_
        have hsent := h (p.sending bs)
        rwa [run_sending] at hsent

theorem opens_iff [Inhabited ε] : ∀ {s : Script A B ε α},
    s.Opens v P Q ↔ ∀ p, (∀ x, (s.run p).2.find? v = some x → P x) ∧
      ∀ a, (s.run p).2.find? v = none → (s.run p).1 = .ok a → Q a
  | done (.ok a) => by
      constructor
      · intro h p
        refine ⟨fun x hx => (by cases hx), fun b _ hb => ?_⟩
        cases hb
        exact h
      · intro h
        exact (h ⟨[], [], default⟩).2 a rfl rfl
  | done (.error e) => by
      refine ⟨fun _ _ => ⟨fun x hx => (by cases hx), fun b _ hb => ?_⟩, fun _ => trivial⟩
      cases hb
  | act x k => by
      by_cases hv : v x = true
      · have hfind (xs : List A) : (x :: xs).find? v = some x := by rw [List.find?_cons, hv]
        rw [Opens, if_pos hv]
        constructor
        · intro hx p
          rcases run_act x k p with ⟨e, he⟩ | ⟨p', hp⟩
          · rw [he, hfind]
            exact ⟨fun y hy => Option.some.inj hy ▸ hx, fun a ha => by cases ha⟩
          · rw [hp, hfind]
            exact ⟨fun y hy => Option.some.inj hy ▸ hx, fun a ha => by cases ha⟩
        · intro h
          exact (h (Peer.taking ⟨[], [], default⟩)).1 x (hfind _)
      · have hfind (xs : List A) : (x :: xs).find? v = xs.find? v := by
          rw [List.find?_cons, Bool.eq_false_iff.mpr hv]
        rw [Opens, if_neg hv, opens_iff (s := k)]
        constructor
        · intro h p
          rcases run_act x k p with ⟨e, he⟩ | ⟨p', hp⟩
          · rw [he, hfind]
            exact ⟨fun y hy => (by cases hy), fun a _ ha => by cases ha⟩
          · rw [hp, hfind]
            exact h p'
        · intro h p
          have htaken := h p.taking
          rw [run_taking, hfind] at htaken
          exact htaken
  | read n k => by
      constructor
      · intro h p
        rcases run_read n k p with ⟨e, he⟩ | ⟨bs, p', hbs, hp⟩
        · rw [he]
          exact ⟨fun x hx => (by cases hx), fun a _ ha => by cases ha⟩
        · rw [hp]
          exact opens_iff.mp (h bs hbs) p'
      · rintro h bs rfl
        refine opens_iff.mpr fun p => ?_
        have hsent := h (p.sending bs)
        rwa [run_sending] at hsent

end

-- The readings of a script are found by the rules above, not by running it.
attribute [irreducible] Can Emits Opens

end Script
