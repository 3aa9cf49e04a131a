import RustClash.Lib.Prog
import RustClash.Tun.Routes

/-!
# What a change of the host route leaves behind

`set_node_host_route` adds the route of the new node, deletes that of the previous one and
writes the undo file, in this order.  The table of routes is followed through each of the three,
and from what they leave comes when the whole is a change or none (`hostRoute_atomic_iff`).
-/

namespace RustClash

namespace Enhance

open Prog

/-! ## Tables -/

abbrev Table := Route → Bool

namespace Table

def add (R : Table) (a : Route) : Table := fun r => R r || r = a

def without (R : Table) (dest : Ipv4Addr) (gateway : Option Ipv4Addr) : Table :=
  fun r => R r && !r.matches dest hostMask gateway

/-- The same host routes. -/
def Same (R R' : Table) : Prop := ∀ r : Route, r.mask = hostMask → R' r = R r

/-- The host routes, with the one to the new node in the place of the one to the previous. -/
def Replaced (physical : PhysicalEndpoint) (previous : Option Ipv4Addr) (node : Ipv4Addr)
    (R R' : Table) : Prop :=
  ∀ r : Route, r.mask = hostMask → (R' r = true ↔ r = hostRoute physical node ∨
    R r = true ∧ ∀ old, previous = some old → r ≠ hostRoute physical old)

end Table

def World.routed (w : World) (R : Table) : World := { w with net := { w.net with routes := R } }

@[simp] theorem World.routes_routed (w : World) (R : Table) : (w.routed R).net.routes = R := rfl

@[simp] theorem World.routed_routed (w : World) (R R' : Table) :
    (w.routed R).routed R' = w.routed R' := rfl

/-- The node that the undo file names. -/
def UndoFile.node : UndoFile → Option Ipv4Addr
  | .saved u => u.node
  | _ => none

/-! ## What is left -/

/-- What the call is to do: where it fails nothing has changed. -/
def Atomic (t : TunRoutes) (node : Ipv4Addr) (w : World) :
    Except Fault (TunRoutes × Except Fault Unit) × Outcomes Op × World → Prop
  | (.ok (t', .ok _), _, w') =>
      Table.Replaced t.physical t.node node w.net.routes w'.net.routes ∧ t'.node = some node ∧
        w'.undo.node = some node
  | (.ok (t', .error _), _, w') =>
      Table.Same w.net.routes w'.net.routes ∧ t'.node = t.node ∧ w'.undo.node = w.undo.node
  | (.error _, _, _) => False

variable {t : TunRoutes} {node : Ipv4Addr} {w : World} {outs : Outcomes Op}

section

variable (t : TunRoutes) (node : Ipv4Addr) (outs : Outcomes Op)

def addOp : Op := .routeAdd (hostRoute t.physical node)

def clearOp : Op := .routeDelete node hostMask none

def deleteOp (old : Ipv4Addr) : Op := .routeDelete old hostMask (some t.physical.gateway)

def saveOp : Op := .writeUndo (TunRoutes.undo { t with node := some node })

/-- The route is added at once, or behind the delete. -/
def added : Bool := outs (addOp t node) 0 || outs (addOp t node) 1

/-- The table behind the first step. -/
def addedTable (R : Table) : Table :=
  if outs (addOp t node) 0 then R.add (hostRoute t.physical node)
  else
    let R := if outs (clearOp node) 0 then R.without node none else R
    if outs (addOp t node) 1 then R.add (hostRoute t.physical node) else R

/-- The table behind the second. -/
def deletedTable (R : Table) : Table :=
  match t.node with
  | some old =>
      if old ≠ node ∧ outs (deleteOp t old) 0 then R.without old (some t.physical.gateway) else R
  | none => R

/-- The undo file is written. -/
def undone : Bool := outs .truncateUndo 0 && outs (saveOp t node) 0

def undoneFile (u : UndoFile) : UndoFile :=
  if outs .truncateUndo 0 then
    if outs (saveOp t node) 0 then .saved (TunRoutes.undo { t with node := some node }) else .torn
  else u

end

/-- Outcomes of acts that a step does not take. -/
def Untouched (outs outs' : Outcomes Op) (taken : Op → Prop) : Prop :=
  ∀ o, ¬ taken o → outs' o = outs o

theorem clearOp_ne_addOp : clearOp node ≠ addOp t node := by
  intro h
  cases h

theorem play_addHostRoute (t : TunRoutes) (node : Ipv4Addr) (outs : Outcomes Op) (w : World) :
    ∃ outs', (addHostRoute t.physical node).play effect outs w =
        (if added t node outs then .ok () else .error (.command (addOp t node)), outs',
          w.routed (addedTable t node outs w.net.routes)) ∧
      Untouched outs outs' fun o => o = addOp t node ∨ o = clearOp node := by
  change ∃ outs', (attempt (addOp t node) >>= fun ok => if ok then pure () else
    perform (clearOp node) >>= fun _ => run (addOp t node)).play effect outs w = _ ∧ _
  rw [play_bind_ok play_attempt, added, addedTable]
  cases hfirst : outs (addOp t node) 0 with
  | true => exact ⟨_, rfl, fun o ho => Outcomes.past_of_ne _ fun h => ho (.inl h)⟩
  | false =>
      have hcleared : (outs.past (addOp t node)) (clearOp node) 0 = outs (clearOp node) 0 :=
        congrFun (Outcomes.past_of_ne _ clearOp_ne_addOp) 0
      have hsecond : ((outs.past (addOp t node)).past (clearOp node)) (addOp t node) 0 =
          outs (addOp t node) 1 := by
        rw [Outcomes.past_of_ne _ clearOp_ne_addOp.symm, Outcomes.past_self]
      refine ⟨((outs.past (addOp t node)).past (clearOp node)).past (addOp t node), ?_, ?_⟩
      · rw [if_neg Bool.false_ne_true, play_bind_ok play_perform, run, play_must, hsecond,
          hcleared, after_false, Bool.false_or, if_neg Bool.false_ne_true]
        cases outs (clearOp node) 0 <;> cases outs (addOp t node) 1 <;> rfl
      · intro o ho
        rw [Outcomes.past_of_ne _ fun h => ho (.inl h),
          Outcomes.past_of_ne _ fun h => ho (.inr h), Outcomes.past_of_ne _ fun h => ho (.inl h)]

theorem play_deleteOld (t : TunRoutes) (node : Ipv4Addr) (outs : Outcomes Op) (w : World) :
    ∃ outs', (deleteOld t node).play effect outs w =
        (.ok (), outs', w.routed (deletedTable t node outs w.net.routes)) ∧
      Untouched outs outs' fun o => ∃ old, o = deleteOp t old := by
  rw [deleteOld, deletedTable]
  rcases t.node with _ | old
  · exact ⟨outs, rfl, fun _ _ => rfl⟩
  · by_cases hne : old ≠ node
    · refine ⟨outs.past (deleteOp t old), ?_,
        fun o ho => Outcomes.past_of_ne _ fun h => ho ⟨old, h⟩⟩
      simp only [hne, ne_eq, not_false_eq_true, true_and, if_true]
      rw [play_perform]
      change (_, _, after effect (deleteOp t old) (outs (deleteOp t old) 0) w) = _
      cases outs (deleteOp t old) 0 <;> rfl
    · refine ⟨outs, ?_, fun _ _ => rfl⟩
      simp only [hne, if_false, false_and]
      rfl

theorem play_writeUndo (t : TunRoutes) (node : Ipv4Addr) (outs : Outcomes Op) (w : World) :
    ∃ e outs', (writeUndo { t with node := some node }).play effect outs w =
      (if undone t node outs then .ok () else .error e, outs',
        { w with undo := undoneFile t node outs w.undo }) := by
  have hne : saveOp t node ≠ .truncateUndo := by
    intro h
    cases h
  have hpast : (outs.past .truncateUndo) (saveOp t node) 0 = outs (saveOp t node) 0 :=
    congrFun (Outcomes.past_of_ne _ hne) 0
  change ∃ e outs', (run .truncateUndo >>= fun _ => run (saveOp t node)).play effect outs w = _
  rw [undone, undoneFile]
  cases htruncate : outs .truncateUndo 0 with
  | true =>
      refine ⟨.command (saveOp t node), (outs.past .truncateUndo).past (saveOp t node), ?_⟩
      have hplay : (run .truncateUndo : Action Unit).play effect outs w =
          (.ok (), outs.past .truncateUndo, { w with undo := .torn }) := by
        rw [run, play_must, htruncate]
        rfl
      rw [play_bind_ok hplay, run, play_must, hpast]
      cases outs (saveOp t node) 0 <;> rfl
  | false =>
      have hplay : (run .truncateUndo : Action Unit).play effect outs w =
          (.error (.command .truncateUndo), outs.past .truncateUndo, w) := by
        rw [run, play_must, htruncate]
        rfl
      exact ⟨_, _, play_bind_error hplay⟩

/-- What the call returns and leaves. -/
theorem play_setNodeHostRoute (t : TunRoutes) (node : Ipv4Addr) (outs : Outcomes Op) (w : World) :
    ∃ e outs', (setNodeHostRoute node t).play effect outs w =
      if added t node outs then
        (.ok ({ t with node := some node }, if undone t node outs then .ok () else .error e), outs',
          { w.routed (deletedTable t node outs (addedTable t node outs w.net.routes)) with
            undo := undoneFile t node outs w.undo })
      else (.ok (t, .error e), outs', w.routed (addedTable t node outs w.net.routes)) := by
  obtain ⟨outs₁, hadd, hunadd⟩ := play_addHostRoute t node outs w
  rw [setNodeHostRoute, play_bind_ok (play_result hadd)]
  cases hadded : added t node outs with
  | false => exact ⟨.command (addOp t node), outs₁, rfl⟩
  | true =>
      obtain ⟨outs₂, hdelete, hundelete⟩ := play_deleteOld t node outs₁
        (w.routed (addedTable t node outs w.net.routes))
      obtain ⟨e, outs₃, hwrite⟩ := play_writeUndo t node outs₂
        (w.routed (deletedTable t node outs₁ (addedTable t node outs w.net.routes)))
      have hdel : ∀ old, outs₁ (deleteOp t old) = outs (deleteOp t old) := fun old =>
        hunadd _ (by rintro (h | h) <;> cases h)
      have htruncate : outs₂ .truncateUndo = outs .truncateUndo := by
        rw [hundelete _ (by rintro ⟨old, h⟩; cases h), hunadd _ (by rintro (h | h) <;> cases h)]
      have hsave : outs₂ (saveOp t node) = outs (saveOp t node) := by
        rw [hundelete _ (by rintro ⟨old, h⟩; cases h), hunadd _ (by rintro (h | h) <;> cases h)]
      rw [World.routes_routed, World.routed_routed] at hdelete
      refine ⟨e, outs₃, ?_⟩
      simp only [if_true]
      rw [play_bind_ok hdelete]
      rw [play_bind_ok (play_result hwrite)]
      rw [undone, htruncate, hsave, undoneFile, htruncate, hsave]
      simp only [deletedTable, hdel]
      rfl

/-! ## When the call is atomic -/

section

variable (t : TunRoutes) (node : Ipv4Addr) (outs : Outcomes Op)

/-- The routes to the new node are deleted before its route is added again. -/
def Cleared : Prop := outs (addOp t node) 0 = false ∧ outs (clearOp node) 0 = true

/-- Such a delete takes nothing but the route that is then added. -/
def RetrySpared (R : Table) : Prop :=
  Cleared t node outs → ∀ r, R r = true → r.matches node hostMask none = true →
    r = hostRoute t.physical node ∧ added t node outs = true

/-- The route to the previous node goes alone, or was not there. -/
def PreviousSpared (R : Table) : Prop :=
  ∀ old, t.node = some old → old ≠ node →
    if outs (deleteOp t old) 0 then
      ∀ r, R r = true → r.matches old hostMask (some t.physical.gateway) = true →
        r = hostRoute t.physical old
    else R (hostRoute t.physical old) = false

/-- A route that is added without the undo file was there before. -/
def UnsavedSpared (R : Table) (u : UndoFile) : Prop :=
  t.node = some node ∧ R (hostRoute t.physical node) = true ∧
    (outs .truncateUndo 0 = true → u.node = none)

/-- When a call is a change or none. -/
structure Spared (w : World) : Prop where
  retry : RetrySpared t node outs w.net.routes
  saved : added t node outs = true → undone t node outs = true →
    PreviousSpared t node outs w.net.routes
  unsaved : added t node outs = true → undone t node outs = false →
    UnsavedSpared t node outs w.net.routes w.undo

end

theorem matches_host {r : Route} {dest : Ipv4Addr} {gateway : Option Ipv4Addr}
    (h : r.matches dest hostMask gateway = true) : r.dest = dest ∧ r.mask = hostMask := by
  simp only [Route.matches, Bool.and_eq_true, decide_eq_true_eq] at h
  exact h.1

theorem hostRoute_matches (physical : PhysicalEndpoint) (dest : Ipv4Addr) :
    (hostRoute physical dest).matches dest hostMask (some physical.gateway) = true := by
  simp [Route.matches, hostRoute]

theorem add_iff {R : Table} {a r : Route} : R.add a r = true ↔ R r = true ∨ r = a := by
  rw [Table.add, Bool.or_eq_true, decide_eq_true_eq]

theorem without_iff {R : Table} {dest : Ipv4Addr} {gateway : Option Ipv4Addr} {r : Route} :
    R.without dest gateway r = true ↔ R r = true ∧ ¬ r.matches dest hostMask gateway = true := by
  rw [Table.without, Bool.and_eq_true, Bool.not_eq_true', Bool.not_eq_true]

theorem addedTable_iff {R : Table} {r : Route} :
    addedTable t node outs R r = true ↔ added t node outs = true ∧ r = hostRoute t.physical node ∨
      R r = true ∧ ¬ (Cleared t node outs ∧ r.matches node hostMask none = true) := by
  rw [addedTable, added, Cleared]
  cases outs (addOp t node) 0 <;> cases outs (clearOp node) 0 <;> cases outs (addOp t node) 1 <;>
    simp [add_iff, without_iff, or_comm]

theorem deletedTable_iff {R : Table} {r : Route} :
    deletedTable t node outs R r = true ↔ R r = true ∧ ¬ ∃ old, t.node = some old ∧ old ≠ node ∧
      outs (deleteOp t old) 0 = true ∧
        r.matches old hostMask (some t.physical.gateway) = true := by
  rw [deletedTable]
  rcases t.node with _ | old
  · simp
  · by_cases hgone : old ≠ node ∧ outs (deleteOp t old) 0 = true
    · simp [hgone, without_iff]
    · simp only [hgone, if_false]
      refine (and_iff_left ?_).symm
      rintro ⟨_, ⟨⟩, hne, hdel, -⟩
      exact hgone ⟨hne, hdel⟩

theorem same_iff {R : Table} : Table.Same R (addedTable t node outs R) ↔
    RetrySpared t node outs R ∧
      (added t node outs = true → R (hostRoute t.physical node) = true) := by
  constructor
  · intro h
    refine ⟨fun hcleared r hr hmatch => ?_, fun hadded => ?_⟩
    · have htable := (h r (matches_host hmatch).2).trans hr
      rcases addedTable_iff.mp htable with ⟨hadded, rfl⟩ | ⟨-, hnot⟩
      · exact ⟨rfl, hadded⟩
      · exact absurd ⟨hcleared, hmatch⟩ hnot
    · exact (h (hostRoute t.physical node) rfl).symm.trans (addedTable_iff.mpr (.inl ⟨hadded, rfl⟩))
  · rintro ⟨hretry, hthere⟩ r -
    rw [Bool.eq_iff_iff, addedTable_iff]
    constructor
    · rintro (⟨hadded, rfl⟩ | ⟨hr, -⟩)
      · exact hthere hadded
      · exact hr
    · intro hr
      by_cases hgone : Cleared t node outs ∧ r.matches node hostMask none = true
      · exact .inl (hretry hgone.1 r hr hgone.2).symm
      · exact .inr ⟨hr, hgone⟩

theorem replaced_iff {R : Table} (hadded : added t node outs = true) :
    Table.Replaced t.physical t.node node R (deletedTable t node outs (addedTable t node outs R)) ↔
      RetrySpared t node outs R ∧ PreviousSpared t node outs R := by
  constructor
  · intro h
    refine ⟨fun hcleared r hr hmatch => ⟨?_, hadded⟩, fun old hold hne => ?_⟩
    · by_contra hr'
      have hother : ∀ old, t.node = some old → r ≠ hostRoute t.physical old := by
        rintro old - rfl
        exact hr' (congrArg (hostRoute t.physical) (matches_host hmatch).1)
      have htable := (h r (matches_host hmatch).2).mpr (.inr ⟨hr, hother⟩)
      rcases addedTable_iff.mp (deletedTable_iff.mp htable).1 with ⟨-, hr''⟩ | ⟨-, hnot⟩
      · exact hr' hr''
      · exact hnot ⟨hcleared, hmatch⟩
    · have hnew : hostRoute t.physical old ≠ hostRoute t.physical node := fun he =>
        hne (congrArg Route.dest he)
      split
      · next hdel =>
          intro r hr hmatch
          by_contra hr'
          have hother : ∀ old', t.node = some old' → r ≠ hostRoute t.physical old' := by
            intro old' hold'
            cases hold.symm.trans hold'
            exact hr'
          have htable := (h r (matches_host hmatch).2).mpr (.inr ⟨hr, hother⟩)
          exact (deletedTable_iff.mp htable).2 ⟨old, hold, hne, hdel, hmatch⟩
      · next hdel =>
          rw [← Bool.not_eq_true]
          intro hr
          have htable : deletedTable t node outs (addedTable t node outs R)
              (hostRoute t.physical old) = true := by
            refine deletedTable_iff.mpr ⟨addedTable_iff.mpr (.inr ⟨hr, ?_⟩), ?_⟩
            · rintro ⟨-, hmatch⟩
              exact hne (matches_host hmatch).1
            · rintro ⟨old', hold', -, hdel', -⟩
              cases hold.symm.trans hold'
              exact hdel hdel'
          rcases (h _ rfl).mp htable with he | ⟨-, hnot⟩
          · exact hnew he
          · exact hnot old hold rfl
  · rintro ⟨hretry, hprevious⟩ r -
    rw [deletedTable_iff, addedTable_iff]
    constructor
    · rintro ⟨⟨-, hr⟩ | ⟨hr, -⟩, hgone⟩
      · exact .inl hr
      · by_cases hnew : r = hostRoute t.physical node
        · exact .inl hnew
        · refine .inr ⟨hr, ?_⟩
          rintro old hold rfl
          have hne : old ≠ node := fun he => hnew (congrArg (hostRoute t.physical) he)
          have hspared := hprevious old hold hne
          split at hspared
          · next hdel => exact hgone ⟨old, hold, hne, hdel, hostRoute_matches _ _⟩
          · exact Bool.false_ne_true (hspared.symm.trans hr)
    · intro hr
      constructor
      · rcases hr with rfl | ⟨hr, -⟩
        · exact .inl ⟨hadded, rfl⟩
        · by_cases hgone : Cleared t node outs ∧ r.matches node hostMask none = true
          · exact .inl ⟨hadded, (hretry hgone.1 r hr hgone.2).1⟩
          · exact .inr ⟨hr, hgone⟩
      · rintro ⟨old, hold, hne, hdel, hmatch⟩
        rcases hr with rfl | ⟨hr, hother⟩
        · exact hne (matches_host hmatch).1.symm
        · have hspared := hprevious old hold hne
          rw [if_pos hdel] at hspared
          exact hother old hold (hspared r hr hmatch)

theorem undoneFile_node_iff {u : UndoFile} (h : undone t node outs = false) :
    (undoneFile t node outs u).node = u.node ↔ (outs .truncateUndo 0 = true → u.node = none) := by
  rw [undone] at h
  rw [undoneFile]
  cases htruncate : outs .truncateUndo 0 with
  | false => simp
  | true =>
      rw [htruncate, Bool.true_and] at h
      simp only [h, if_true, Bool.false_eq_true, if_false, UndoFile.node, true_implies]
      exact eq_comm

theorem undoneFile_node {u : UndoFile} (h : undone t node outs = true) :
    (undoneFile t node outs u).node = some node := by
  rw [undone, Bool.and_eq_true] at h
  rw [undoneFile, if_pos h.1, if_pos h.2]
  rfl

/-- Where the call deletes nothing of the previous node. -/
theorem deletedTable_self (h : t.node = some node) (R : Table) :
    deletedTable t node outs R = R := by
  simp [deletedTable, h]

/-- However its acts go, on any table: a call is atomic if and only if it is spared. -/
theorem hostRoute_atomic_iff (t : TunRoutes) (node : Ipv4Addr) (w : World) (outs : Outcomes Op) :
    Atomic t node w ((setNodeHostRoute node t).play effect outs w) ↔ Spared t node outs w := by
  obtain ⟨e, outs', hplay⟩ := play_setNodeHostRoute t node outs w
  rw [hplay]
  cases hadded : added t node outs with
  | false =>
      rw [if_neg Bool.false_ne_true, Atomic, World.routes_routed, same_iff, hadded]
      constructor
      · rintro ⟨⟨hretry, -⟩, -⟩
        exact ⟨hretry, fun h => absurd h (by rw [hadded]; decide),
          fun h => absurd h (by rw [hadded]; decide)⟩
      · intro h
        exact ⟨⟨h.retry, fun h => absurd h (by decide)⟩, rfl, rfl⟩
  | true =>
      rw [if_pos rfl]
      cases hundone : undone t node outs with
      | true =>
          rw [if_pos rfl, Atomic]
          change Table.Replaced _ _ _ _ (deletedTable t node outs _) ∧ _ ∧ _ ↔ _
          rw [replaced_iff hadded]
          constructor
          · rintro ⟨⟨hretry, hprevious⟩, -⟩
            exact ⟨hretry, fun _ _ => hprevious, fun _ h => absurd h (by rw [hundone]; decide)⟩
          · intro h
            exact ⟨⟨h.retry, h.saved hadded hundone⟩, rfl, undoneFile_node hundone⟩
      | false =>
          rw [if_neg Bool.false_ne_true, Atomic]
          change Table.Same _ (deletedTable t node outs _) ∧ some node = t.node ∧
            (undoneFile t node outs w.undo).node = _ ↔ _
          rw [undoneFile_node_iff hundone]
          constructor
          · rintro ⟨hsame, hnode, hfile⟩
            rw [deletedTable_self hnode.symm, same_iff] at hsame
            exact ⟨hsame.1, fun _ h => absurd h (by rw [hundone]; decide),
              fun _ _ => ⟨hnode.symm, hsame.2 hadded, hfile⟩⟩
          · intro h
            obtain ⟨hnode, hthere, hfile⟩ := h.unsaved hadded hundone
            rw [deletedTable_self hnode, same_iff]
            exact ⟨⟨h.retry, fun _ => hthere⟩, hnode.symm, hfile⟩

/-! ## A full disk -/

/-- The TUN runs with its route to one server, and the undo file names it. -/
def sampleRoutes : TunRoutes := ⟨⟨7, ⟨192, 168, 0, 1⟩, ['e']⟩, some ⟨1, 1, 1, 1⟩, none⟩

def sampleWorld : World where
  net := ⟨[['e']], fun _ => .dhcp, fun _ => true,
    fun r => r = hostRoute sampleRoutes.physical ⟨1, 1, 1, 1⟩⟩
  undo := .saved sampleRoutes.undo
  runtime := some sampleRoutes

/-- Everything succeeds but to open the undo file. -/
def fullDisk : Outcomes Op := fun o _ => decide (o ≠ .truncateUndo)

/-- The call fails, and it has replaced the route and the node. -/
theorem not_hostRoute_atomic :
    ∃ t e outs' w', (setNodeHostRoute ⟨2, 2, 2, 2⟩ sampleRoutes).play effect fullDisk sampleWorld =
        (.ok (t, .error e), outs', w') ∧
      t.node = some ⟨2, 2, 2, 2⟩ ∧
      w'.net.routes (hostRoute sampleRoutes.physical ⟨1, 1, 1, 1⟩) = false ∧
      w'.net.routes (hostRoute sampleRoutes.physical ⟨2, 2, 2, 2⟩) = true ∧
      w'.undo.node = some ⟨1, 1, 1, 1⟩ ∧
      ¬ Atomic sampleRoutes ⟨2, 2, 2, 2⟩ sampleWorld
        ((setNodeHostRoute ⟨2, 2, 2, 2⟩ sampleRoutes).play effect fullDisk sampleWorld) := by
  obtain ⟨e, outs', hplay⟩ := play_setNodeHostRoute sampleRoutes ⟨2, 2, 2, 2⟩ fullDisk sampleWorld
  have hadded : added sampleRoutes ⟨2, 2, 2, 2⟩ fullDisk = true := by decide
  have hundone : undone sampleRoutes ⟨2, 2, 2, 2⟩ fullDisk = false := by decide
  rw [if_pos hadded, if_neg (by rw [hundone]; decide)] at hplay
  refine ⟨_, e, outs', _, hplay, rfl, by decide, by decide, by decide, ?_⟩
  rw [hplay]
  rintro ⟨-, hnode, -⟩
  exact absurd hnode (by decide)

end Enhance

end RustClash
