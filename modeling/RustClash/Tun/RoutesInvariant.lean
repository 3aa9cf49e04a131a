import RustClash.Tun.Routes

/-!
# Settled runs of enhance mode take the configuration back

What may differ from the configuration of before is bounded by a `Diff`, which every act makes
larger or smaller; where an undo ends it is empty.
-/

namespace RustClash

namespace Enhance

open Prog Str

variable {origin n : Net} {w : World} {o : Op}

/-! ## Differences -/

/-- The routes that may have been added, and the adapters that may have been changed. -/
structure Diff where
  routes : Route → Prop
  dns : Str → Prop
  ipv6 : Str → Prop

def Diff.after (d : Diff) : Op → Diff
  | .routeAdd r => { d with routes := fun r' => d.routes r' ∨ r' = r }
  | .routeDelete dest mask gateway =>
      { d with routes := fun r => d.routes r ∧ ¬ r.matches dest mask gateway }
  | .disableIpv6 name => { d with ipv6 := fun name' => d.ipv6 name' ∨ name' = name }
  | .enableIpv6 name => { d with ipv6 := fun name' => d.ipv6 name' ∧ name' ≠ name }
  | .setDns name .dhcp => { d with dns := fun name' => d.dns name' ∧ name' ≠ name }
  | .setDns name (.static _) => { d with dns := fun name' => d.dns name' ∨ name' = name }
  | _ => d

/-- No route of before is gone, and what is changed was as an undo leaves it. -/
structure Within (origin n : Net) : Prop where
  adapters : n.adapters = origin.adapters
  routes : ∀ r, origin.routes r = true → n.routes r = true
  dns : ∀ name, n.dns name ≠ origin.dns name → origin.dns name = .dhcp
  ipv6 : ∀ name, n.ipv6 name ≠ origin.ipv6 name → origin.ipv6 name = true

/-- The act does nothing that an undo does not take back. -/
def Fits (origin : Net) : Op → Prop
  | .routeDelete dest mask gateway => ∀ r, r.matches dest mask gateway = true → origin.routes r = false
  | .enableIpv6 name => origin.ipv6 name = true
  | .setDns name d => origin.dns name = d ∨ origin.dns name = .dhcp
  | _ => True

theorem within_refl (origin : Net) : Within origin origin :=
  ⟨rfl, fun _ h => h, fun _ h => absurd rfl h, fun _ h => absurd rfl h⟩

theorem Within.effect (h : Within origin n) (hfits : Fits origin o) : Within origin (Net.effect o n) := by
  cases o with
  | routeAdd r =>
      refine ⟨h.adapters, fun r' hr => ?_, h.dns, h.ipv6⟩
      simp [Net.effect, h.routes r' hr]
  | routeDelete dest mask gateway =>
      refine ⟨h.adapters, fun r hr => ?_, h.dns, h.ipv6⟩
      have hother : r.matches dest mask gateway = false := by
        by_contra hmatch
        rw [Bool.not_eq_false] at hmatch
        exact absurd hr (by simp [hfits r hmatch])
      simp [Net.effect, h.routes r hr, hother]
  | disableIpv6 name =>
      refine ⟨h.adapters, h.routes, h.dns, fun name' hne => ?_⟩
      by_cases hname : name' = name
      · subst hname
        simpa [Net.effect] using hne
      · exact h.ipv6 name' (by simpa [Net.effect, hname] using hne)
  | enableIpv6 name =>
      refine ⟨h.adapters, h.routes, h.dns, fun name' hne => ?_⟩
      by_cases hname : name' = name
      · exact hname ▸ hfits
      · exact h.ipv6 name' (by simpa [Net.effect, hname] using hne)
  | setDns name d =>
      refine ⟨h.adapters, h.routes, fun name' hne => ?_, h.ipv6⟩
      by_cases hname : name' = name
      · subst hname
        exact hfits.resolve_left fun hd => hne (by simp [Net.effect, hd])
      · exact h.dns name' (by simpa [Net.effect, hname] using hne)
  | _ => exact h

/-- What is different from before is among the differences. -/
structure Left (origin : Net) (d : Diff) (n : Net) : Prop where
  within : Within origin n
  routes : ∀ r, n.routes r = true → origin.routes r = true ∨ d.routes r
  dns : ∀ name, n.dns name ≠ origin.dns name → d.dns name
  ipv6 : ∀ name, n.ipv6 name ≠ origin.ipv6 name → d.ipv6 name

variable {d : Diff}

theorem left_refl (origin : Net) : Left origin ⟨fun _ => False, fun _ => False, fun _ => False⟩ origin :=
  ⟨within_refl origin, fun _ h => .inl h, fun _ h => h rfl, fun _ h => h rfl⟩

theorem Left.mono (h : Left origin d n) {d' : Diff} (hroutes : ∀ r, d.routes r → d'.routes r)
    (hdns : ∀ name, d.dns name → d'.dns name) (hipv6 : ∀ name, d.ipv6 name → d'.ipv6 name) :
    Left origin d' n :=
  ⟨h.within, fun r hr => (h.routes r hr).imp_right (hroutes r), fun name hne => hdns name (h.dns name hne),
    fun name hne => hipv6 name (h.ipv6 name hne)⟩

theorem Left.eq_origin (h : Left origin d n) (hroutes : ∀ r, ¬ d.routes r) (hdns : ∀ name, ¬ d.dns name)
    (hipv6 : ∀ name, ¬ d.ipv6 name) : n = origin := by
  obtain ⟨adapters, dns, ipv6, routes⟩ := n
  obtain rfl : adapters = origin.adapters := h.within.adapters
  obtain rfl : dns = origin.dns := funext fun name => by_contra fun hne => hdns name (h.dns name hne)
  obtain rfl : ipv6 = origin.ipv6 := funext fun name => by_contra fun hne => hipv6 name (h.ipv6 name hne)
  obtain rfl : routes = origin.routes := funext fun r => Bool.eq_iff_iff.mpr
    ⟨fun hr => (h.routes r hr).resolve_right (hroutes r), h.within.routes r⟩
  rfl

theorem Left.after (h : Left origin d n) (hwithin : Within origin (Net.effect o n)) :
    Left origin (d.after o) (Net.effect o n) := by
  cases o with
  | routeAdd r =>
      refine ⟨hwithin, fun r' hr => ?_, h.dns, h.ipv6⟩
      rcases (Bool.or_eq_true _ _).mp hr with hr | hr
      · exact (h.routes r' hr).imp_right .inl
      · exact .inr (.inr (of_decide_eq_true hr))
  | routeDelete dest mask gateway =>
      refine ⟨hwithin, fun r hr => ?_, h.dns, h.ipv6⟩
      obtain ⟨hr, hother⟩ := (Bool.and_eq_true _ _).mp hr
      exact (h.routes r hr).imp_right fun hd => ⟨hd, by simpa using hother⟩
  | disableIpv6 name =>
      refine ⟨hwithin, h.routes, h.dns, fun name' hne => ?_⟩
      by_cases hname : name' = name
      · exact .inr hname
      · exact .inl (h.ipv6 name' (by simpa [Net.effect, hname] using hne))
  | enableIpv6 name =>
      refine ⟨hwithin, h.routes, h.dns, fun name' hne => ?_⟩
      have hname : name' ≠ name := by
        rintro rfl
        exact hne (by simp [Net.effect, hwithin.ipv6 name' hne])
      exact ⟨h.ipv6 name' (by simpa [Net.effect, hname] using hne), hname⟩
  | setDns name d' =>
      cases d' with
      | dhcp =>
          refine ⟨hwithin, h.routes, fun name' hne => ?_, h.ipv6⟩
          have hname : name' ≠ name := by
            rintro rfl
            exact hne (by simp [Net.effect, hwithin.dns name' hne])
          exact ⟨h.dns name' (by simpa [Net.effect, hname] using hne), hname⟩
      | static servers =>
          refine ⟨hwithin, h.routes, fun name' hne => ?_, h.ipv6⟩
          by_cases hname : name' = name
          · exact .inr hname
          · exact .inl (h.dns name' (by simpa [Net.effect, hname] using hne))
  | _ => exact ⟨h.within, h.routes, h.dns, h.ipv6⟩

/-! ## What may fail -/

def Call.Starts : Call → Prop
  | .start _ _ => True
  | _ => False

def Call.Switches : Call → Prop
  | .nodeChanged _ => True
  | _ => False

/-- A start writes the undo file, and an undo fails only where it has nothing to do.  Before a
route is added again in a switch it need not be deleted. -/
def MayFail (k : Call) (w : World) (o : Op) : Prop :=
  match o with
  | .truncateUndo => ¬ k.Starts
  | .writeUndo _ => ¬ k.Starts
  | .routeDelete _ _ none => k.Switches ∨ effect o w = w
  | .routeDelete _ _ (some _) => effect o w = w
  | .enableIpv6 _ => effect o w = w
  | .setDns _ .dhcp => effect o w = w
  | .removeUndo => effect o w = w
  | .listDns => False
  | .setRuntime _ => False
  | _ => True

def contract (origin : Net) (k : Call) : Contract World Op where
  allowed w o ok := if ok then Fits origin o else MayFail k w o
  guarantee _ _ _ := True

variable {k : Call} {t : TunRoutes}

theorem Left.allowed (h : Left origin d w.net) (hok : (contract origin k).allowed w o true) :
    Left origin (d.after o) (effect o w).net :=
  h.after (h.within.effect hok)

theorem safe_back {Q : Unit → World → Prop} {E : Fault → World → Prop}
    (hfail : MayFail k w o → effect o w = w) (h : Left origin d w.net)
    (hQ : Left origin (d.after o) (effect o w).net → Q () (effect o w)) :
    (perform o : Action Unit).Safe effect (contract origin k) Q E w := by
  intro ok hok
  refine ⟨trivial, ?_⟩
  cases ok with
  | true => exact hQ (h.allowed hok)
  | false =>
      have hw : effect o w = w := hfail hok
      have hnet : Net.effect o w.net = w.net := congrArg World.net hw
      show Q () w
      rw [← hw]
      exact hQ (h.after (hnet.symm ▸ h.within))

theorem safe_run {Q : Unit → World → Prop} {E : Fault → World → Prop} (h : Left origin d w.net)
    (hQ : Left origin (d.after o) (effect o w).net → Q () (effect o w))
    (hE : MayFail k w o → E (.command o) w) :
    (run o).Safe effect (contract origin k) Q E w := by
  rw [run, safe_must]
  exact ⟨fun hok => ⟨trivial, hQ (h.allowed hok)⟩, fun hok => ⟨trivial, hE hok⟩⟩

/-- Only the network has changed, and what is left of the differences. -/
structure Took (origin : Net) (d : Diff) (w w' : World) : Prop where
  left : Left origin d w'.net
  undo : w'.undo = w.undo
  runtime : w'.runtime = w.runtime

/-! ## Undoing -/

/-- A route to the lower or the upper half. -/
def Route.IsSplit (r : Route) : Prop :=
  r.matches lowerHalf halfMask none ∨ r.matches upperHalf halfMask none

theorem safe_deleteSplit (hk : ¬ k.Switches) (h : Left origin d w.net) {E : Fault → World → Prop} :
    deleteSplit.Safe effect (contract origin k)
      (fun _ => Took origin { d with routes := fun r => d.routes r ∧ ¬ r.IsSplit } w) E w := by
  have hfail : ∀ w half, MayFail k w (.routeDelete half halfMask none) →
      effect (.routeDelete half halfMask none) w = w := fun _ _ hf => Or.resolve_left hf hk
  rw [deleteSplit, safe_bind]
  refine safe_back (hfail _ _) h fun h => ?_
  refine safe_back (hfail _ _) h fun h => ⟨h.mono ?_ (fun _ h => h) (fun _ h => h), rfl, rfl⟩
  rintro r ⟨⟨hr, hlower⟩, hupper⟩
  exact ⟨hr, fun hsplit => hsplit.elim hlower hupper⟩

/-- The differences that `uninstall` knows of. -/
def TunRoutes.diff (t : TunRoutes) : Diff where
  routes r := r.IsSplit ∨ ∃ node ∈ t.node, r.matches node hostMask (some t.physical.gateway)
  dns name := name = t.physical.name
  ipv6 name := t.ipv6Disabled = some name

theorem safe_uninstallNode (h : Left origin { t.diff with routes := fun r => t.diff.routes r ∧ ¬ r.IsSplit } w.net)
    {E : Fault → World → Prop} : (uninstallNode t).Safe effect (contract origin k)
      (fun _ => Took origin { t.diff with routes := fun _ => False } w) E w := by
  rw [uninstallNode]
  split
  · next node hnode =>
      refine safe_back id h fun h => ⟨h.mono ?_ (fun _ h => h) (fun _ h => h), rfl, rfl⟩
      rintro r ⟨⟨hsplit | ⟨node', hnode', hmatch⟩, hother⟩, hgone⟩
      · exact hother hsplit
      · obtain rfl : node = node' := Option.some.inj (hnode.symm.trans hnode')
        exact hgone hmatch
  · next hnode =>
      refine ⟨h.mono ?_ (fun _ h => h) (fun _ h => h), rfl, rfl⟩
      rintro r ⟨hsplit | ⟨node, hnode', -⟩, hother⟩
      · exact hother hsplit
      · cases hnode.symm.trans hnode'

theorem safe_uninstallIpv6 (h : Left origin ⟨fun _ => False, fun _ => False, t.diff.ipv6⟩ w.net)
    {E : Fault → World → Prop} : (uninstallIpv6 t).Safe effect (contract origin k)
      (fun _ => Took origin ⟨fun _ => False, fun _ => False, fun _ => False⟩ w) E w := by
  rw [uninstallIpv6]
  split
  · next name hname =>
      refine safe_back id h fun h => ⟨h.mono (fun _ h => h) (fun _ h => h) ?_, rfl, rfl⟩
      rintro name' ⟨hname', hother⟩
      exact hother (Option.some.inj (hname'.symm.trans hname))
  · next hname =>
      refine ⟨h.mono (fun _ h => h) (fun _ h => h) ?_, rfl, rfl⟩
      intro name' hname'
      cases hname.symm.trans hname'

/-- The configuration is that of before, and there is nothing to recover. -/
structure Clean (origin : Net) (w : World) : Prop where
  net : w.net = origin
  undo : w.undo = .absent
  runtime : w.runtime = none

theorem safe_removeUndo (h : Left origin ⟨fun _ => False, fun _ => False, fun _ => False⟩ w.net)
    {E : Fault → World → Prop} : (perform .removeUndo : Action Unit).Safe effect (contract origin k)
      (fun _ w' => w'.net = origin ∧ w'.undo = .absent ∧ w'.runtime = w.runtime) E w :=
  safe_back id h fun h => ⟨h.eq_origin (fun _ h => h) (fun _ h => h) fun _ h => h, rfl, rfl⟩

theorem safe_uninstall (hk : ¬ k.Switches) (h : Left origin t.diff w.net) (hnone : w.runtime = none)
    {E : Fault → World → Prop} : (uninstall t).Safe effect (contract origin k)
      (fun _ => Clean origin) E w := by
  rw [uninstall, safe_bind]
  refine (safe_deleteSplit hk h).mono ?_ fun _ _ h => h
  rintro _ w₁ ⟨h, -, hruntime⟩
  replace hnone := hruntime.trans hnone
  rw [safe_bind]
  refine (safe_uninstallNode h).mono ?_ fun _ _ h => h
  rintro _ w₂ ⟨h, -, hruntime⟩
  replace hnone := hruntime.trans hnone
  rw [safe_bind]
  refine safe_back (fun _ => rfl) h fun h => ?_
  rw [safe_bind]
  refine safe_back id h fun h => ?_
  have hdns : Left origin ⟨fun _ => False, fun _ => False, t.diff.ipv6⟩
      (effect (.setDns t.physical.name .dhcp) (effect (.setTunDns .dhcp) w₂)).net :=
    h.mono (fun _ h => h) (fun _ h => h.2 h.1) fun _ h => h
  rw [safe_bind]
  refine (safe_uninstallIpv6 hdns).mono ?_ fun _ _ h => h
  rintro _ w₃ ⟨h, -, hruntime⟩
  replace hnone := hruntime.trans hnone
  refine (safe_removeUndo h).mono ?_ fun _ _ h => h
  rintro _ w₄ ⟨hnet, hundo, hruntime⟩
  exact ⟨hnet, hundo, hruntime.trans hnone⟩

/-- The differences that `recover` finds in the undo file. -/
def UndoFile.diff : UndoFile → Diff
  | .saved u => {
      routes := fun r => r.IsSplit ∨ ∃ node ∈ u.node, r.matches node hostMask none
      dns := fun name => name = u.ifname
      ipv6 := fun name => u.ipv6 = true ∧ name = u.ifname }
  | _ => ⟨Route.IsSplit, fun _ => False, fun _ => False⟩

theorem safe_recoverIpv6 {u : Undo} (h : Left origin { (UndoFile.saved u).diff with dns := fun _ => False } w.net)
    {E : Fault → World → Prop} : (recoverIpv6 u).Safe effect (contract origin k)
      (fun _ => Took origin { (UndoFile.saved u).diff with dns := fun _ => False, ipv6 := fun _ => False } w)
      E w := by
  rw [recoverIpv6]
  split
  · exact safe_back id h fun h => ⟨h.mono (fun _ h => h) (fun _ h => h) fun _ h => h.2 h.1.2, rfl, rfl⟩
  · next hoff => exact ⟨h.mono (fun _ h => h) (fun _ h => h) fun _ h => hoff h.1, rfl, rfl⟩

theorem safe_recoverNode (hk : ¬ k.Switches) {u : Undo}
    (h : Left origin { (UndoFile.saved u).diff with dns := fun _ => False, ipv6 := fun _ => False } w.net)
    {E : Fault → World → Prop} : (recoverNode u).Safe effect (contract origin k)
      (fun _ => Took origin ⟨Route.IsSplit, fun _ => False, fun _ => False⟩ w) E w := by
  rw [recoverNode]
  split
  · next node hnode =>
      refine safe_back (fun hf => Or.resolve_left hf hk) h fun h =>
        ⟨h.mono ?_ (fun _ h => h) (fun _ h => h), rfl, rfl⟩
      rintro r ⟨hsplit | ⟨node', hnode', hmatch⟩, hgone⟩
      · exact hsplit
      · obtain rfl : node = node' := Option.some.inj (hnode.symm.trans hnode')
        exact absurd hmatch hgone
  · next hnode =>
      refine ⟨h.mono ?_ (fun _ h => h) (fun _ h => h), rfl, rfl⟩
      rintro r (hsplit | ⟨node, hnode', -⟩)
      · exact hsplit
      · cases hnode.symm.trans hnode'

theorem safe_recoverUndo (hk : ¬ k.Switches) {u : Undo} (h : Left origin (UndoFile.saved u).diff w.net)
    {E : Fault → World → Prop} : (recoverUndo u).Safe effect (contract origin k)
      (fun _ => Took origin ⟨Route.IsSplit, fun _ => False, fun _ => False⟩ w) E w := by
  rw [recoverUndo, safe_bind]
  refine safe_back id h fun h => ?_
  rw [safe_bind]
  refine (safe_recoverIpv6 (h.mono (fun _ h => h) (fun _ h => h.2 h.1) fun _ h => h)).mono ?_ fun _ _ h => h
  rintro _ w₁ ⟨h, hundo, hruntime⟩
  refine (safe_recoverNode hk h).mono ?_ fun _ _ h => h
  rintro _ w₂ ⟨h, hundo₂, hruntime₂⟩
  exact ⟨h, hundo₂.trans hundo, hruntime₂.trans hruntime⟩

theorem safe_recoverFile (hk : ¬ k.Switches) (h : Left origin w.undo.diff w.net)
    {E : Fault → World → Prop} : (recoverFile w.undo).Safe effect (contract origin k)
      (fun _ w' => Left origin ⟨Route.IsSplit, fun _ => False, fun _ => False⟩ w'.net ∧
        w'.undo = .absent ∧ w'.runtime = w.runtime) E w := by
  cases hundo : w.undo with
  | absent =>
      rw [hundo] at h
      exact ⟨h, hundo, rfl⟩
  | torn =>
      rw [hundo] at h
      exact safe_back id h fun h => ⟨h, rfl, rfl⟩
  | saved u =>
      rw [hundo] at h
      rw [recoverFile, safe_bind]
      refine (safe_recoverUndo hk h).mono ?_ fun _ _ h => h
      rintro _ w₁ ⟨h, -, hruntime⟩
      exact safe_back id h fun h => ⟨h, rfl, hruntime⟩

theorem safe_setDhcp (h : Left origin d w.net) {names : List Str} {E : Fault → World → Prop} :
    (setDhcp names).Safe effect (contract origin k) (fun _ => Took origin d w) E w := by
  induction names generalizing w with
  | nil => exact ⟨h, rfl, rfl⟩
  | cons name names ih =>
      rw [setDhcp, safe_bind]
      refine safe_back id h fun h => ?_
      have hless : Left origin d (effect (.setDns name .dhcp) w).net :=
        h.mono (fun _ h => h) (fun _ h => h.1) fun _ h => h
      refine (ih hless).mono ?_ fun _ _ h => h
      rintro _ w₁ ⟨h, hundo, hruntime⟩
      exact ⟨h, hundo, hruntime⟩

theorem safe_restoreFakeDnsNics (h : Left origin d w.net) {E : Fault → World → Prop} :
    restoreFakeDnsNics.Safe effect (contract origin k) (fun _ => Took origin d w) E w := by
  rw [restoreFakeDnsNics, safe_bind, safe_attempt]
  intro ok hok
  cases ok with
  | true => exact ⟨trivial, safe_setDhcp h⟩
  | false => exact False.elim hok

/-- What `recover` finds in the undo file is all that is different. -/
theorem safe_recover (hk : ¬ k.Switches) (h : Left origin w.undo.diff w.net) (hnone : w.runtime = none)
    {E : Fault → World → Prop} : recover.Safe effect (contract origin k)
      (fun _ => Clean origin) E w := by
  rw [recover, safe_bind, safe_get, safe_bind]
  refine (safe_recoverFile hk h).mono ?_ fun _ _ h => h
  rintro _ w₁ ⟨h, hundo, hruntime⟩
  replace hnone := hruntime.trans hnone
  rw [safe_bind]
  refine (safe_deleteSplit hk h).mono ?_ fun _ _ h => h
  rintro _ w₂ ⟨h, hundo₂, hruntime⟩
  replace hundo := hundo₂.trans hundo
  replace hnone := hruntime.trans hnone
  rw [safe_bind]
  refine safe_back (fun _ => rfl) h fun h => ?_
  rw [safe_bind]
  refine (safe_restoreFakeDnsNics h).mono ?_ fun _ _ h => h
  rintro _ w₃ ⟨h, hundo₃, hruntime⟩
  replace hundo := hundo₃.trans hundo
  replace hnone := hruntime.trans hnone
  rw [safe_bind]
  refine safe_back (fun _ => rfl) h fun h => ?_
  refine safe_back (fun _ => rfl) h fun h => ?_
  refine ⟨h.eq_origin ?_ (fun _ h => h) fun _ h => h, hundo, hnone⟩
  rintro r ⟨hsplit, hother⟩
  exact hother hsplit

/-! ## Installing -/

/-- The undo file has what the `TunRoutes` knows of. -/
structure Journaled (origin : Net) (t : TunRoutes) (w : World) : Prop where
  left : Left origin t.diff w.net
  undo : w.undo = .saved t.undo
  runtime : w.runtime = none
  own : ∀ name ∈ t.ipv6Disabled, name = t.physical.name

theorem matches_none {r : Route} {dest mask : Ipv4Addr} {gateway : Option Ipv4Addr}
    (h : r.matches dest mask gateway = true) : r.matches dest mask none = true := by
  simp only [Route.matches, Bool.and_eq_true, decide_eq_true_eq] at h ⊢
  exact ⟨h.1, rfl⟩

theorem Journaled.recorded (h : Journaled origin t w) : Left origin w.undo.diff w.net := by
  rw [h.undo]
  refine h.left.mono ?_ (fun _ hname => hname) fun name hname => ?_
  · rintro r (hsplit | ⟨node, hnode, hmatch⟩)
    · exact .inl hsplit
    · exact .inr ⟨node, hnode, matches_none hmatch⟩
  · have hname : t.ipv6Disabled = some name := hname
    exact ⟨by simp [TunRoutes.undo, hname], h.own name hname⟩

theorem safe_addHostRoute {physical : PhysicalEndpoint} {node : Ipv4Addr} (h : Left origin d w.net) :
    (addHostRoute physical node).Safe effect (contract origin k)
      (fun _ => Took origin { d with routes := fun r => d.routes r ∨ r = hostRoute physical node } w)
      (fun _ => Took origin d w) w := by
  rw [addHostRoute, safe_bind, safe_attempt]
  intro ok hok
  refine ⟨trivial, ?_⟩
  cases ok with
  | true =>
      exact ⟨h.allowed hok, rfl, rfl⟩
  | false =>
      rw [if_neg (by simp), safe_bind, after_false, safe_perform]
      intro ok hok
      have h : Took origin d w (after effect (.routeDelete node hostMask none) ok w) := by
        cases ok with
        | true =>
            exact ⟨(h.allowed hok).mono (fun _ h => h.1) (fun _ h => h) fun _ h => h, rfl, rfl⟩
        | false => exact ⟨h, rfl, rfl⟩
      exact ⟨trivial, safe_run h.left (fun hadd => ⟨hadd, h.undo, h.runtime⟩) fun _ => h⟩

theorem diff_hostRoute (t : TunRoutes) (node : Ipv4Addr) :
    ({ t with node := some node } : TunRoutes).diff.routes (hostRoute t.physical node) :=
  .inr ⟨node, rfl, by simp [Route.matches, hostRoute]⟩

theorem safe_deleteOld {node : Ipv4Addr} (h : Left origin
      { t.diff with routes := fun r => t.diff.routes r ∨ r = hostRoute t.physical node } w.net)
    {E : Fault → World → Prop} : (deleteOld t node).Safe effect (contract origin k)
      (fun _ => Took origin { t with node := some node : TunRoutes }.diff w) E w := by
  rw [deleteOld]
  split
  · next old hold =>
      split
      · refine safe_back id h fun h => ⟨h.mono ?_ (fun _ h => h) fun _ h => h, rfl, rfl⟩
        rintro r ⟨(hsplit | ⟨old', hold', hmatch⟩) | rfl, hgone⟩
        · exact .inl hsplit
        · obtain rfl : old = old' := Option.some.inj (hold.symm.trans hold')
          exact absurd hmatch hgone
        · exact diff_hostRoute t node
      · next hsame =>
          obtain rfl := of_not_not hsame
          refine ⟨h.mono ?_ (fun _ h => h) fun _ h => h, rfl, rfl⟩
          rintro r ((hsplit | ⟨old', hold', hmatch⟩) | rfl)
          · exact .inl hsplit
          · exact .inr ⟨old', hold.symm.trans hold', hmatch⟩
          · exact diff_hostRoute t old
  · next hnone =>
      refine ⟨h.mono ?_ (fun _ h => h) fun _ h => h, rfl, rfl⟩
      rintro r ((hsplit | ⟨old, hold, -⟩) | rfl)
      · exact .inl hsplit
      · cases hnone.symm.trans hold
      · exact diff_hostRoute t node

/-- In a start the undo file is written. -/
theorem safe_writeUndo : (writeUndo t).Safe effect (contract origin k)
    (fun _ w' => w'.net = w.net ∧ w'.runtime = w.runtime ∧ w'.undo = .saved t.undo)
    (fun _ w' => w'.net = w.net ∧ w'.runtime = w.runtime ∧ ¬ k.Starts) w := by
  rw [writeUndo, safe_bind]
  refine safe_must.mpr ⟨fun _ => ⟨trivial, ?_⟩, fun hfail => ⟨trivial, rfl, rfl, hfail⟩⟩
  exact safe_must.mpr ⟨fun _ => ⟨trivial, rfl, rfl, rfl⟩, fun hfail => ⟨trivial, rfl, rfl, hfail⟩⟩

/-- Either the route is there instead of the old one, or nothing has been done. -/
theorem safe_setNodeHostRoute {node : Ipv4Addr} (h : Left origin d w.net)
    (hroutes : ∀ r, d.routes r → t.diff.routes r) (hdns : ∀ name, d.dns name → t.diff.dns name)
    (hipv6 : ∀ name, d.ipv6 name → t.diff.ipv6 name) {E : Fault → World → Prop} :
    (setNodeHostRoute node t).Safe effect (contract origin k) (fun p w' => w'.runtime = w.runtime ∧
      ((∃ e, p = (t, .error e)) ∧ Left origin d w'.net ∧ w'.undo = w.undo ∨
        p.1 = { t with node := some node } ∧ Left origin p.1.diff w'.net ∧
          (k.Starts → p.2 = .ok () ∧ w'.undo = .saved p.1.undo))) E w := by
  rw [setNodeHostRoute, safe_bind, safe_result]
  refine (safe_addHostRoute h).mono ?_ ?_
  · rintro _ w₁ ⟨h, -, hruntime⟩
    have hadded : Left origin
        { t.diff with routes := fun r => t.diff.routes r ∨ r = hostRoute t.physical node } w₁.net :=
      h.mono (fun r hr => hr.imp_left (hroutes r)) hdns hipv6
    rw [safe_bind]
    refine (safe_deleteOld hadded).mono ?_ fun _ _ h => h
    rintro _ w₂ ⟨h, -, hruntime₂⟩
    rw [safe_bind, safe_result]
    refine safe_writeUndo.mono ?_ ?_
    · rintro _ w₃ ⟨hnet, hruntime₃, hundo⟩
      exact ⟨hruntime₃.trans (hruntime₂.trans hruntime), .inr ⟨rfl, hnet ▸ h, fun _ => ⟨rfl, hundo⟩⟩⟩
    · rintro e w₃ ⟨hnet, hruntime₃, hswitch⟩
      exact ⟨hruntime₃.trans (hruntime₂.trans hruntime),
        .inr ⟨rfl, hnet ▸ h, fun hstarts => absurd hstarts hswitch⟩⟩
  · rintro e w₁ ⟨h, hundo, hruntime⟩
    exact ⟨hruntime, .inl ⟨⟨e, rfl⟩, h, hundo⟩⟩

theorem safe_disableIpv6 (hk : k.Starts) (h : Journaled origin t w) (hon : t.ipv6Disabled = none)
    {E : Fault → World → Prop} : (disableIpv6 t).Safe effect (contract origin k)
      (fun t' => Journaled origin t') E w := by
  have hwrite : ∀ (t' : TunRoutes) (w' : World), Left origin t'.diff w'.net → w'.runtime = none →
      (∀ name ∈ t'.ipv6Disabled, name = t'.physical.name) →
      (do
        ignored (writeUndo t')
        pure t' : Action TunRoutes).Safe effect (contract origin k) (fun t' => Journaled origin t') E w' := by
    intro t' w' h hnone hown
    rw [safe_bind, safe_ignored]
    refine safe_writeUndo.mono ?_ ?_
    · rintro _ w₁ ⟨hnet, hruntime, hundo⟩
      exact ⟨hnet ▸ h, hundo, hruntime.trans hnone, hown⟩
    · rintro _ _ ⟨-, -, hswitch⟩
      exact absurd hk hswitch
  rw [disableIpv6, safe_bind, safe_attempt]
  intro ok hok
  refine ⟨trivial, ?_⟩
  cases ok with
  | true =>
      refine hwrite { t with ipv6Disabled := some t.physical.name } _ ?_ h.runtime ?_
      · refine (h.left.allowed hok).mono (fun _ h => h) (fun _ h => h) ?_
        rintro name (hname | rfl)
        · cases hon.symm.trans hname
        · rfl
      · rintro name ⟨⟩
        rfl
  | false => exact hwrite t w h.left h.runtime h.own

/-- A start that has failed can be recovered from. -/
structure Recoverable (origin : Net) (w : World) : Prop where
  left : Left origin w.undo.diff w.net
  runtime : w.runtime = none

theorem Journaled.recoverable (h : Journaled origin t w) : Recoverable origin w := ⟨h.recorded, h.runtime⟩

theorem Clean.recoverable (h : Clean origin w) : Recoverable origin w := by
  refine ⟨?_, h.runtime⟩
  rw [h.net, h.undo]
  exact (left_refl origin).mono (fun _ h => h.elim) (fun _ h => h) fun _ h => h

/-- An act that `uninstall` takes back. -/
theorem safe_run_journaled (h : Journaled origin t w) (hundo : (effect o w).undo = w.undo)
    (hruntime : (effect o w).runtime = w.runtime) (hroutes : ∀ r, (t.diff.after o).routes r → t.diff.routes r)
    (hdns : ∀ name, (t.diff.after o).dns name → t.diff.dns name)
    (hipv6 : ∀ name, (t.diff.after o).ipv6 name → t.diff.ipv6 name) {Q : Unit → World → Prop}
    (hQ : Journaled origin t (effect o w) → Q () (effect o w)) :
    (run o).Safe effect (contract origin k) Q (fun _ => Recoverable origin) w :=
  safe_run h.left (fun hleft => hQ ⟨hleft.mono hroutes hdns hipv6, hundo.trans h.undo,
    hruntime.trans h.runtime, h.own⟩) fun _ => h.recoverable

theorem diff_splitRoute {half : Ipv4Addr} (hhalf : half = lowerHalf ∨ half = upperHalf) :
    ∀ r, (t.diff.after (.routeAdd (splitRoute half))).routes r → t.diff.routes r := by
  rintro r (hr | rfl)
  · exact hr
  · rcases hhalf with rfl | rfl
    · exact .inl (.inl (by decide))
    · exact .inl (.inr (by decide))

theorem safe_installSplitDefault (h : Journaled origin t w) :
    installSplitDefault.Safe effect (contract origin k) (fun _ => Journaled origin t)
      (fun _ => Recoverable origin) w := by
  rw [installSplitDefault, safe_bind]
  refine safe_run_journaled h rfl rfl (diff_splitRoute (.inl rfl)) (fun _ h => h) (fun _ h => h) fun h => ?_
  exact safe_run_journaled h rfl rfl (diff_splitRoute (.inr rfl)) (fun _ h => h) (fun _ h => h) id

theorem safe_configureDnsHijack (h : Journaled origin t w) :
    (configureDnsHijack t).Safe effect (contract origin k) (fun _ => Journaled origin t)
      (fun _ => Recoverable origin) w := by
  rw [configureDnsHijack, safe_bind]
  refine safe_run_journaled (o := .setTunDns _) h rfl rfl (fun _ h => h) (fun _ h => h) (fun _ h => h)
    fun h => ?_
  rw [safe_bind]
  refine safe_run_journaled (o := .setDns t.physical.name (.static [FAKE_DNS])) h rfl rfl
    (fun _ h => h) ?_ (fun _ h => h) fun h => ?_
  · rintro name (hname | rfl)
    · exact hname
    · exact rfl
  · exact safe_back (fun _ => rfl) h.left fun hleft => ⟨hleft, h.undo, h.runtime, h.own⟩

/-- Between two calls: what has changed is what the `TunRoutes` in memory knows of. -/
structure Idle (origin : Net) (w : World) : Prop where
  clean : w.runtime = none → Clean origin w
  left : ∀ t ∈ w.runtime, Left origin t.diff w.net

theorem Clean.idle (h : Clean origin w) : Idle origin w := by
  refine ⟨fun _ => h, fun t ht => ?_⟩
  cases h.runtime.symm.trans ht

theorem safe_install (hk : k.Starts) (h : Clean origin w) {physical : PhysicalEndpoint}
    {node : Ipv4Addr} : (install physical node).Safe effect (contract origin k)
      (fun _ => Idle origin) (fun _ => Recoverable origin) w := by
  have hleft : Left origin ⟨fun _ => False, fun _ => False, fun _ => False⟩ w.net :=
    h.net ▸ left_refl origin
  have hrec := h.recoverable
  rw [install, safe_bind]
  refine safe_run hleft (fun hleft => ?_) fun _ => hrec
  rw [safe_bind]
  refine safe_run hleft (fun hleft => ?_) fun _ => hrec
  rw [safe_bind]
  refine (safe_setNodeHostRoute (t := ⟨physical, none, none⟩) hleft (fun _ h => h.elim)
    (fun _ h => h.elim) fun _ h => h.elim).mono ?_ fun _ _ h => h
  rintro ⟨t, r⟩ w₁ ⟨hruntime, ⟨⟨e, he⟩, hleft, hundo⟩ | ⟨ht, hleft, hwritten⟩⟩
  · cases he
    refine ⟨?_, hruntime.trans h.runtime⟩
    rw [hundo.trans h.undo]
    exact hleft.mono (fun _ h => h.elim) (fun _ h => h) fun _ h => h
  · obtain ⟨hr, hundo⟩ := hwritten hk
    cases ht
    cases hr
    have hj : Journaled origin ⟨physical, some node, none⟩ w₁ :=
      ⟨hleft, hundo, hruntime.trans h.runtime, by simp⟩
    rw [safe_bind]
    refine (safe_disableIpv6 hk hj rfl).mono ?_ fun _ _ h => h
    intro t w₂ hj
    rw [safe_bind]
    refine safe_run_journaled (o := .startStack) hj rfl rfl (fun _ h => h) (fun _ h => h) (fun _ h => h)
      fun hj => ?_
    rw [safe_bind]
    refine (safe_installSplitDefault hj).mono ?_ fun _ _ h => h
    intro _ w₃ hj
    rw [safe_bind]
    refine (safe_configureDnsHijack hj).mono ?_ fun _ _ h => h
    intro _ w₄ hj
    refine safe_back (fun hf => False.elim hf) hj.left fun hleft => ⟨fun hnone => ?_, ?_⟩
    · cases hnone
    · rintro t' ⟨⟩
      exact hleft

theorem safe_startInner (hk : k.Starts) (h : Clean origin w) {physical : PhysicalEndpoint}
    {node : Except Refusal Ipv4Addr} : (startInner node physical).Safe effect (contract origin k)
      (fun _ => Idle origin) (fun _ => Recoverable origin) w := by
  have hleft : Left origin ⟨fun _ => False, fun _ => False, fun _ => False⟩ w.net :=
    h.net ▸ left_refl origin
  cases node with
  | error r => exact h.recoverable
  | ok node =>
      rw [startInner, safe_bind]
      refine safe_run hleft (fun _ => ?_) fun _ => h.recoverable
      rw [safe_bind, safe_get]
      have h : Clean origin (effect .probe w) := ⟨h.net, h.undo, h.runtime⟩
      split
      · exact safe_install hk h
      · exact h.recoverable

theorem safe_stop (hk : ¬ k.Switches) (h : Idle origin w) {E : Fault → World → Prop} :
    stop.Safe effect (contract origin k) (fun _ => Clean origin) E w := by
  have hfirewall : ∀ w', Clean origin w' → (perform .removeFirewall : Action Unit).Safe effect
      (contract origin k) (fun _ => Clean origin) E w' := by
    intro w' h
    have hleft : Left origin ⟨fun _ => False, fun _ => False, fun _ => False⟩ w'.net :=
      h.net ▸ left_refl origin
    exact safe_back (fun _ => rfl) hleft fun _ => ⟨h.net, h.undo, h.runtime⟩
  rw [stop, safe_bind, safe_get]
  split
  · next t ht =>
      rw [safe_bind]
      refine safe_back (fun hf => False.elim hf) (h.left t ht) fun hleft => ?_
      rw [safe_bind]
      refine (safe_uninstall hk hleft rfl).mono ?_ fun _ _ h => h
      exact fun _ => hfirewall
  · next hnone => exact hfirewall w (h.clean hnone)

/-- Where `start_inner` has failed, `stop` finds nothing to stop. -/
theorem safe_stop_none (h : Recoverable origin w) {E : Fault → World → Prop} :
    stop.Safe effect (contract origin k) (fun _ => Recoverable origin) E w := by
  rw [stop, safe_bind, safe_get, h.runtime]
  exact safe_back (fun _ => rfl) h.left fun hleft => ⟨hleft, h.runtime⟩

theorem safe_start (hk : k.Starts) (h : Idle origin w) {physical : PhysicalEndpoint}
    {node : Except Refusal Ipv4Addr} : (start node physical).Safe effect (contract origin k)
      (fun _ => Idle origin) (fun _ => Clean origin) w := by
  have hother : ¬ k.Switches := by
    cases k with
    | nodeChanged node => exact hk.elim
    | _ => exact id
  rw [start, safe_bind, safe_get]
  split
  · exact h
  · next hnone =>
      have hclean := h.clean (by simpa using hnone)
      rw [safe_bind, safe_result]
      refine (safe_startInner hk hclean).mono (fun _ _ h => h) fun e w₁ h => ?_
      rw [safe_bind]
      refine (safe_stop_none h).mono ?_ fun _ _ h => h
      rintro _ w₂ ⟨hleft, hnone⟩
      rw [safe_bind]
      exact safe_recover hother hleft hnone

theorem safe_onNodeChanged (h : Idle origin w) {node : Option Ipv4Addr}
    {E : Fault → World → Prop} : (onNodeChanged node).Safe effect (contract origin k)
      (fun _ => Idle origin) E w := by
  rw [onNodeChanged, safe_bind, safe_get]
  split
  · next node t ht =>
      have hleft := h.left t ht
      rw [safe_bind]
      refine (safe_setNodeHostRoute hleft (fun _ h => h) (fun _ h => h) fun _ h => h).mono ?_ fun _ _ h => h
      rintro ⟨t', r⟩ w₁ ⟨-, hp⟩
      have hleft : Left origin t'.diff w₁.net := by
        rcases hp with ⟨⟨e, he⟩, hleft, -⟩ | ⟨-, hleft, -⟩
        · cases he
          exact hleft
        · exact hleft
      rw [safe_bind]
      refine safe_back (fun hf => False.elim hf) hleft fun hleft => ⟨fun hnone => ?_, ?_⟩
      · cases hnone
      · rintro t ⟨⟩
        exact hleft
  · exact h
  · exact h

/-! ## Runs -/

/-- `recover` is called where the TUN does not run. -/
def Callable (k : Call) (w : World) : Prop := k = .recover → w.runtime = none

def SettledSteps (origin : Net) : Machine.State World Op Fault Unit Call → Machine.Event Call →
    Machine.State World Op Fault Unit Call → Prop :=
  machine.SettledSteps (contract origin) Callable fun _ => False

/-- Nothing is left to be undone. -/
def Call.Done : Call → Except Fault Unit → Prop
  | .start _ _, .error _ => True
  | .stop, _ => True
  | .recover, _ => True
  | _, _ => False

def Result (origin : Net) (k : Call) (r : Except Fault Unit) (w : World) : Prop :=
  Idle origin w ∧ (k.Done r → Clean origin w)

theorem safe_body (h : Idle origin w) (hcall : Callable k w) :
    (machine.body k).Safe effect (contract origin k) (fun a => Result origin k (.ok a))
      (fun e => Result origin k (.error e)) w := by
  cases k with
  | start node physical =>
      refine (safe_start (k := .start node physical) trivial h).mono (fun _ _ h => ⟨h, fun hf => hf.elim⟩) fun _ _ h => ⟨h.idle, fun _ => h⟩
  | nodeChanged node =>
      show Safe _ _ _ _ (_ >>= _) w
      rw [safe_bind]
      exact (safe_onNodeChanged h).mono (fun _ _ h => ⟨h, fun hf => hf.elim⟩) fun _ _ h => h
  | stop => exact (safe_stop id h).mono (fun _ _ h => ⟨h.idle, fun _ => h⟩) fun _ _ h => h
  | recover =>
      have hrec := (h.clean (hcall rfl)).recoverable
      exact (safe_recover id hrec.left hrec.runtime).mono (fun _ _ h => ⟨h.idle, fun _ => h⟩) fun _ _ h => h

theorem enhance_restored {es : List (Machine.Event Call)} {st : Machine.State World Op Fault Unit Call}
    (h : Run (SettledSteps origin) (init origin) es st) {clean : Bool} {r : Except Fault Unit}
    (hend : st.Ended k clean r) (hdone : k.Done r) : st.world.net = origin := by
  have hinit : Clean origin ⟨origin, .absent, none⟩ := ⟨rfl, rfl, rfl⟩
  obtain ⟨hup, -⟩ := Machine.invariant_run (M := machine) (I := fun _ => True)
    (Q := fun k a => Result origin k (.ok a)) (E := fun k e => Result origin k (.error e))
    (fun _ _ => safe_body) (fun _ _ _ h => h.1) (fun _ _ _ h => h.1) (fun _ _ _ _ _ _ => trivial)
    (fun _ _ hf => False.elim hf) h hinit.idle trivial
  have hres := hup.ended hend
  cases r with
  | ok a => exact (hres.2 hdone).net
  | error e => exact (hres.2 hdone).net

/-! ## On and off -/

/-- DHCP and IPv6 everywhere, and no routes. -/
def plainNet : Net := ⟨[['e']], fun _ => .dhcp, fun _ => true, fun _ => false⟩

theorem fits_plainNet : ∀ o, Fits plainNet o
  | .routeDelete _ _ _ => fun _ _ => rfl
  | .enableIpv6 _ => rfl
  | .setDns _ _ => .inr rfl
  | .probe | .createDevice | .configureInterface | .startStack | .routeAdd _ | .disableIpv6 _
  | .setTunDns _ | .listDns | .flushDns | .removeFirewall | .truncateUndo | .writeUndo _
  | .removeUndo | .setRuntime _ => trivial

/-- Runs from `plainNet` in which nothing fails. -/
theorem run_of_sure {es : List (Machine.Event Call)} {st st' : Machine.State World Op Fault Unit Call}
    (h : es.foldlM machine.step st = some st')
    (hes : ∀ e ∈ es, e ≠ .go false ∧ e ≠ .crash ∧ e ≠ .call .recover) :
    Run (SettledSteps plainNet) st es st' := by
  induction es generalizing st with
  | nil =>
      cases h
      exact .nil
  | cons e es ih =>
      rw [List.foldlM_cons] at h
      obtain ⟨st₁, hs, h⟩ := Option.bind_eq_some_iff.mp h
      obtain ⟨⟨hfail, hcrash, hrecover⟩, hes⟩ := List.forall_mem_cons.mp hes
      refine .cons ⟨hs, ?_⟩ (ih h hes)
      cases e with
      | call k => exact fun hk => absurd (congrArg Machine.Event.call hk) hrecover
      | go ok =>
          cases ok with
          | true => exact fun _ o _ => fits_plainNet o
          | false => exact absurd rfl hfail
      | ret => exact trivial
      | crash => exact absurd rfl hcrash

def someNode : Ipv4Addr := ⟨1, 2, 3, 4⟩

def someAdapter : PhysicalEndpoint := ⟨7, ⟨10, 0, 0, 1⟩, ['e']⟩

/-- A call has ended that leaves nothing to be undone, in a world as wanted. -/
def endsDone (p : World → Bool) (st : Machine.State World Op Fault Unit Call) : Bool :=
  match st.call with
  | some ⟨.start _ _, .done (.error _), _⟩ => p st.world
  | some ⟨.stop, .done _, _⟩ => p st.world
  | _ => false

theorem done_of {p : World → Bool} {st : Machine.State World Op Fault Unit Call}
    (h : endsDone p st = true) : (∃ k clean r, st.Ended k clean r ∧ k.Done r) ∧ p st.world = true := by
  simp only [endsDone] at h
  split at h
  · next hc => exact ⟨⟨_, _, _, hc, trivial⟩, h⟩
  · next hc => exact ⟨⟨_, _, _, hc, trivial⟩, h⟩
  · cases h

/-- A start, a switch to another node, and a stop. -/
def startSwitchStop : List (Machine.Event Call) :=
  .call (.start (.ok someNode) someAdapter) :: List.replicate 18 (.go true) ++
    [.ret, .call (.nodeChanged (some ⟨5, 6, 7, 8⟩))] ++ List.replicate 6 (.go true) ++
    [.ret, .call .stop] ++ List.replicate 10 (.go true)

theorem enhance_restored_stop : ∃ es st k clean r, Run (SettledSteps plainNet) (init plainNet) es st ∧
    st.Ended k clean r ∧ k.Done r ∧ st.world.net = plainNet := by
  have hend : (startSwitchStop.foldlM machine.step (init plainNet)).any (endsDone fun _ => true) = true := by
    decide
  obtain ⟨st, hst, hend⟩ := (Option.any_eq_true _ _).mp hend
  obtain ⟨⟨k, clean, r, hend, hdone⟩, -⟩ := done_of hend
  have hrun := run_of_sure hst (by decide)
  exact ⟨_, st, k, clean, r, hrun, hend, hdone, enhance_restored hrun hend hdone⟩

/-- What an undo consists of. -/
def Op.undoes : Op → Bool
  | .routeDelete _ _ _ => true
  | .enableIpv6 _ => true
  | .setDns _ .dhcp => true
  | .removeUndo => true
  | .listDns => true
  | _ => false

def Call.startsWith : Call → Op → Bool
  | .start _ _, o => !o.undoes
  | _, _ => false

/-- Only commands of a start fail, and none that undo anything. -/
def FailsInStart (st : Machine.State World Op Fault Unit Call) : Machine.Event Call → Prop
  | .go ok => ok = true ∨ st.next.all (fun act => act.1.startsWith act.2) = true
  | .crash => False
  | _ => True

instance (st : Machine.State World Op Fault Unit Call) (e : Machine.Event Call) :
    Decidable (FailsInStart st e) :=
  match e with
  | .go _ => inferInstanceAs (Decidable (_ ∨ _))
  | .crash => .isFalse id
  | .call _ => .isTrue trivial
  | .ret => .isTrue trivial

/-- The undo file cannot be written: the start fails, and the route stays. -/
theorem not_enhance_restored : ¬ ∀ (origin : Net) (es : List (Machine.Event Call))
    (st : Machine.State World Op Fault Unit Call) (k : Call) (clean : Bool) (r : Except Fault Unit),
    Run (fun s e t => machine.step s e = some t ∧ FailsInStart s e) (init origin) es st →
    st.Ended k clean r → k.Done r → st.world.net = origin := by
  intro h
  let es : List (Machine.Event Call) := .call (.start (.ok someNode) someAdapter) ::
    List.replicate 6 (.go true) ++ [.go false] ++ List.replicate 10 (.go true)
  have hend : (es.foldlM (fun st e => if FailsInStart st e then machine.step st e else none)
      (init plainNet)).any (endsDone fun w => w.net.routes (hostRoute someAdapter someNode)) = true := by
    decide
  obtain ⟨st, hst, hend⟩ := (Option.any_eq_true _ _).mp hend
  obtain ⟨⟨k, clean, r, hend, hdone⟩, hroute⟩ := done_of hend
  have hnet := h plainNet es st k clean r (run_of_guarded hst) hend hdone
  rw [hnet] at hroute
  cases hroute

end Enhance

end RustClash
