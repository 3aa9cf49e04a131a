import RustClash.Tun.RoutesInvariant

/-!
# Recovering from a crash of enhance mode

Whatever fails and wherever the program is cut off, `recover` restores the configuration if and
only if the undo file covers what has been changed.
-/

namespace RustClash

namespace Enhance

open Prog Str

variable {origin : Net} {w : World} {o : Op} {t : TunRoutes}

/-! ## What holds wherever the program is cut off -/

/-- There is no host route to the address. -/
def Unrouted (origin : Net) (node : Ipv4Addr) : Prop :=
  ∀ r, r.matches node hostMask none = true → origin.routes r = false

/-- An adapter with DHCP and IPv6, and a node without a host route. -/
structure Known (origin : Net) (name : Str) (node : Option Ipv4Addr) : Prop where
  dns : origin.dns name = .dhcp
  ipv6 : origin.ipv6 name = true
  node : ∀ ip ∈ node, Unrouted origin ip

structure TunRoutes.Known (origin : Net) (t : TunRoutes) : Prop where
  known : Enhance.Known origin t.physical.name t.node
  listed : t.physical.name ∈ origin.adapters
  ipv6 : ∀ name ∈ t.ipv6Disabled, origin.ipv6 name = true

/-- Nothing of before is lost for good: a DNS server that has been set is the fake one. -/
structure Loose (origin : Net) (w : World) : Prop where
  adapters : w.net.adapters = origin.adapters
  routes : ∀ r, origin.routes r = true → w.net.routes r = true
  ipv6 : ∀ name, w.net.ipv6 name = true → origin.ipv6 name = true
  dns : ∀ name, (origin.dns name).isFake = false → w.net.dns name = origin.dns name ∨
    origin.dns name = .dhcp ∧ name ∈ origin.adapters ∧ w.net.dns name = .static [FAKE_DNS]
  undo : ∀ u, w.undo = .saved u → Known origin u.ifname u.node
  runtime : ∀ t ∈ w.runtime, t.Known origin

/-- What an act may be for `Loose` to be kept. -/
def Harmless (origin : Net) : Op → Prop
  | .routeDelete dest mask gateway => ∀ r, r.matches dest mask gateway = true → origin.routes r = false
  | .enableIpv6 name => origin.ipv6 name = true
  | .setDns name .dhcp => origin.dns name = .dhcp ∨ (origin.dns name).isFake = true
  | .setDns name (.static servers) => origin.dns name = .dhcp ∧ name ∈ origin.adapters ∧ servers = [FAKE_DNS]
  | .writeUndo u => Known origin u.ifname u.node
  | .setRuntime rt => ∀ t ∈ rt, t.Known origin
  | _ => True

theorem Loose.effect (ho : Harmless origin o) (w : World) (h : Loose origin w) :
    Loose origin (effect o w) := by
  cases o with
  | routeAdd r =>
      refine ⟨h.adapters, fun r' hr => ?_, h.ipv6, h.dns, h.undo, h.runtime⟩
      simp [Enhance.effect, Net.effect, h.routes r' hr]
  | routeDelete dest mask gateway =>
      refine ⟨h.adapters, fun r hr => ?_, h.ipv6, h.dns, h.undo, h.runtime⟩
      have hother : r.matches dest mask gateway = false := by
        by_contra hmatch
        rw [Bool.not_eq_false] at hmatch
        exact absurd hr (by simp [ho r hmatch])
      simp [Enhance.effect, Net.effect, h.routes r hr, hother]
  | disableIpv6 name =>
      refine ⟨h.adapters, h.routes, fun name' hon => ?_, h.dns, h.undo, h.runtime⟩
      by_cases hname : name' = name
      · simp [Enhance.effect, Net.effect, hname] at hon
      · exact h.ipv6 name' (by simpa [Enhance.effect, Net.effect, hname] using hon)
  | enableIpv6 name =>
      refine ⟨h.adapters, h.routes, fun name' hon => ?_, h.dns, h.undo, h.runtime⟩
      by_cases hname : name' = name
      · exact hname ▸ ho
      · exact h.ipv6 name' (by simpa [Enhance.effect, Net.effect, hname] using hon)
  | setDns name d =>
      refine ⟨h.adapters, h.routes, h.ipv6, fun name' hfake => ?_, h.undo, h.runtime⟩
      by_cases hname : name' = name
      · subst hname
        cases d with
        | dhcp =>
            have horigin : origin.dns name' = .dhcp := ho.resolve_right (by simp [hfake])
            exact .inl (by simp [Enhance.effect, Net.effect, horigin])
        | static servers =>
            obtain ⟨hdhcp, hlisted, rfl⟩ := ho
            exact .inr ⟨hdhcp, hlisted, by simp [Enhance.effect, Net.effect]⟩
      · have hsame : (Enhance.effect (.setDns name d) w).net.dns name' = w.net.dns name' := by
          simp [Enhance.effect, Net.effect, hname]
        rw [hsame]
        exact h.dns name' hfake
  | writeUndo u =>
      refine ⟨h.adapters, h.routes, h.ipv6, h.dns, ?_, h.runtime⟩
      rintro _ ⟨⟩
      exact ho
  | setRuntime rt => exact ⟨h.adapters, h.routes, h.ipv6, h.dns, h.undo, ho⟩
  | truncateUndo => exact ⟨h.adapters, h.routes, h.ipv6, h.dns, by simp [Enhance.effect], h.runtime⟩
  | removeUndo => exact ⟨h.adapters, h.routes, h.ipv6, h.dns, by simp [Enhance.effect], h.runtime⟩
  | _ => exact ⟨h.adapters, h.routes, h.ipv6, h.dns, h.undo, h.runtime⟩

/-! ## Every call keeps it -/

theorem keeps_act (ho : Harmless origin o) :
    (perform o : Action Unit).Keeps effect (Loose origin) fun _ => True := keeps_perform (Loose.effect ho)

theorem keeps_run (ho : Harmless origin o) : (run o).Keeps effect (Loose origin) fun _ => True :=
  keeps_must (Loose.effect ho)

theorem keeps_getUndo : (get (·.undo) : Action UndoFile).Keeps effect (Loose origin) fun undo =>
    ∀ u, undo = .saved u → Known origin u.ifname u.node := keeps_get fun _ h => h.undo

theorem keeps_getRuntime : (get (·.runtime) : Action (Option TunRoutes)).Keeps effect (Loose origin)
    fun rt => ∀ t ∈ rt, t.Known origin := keeps_get fun _ h => h.runtime

theorem keeps_writeUndo (ht : t.Known origin) :
    (writeUndo t).Keeps effect (Loose origin) fun _ => True :=
  Keeps.bind (keeps_run trivial) fun _ _ => keeps_run ht.known

theorem harmless_delete {node : Ipv4Addr} (hnode : Unrouted origin node) (gateway : Option Ipv4Addr) :
    Harmless origin (.routeDelete node hostMask gateway) :=
  fun r hr => hnode r (matches_none hr)

theorem keeps_addHostRoute {node : Ipv4Addr} (hnode : Unrouted origin node) (physical : PhysicalEndpoint) :
    (addHostRoute physical node).Keeps effect (Loose origin) fun _ => True := by
  refine Keeps.bind (keeps_attempt (Loose.effect trivial)) fun ok _ => ?_
  cases ok with
  | true => exact keeps_pure trivial
  | false => exact Keeps.bind (keeps_act (harmless_delete hnode none)) fun _ _ => keeps_run trivial

theorem keeps_deleteOld (ht : t.Known origin) (node : Ipv4Addr) :
    (deleteOld t node).Keeps effect (Loose origin) fun _ => True := by
  rw [deleteOld]
  split
  · next old hold =>
      split
      · exact keeps_act (harmless_delete (ht.known.node old hold) _)
      · exact keeps_pure trivial
  · exact keeps_pure trivial

theorem keeps_setNodeHostRoute (ht : t.Known origin) {node : Ipv4Addr} (hnode : Unrouted origin node) :
    (setNodeHostRoute node t).Keeps effect (Loose origin) fun p => p.1.Known origin := by
  have ht' : TunRoutes.Known origin { t with node := some node } := by
    refine ⟨⟨ht.known.dns, ht.known.ipv6, ?_⟩, ht.listed, ht.ipv6⟩
    rintro _ ⟨⟩
    exact hnode
  refine (keeps_addHostRoute hnode t.physical).result.bind fun r _ => ?_
  cases r with
  | error e => exact keeps_pure ht
  | ok a =>
      refine Keeps.bind (keeps_deleteOld ht node) fun _ _ => ?_
      exact (keeps_writeUndo ht').result.bind fun _ _ => keeps_pure ht'

theorem keeps_disableIpv6 (ht : t.Known origin) :
    (disableIpv6 t).Keeps effect (Loose origin) fun t' => t'.Known origin := by
  refine Keeps.bind (keeps_attempt (Loose.effect trivial)) fun ok _ => ?_
  have ht' : TunRoutes.Known origin (if ok then { t with ipv6Disabled := some t.physical.name } else t) := by
    cases ok with
    | true =>
        refine ⟨ht.known, ht.listed, ?_⟩
        rintro _ ⟨⟩
        exact ht.known.ipv6
    | false => exact ht
  exact (keeps_writeUndo ht').ignored.bind fun _ _ => keeps_pure ht'

theorem keeps_installSplitDefault : installSplitDefault.Keeps effect (Loose origin) fun _ => True :=
  Keeps.bind (keeps_run trivial) fun _ _ => keeps_run trivial

theorem keeps_configureDnsHijack (ht : t.Known origin) :
    (configureDnsHijack t).Keeps effect (Loose origin) fun _ => True :=
  Keeps.bind (keeps_run trivial) fun _ _ => Keeps.bind (keeps_run ⟨ht.known.dns, ht.listed, rfl⟩) fun _ _ =>
    keeps_act trivial

/-- There are no routes to the halves. -/
def Unsplit (origin : Net) : Prop := ∀ r : Route, r.IsSplit → origin.routes r = false

theorem keeps_deleteSplit (hsplit : Unsplit origin) :
    deleteSplit.Keeps effect (Loose origin) fun _ => True :=
  Keeps.bind (keeps_act fun r hr => hsplit r (.inl hr)) fun _ _ => keeps_act fun r hr => hsplit r (.inr hr)

theorem keeps_uninstall (hsplit : Unsplit origin) (ht : t.Known origin) :
    (uninstall t).Keeps effect (Loose origin) fun _ => True := by
  refine Keeps.bind (keeps_deleteSplit hsplit) fun _ _ => ?_
  have hnode : (uninstallNode t).Keeps effect (Loose origin) fun _ => True := by
    rw [uninstallNode]
    split
    · next node hnode => exact keeps_act (harmless_delete (ht.known.node node hnode) _)
    · exact keeps_pure trivial
  refine hnode.bind fun _ _ => ?_
  refine Keeps.bind (keeps_act trivial) fun _ _ => ?_
  refine Keeps.bind (keeps_act (.inl ht.known.dns)) fun _ _ => ?_
  have hipv6 : (uninstallIpv6 t).Keeps effect (Loose origin) fun _ => True := by
    rw [uninstallIpv6]
    split
    · next name hname => exact keeps_act (ht.ipv6 name hname)
    · exact keeps_pure trivial
  exact hipv6.bind fun _ _ => keeps_act trivial

theorem keeps_setDhcp {names : List Str}
    (hnames : ∀ name ∈ names, origin.dns name = .dhcp ∨ (origin.dns name).isFake = true) :
    (setDhcp names).Keeps effect (Loose origin) fun _ => True := by
  induction names with
  | nil => exact keeps_pure trivial
  | cons name names ih =>
      obtain ⟨hname, hnames⟩ := List.forall_mem_cons.mp hnames
      exact Keeps.bind (keeps_act hname) fun _ _ => ih hnames

/-- An adapter with a fake server had DHCP, or a fake server already. -/
theorem Loose.fakeDnsNames (h : Loose origin w) :
    ∀ name ∈ w.net.fakeDnsNames, origin.dns name = .dhcp ∨ (origin.dns name).isFake = true := by
  intro name hname
  obtain ⟨-, hfake⟩ := List.mem_filter.mp hname
  by_cases horigin : (origin.dns name).isFake = true
  · exact .inr horigin
  · rcases h.dns name (by simpa using horigin) with hsame | ⟨hdhcp, -⟩
    · exact .inr (hsame ▸ hfake)
    · exact .inl hdhcp

theorem keeps_restoreFakeDnsNics : restoreFakeDnsNics.Keeps effect (Loose origin) fun _ => True := by
  refine Keeps.bind (keeps_attempt (Loose.effect trivial)) fun ok _ => ?_
  cases ok with
  | true => exact Keeps.bind (keeps_get fun _ h => h.fakeDnsNames) fun _ hnames => keeps_setDhcp hnames
  | false => exact keeps_pure trivial

theorem keeps_recoverUndo {u : Undo} (hu : Known origin u.ifname u.node) :
    (recoverUndo u).Keeps effect (Loose origin) fun _ => True := by
  refine Keeps.bind (keeps_act (.inl hu.dns)) fun _ _ => ?_
  have hipv6 : (recoverIpv6 u).Keeps effect (Loose origin) fun _ => True := by
    rw [recoverIpv6]
    split
    · exact keeps_act hu.ipv6
    · exact keeps_pure trivial
  refine hipv6.bind fun _ _ => ?_
  rw [recoverNode]
  split
  · next node hnode => exact keeps_act (harmless_delete (hu.node node hnode) _)
  · exact keeps_pure trivial

theorem keeps_recover (hsplit : Unsplit origin) : recover.Keeps effect (Loose origin) fun _ => True := by
  refine keeps_getUndo.bind fun undo hundo => ?_
  have hfile : (recoverFile undo).Keeps effect (Loose origin) fun _ => True := by
    cases undo with
    | absent => exact keeps_pure trivial
    | torn => exact keeps_act trivial
    | saved u => exact Keeps.bind (keeps_recoverUndo (hundo u rfl)) fun _ _ => keeps_act trivial
  refine hfile.bind fun _ _ => Keeps.bind (keeps_deleteSplit hsplit) fun _ _ => ?_
  refine Keeps.bind (keeps_act trivial) fun _ _ => keeps_restoreFakeDnsNics.bind fun _ _ => ?_
  exact Keeps.bind (keeps_act trivial) fun _ _ => keeps_act trivial

theorem keeps_stop (hsplit : Unsplit origin) : stop.Keeps effect (Loose origin) fun _ => True := by
  refine keeps_getRuntime.bind fun rt hrt => ?_
  cases rt with
  | some t =>
      refine Keeps.bind (keeps_act (by simp [Harmless])) fun _ _ => ?_
      exact Keeps.bind (keeps_uninstall hsplit (hrt t rfl)) fun _ _ => keeps_act trivial
  | none => exact keeps_act trivial

theorem keeps_install {physical : PhysicalEndpoint} {node : Ipv4Addr}
    (hknown : Known origin physical.name (some node)) (hlisted : physical.name ∈ origin.adapters) :
    (install physical node).Keeps effect (Loose origin) fun _ => True := by
  have ht : TunRoutes.Known origin ⟨physical, none, none⟩ :=
    ⟨⟨hknown.dns, hknown.ipv6, by simp⟩, hlisted, by simp⟩
  refine Keeps.bind (keeps_run trivial) fun _ _ => Keeps.bind (keeps_run trivial) fun _ _ => ?_
  refine Keeps.bind (keeps_setNodeHostRoute ht (hknown.node node rfl)) fun p hp => ?_
  obtain ⟨t, r⟩ := p
  cases r with
  | error e => exact keeps_fail
  | ok a =>
      refine Keeps.bind (keeps_disableIpv6 hp) fun t ht => Keeps.bind (keeps_run trivial) fun _ _ => ?_
      refine keeps_installSplitDefault.bind fun _ _ => Keeps.bind (keeps_configureDnsHijack ht) fun _ _ => ?_
      refine keeps_act ?_
      rintro _ ⟨⟩
      exact ht

/-- The adapter has DHCP and IPv6, and there is no host route to the node. -/
def Fresh (origin : Net) : Call → Prop
  | .start (.ok node) physical => Known origin physical.name (some node)
  | .nodeChanged (some node) => Unrouted origin node
  | _ => True

theorem keeps_start (hsplit : Unsplit origin) {node : Except Refusal Ipv4Addr}
    {physical : PhysicalEndpoint} (hfresh : Fresh origin (.start node physical)) :
    (start node physical).Keeps effect (Loose origin) fun _ => True := by
  have hinner : (startInner node physical).Keeps effect (Loose origin) fun _ => True := by
    cases node with
    | error r => exact keeps_fail
    | ok node =>
        refine Keeps.bind (keeps_run trivial) fun _ _ => ?_
        refine Keeps.bind (keeps_get (V := fun listed => listed = true → physical.name ∈ origin.adapters) ?_)
          fun listed hlisted => ?_
        · intro w h hlisted
          exact h.adapters ▸ of_decide_eq_true hlisted
        · split
          · next hon => exact keeps_install hfresh (hlisted hon)
          · exact keeps_fail
  refine Keeps.bind (keeps_get (V := fun _ => True) fun _ _ => trivial) fun rt _ => ?_
  split
  · exact keeps_pure trivial
  · refine hinner.result.bind fun r _ => ?_
    cases r with
    | ok a => exact keeps_pure trivial
    | error e =>
        exact Keeps.bind (keeps_stop hsplit) fun _ _ => Keeps.bind (keeps_recover hsplit) fun _ _ => keeps_fail

theorem keeps_onNodeChanged {node : Option Ipv4Addr} (hfresh : Fresh origin (.nodeChanged node)) :
    (onNodeChanged node).Keeps effect (Loose origin) fun _ => True := by
  refine keeps_getRuntime.bind fun rt hrt => ?_
  split
  · next node t =>
      refine Keeps.bind (keeps_setNodeHostRoute (hrt t rfl) hfresh) fun p hp => ?_
      refine Keeps.bind (keeps_act ?_) fun _ _ => keeps_pure trivial
      rintro _ ⟨⟩
      exact hp
  · exact keeps_pure trivial
  · exact keeps_pure trivial

theorem keeps_body (hsplit : Unsplit origin) (k : Call) (hfresh : Fresh origin k) :
    (machine.body k).Keeps effect (Loose origin) fun _ => True := by
  cases k with
  | start node physical => exact keeps_start hsplit hfresh
  | nodeChanged node => exact Keeps.bind (keeps_onNodeChanged hfresh) fun _ _ => keeps_pure trivial
  | stop => exact keeps_stop hsplit
  | recover => exact keeps_recover hsplit

/-- Steps, whatever fails, with calls that are fresh. -/
def FreshSteps (origin : Net) (st : Machine.State World Op Fault Unit Call) (e : Machine.Event Call)
    (st' : Machine.State World Op Fault Unit Call) : Prop :=
  machine.step st e = some st' ∧ ∀ k, e = .call k → Fresh origin k

theorem loose_run (hsplit : Unsplit origin) {es : List (Machine.Event Call)}
    {st : Machine.State World Op Fault Unit Call} (h : Run (FreshSteps origin) (init origin) es st) :
    Loose origin st.world := by
  have hinit : Loose origin ⟨origin, .absent, none⟩ :=
    ⟨rfl, fun _ h => h, fun _ h => h, fun _ _ => .inl rfl, by simp, by simp⟩
  exact Machine.kept_run (keeps_body hsplit)
    (fun _ h => ⟨h.adapters, h.routes, h.ipv6, h.dns, h.undo, by simp [machine]⟩) h hinit

/-! ## What `recover` makes of the network -/

def Undo.recovered (u : Undo) (n : Net) : Net where
  adapters := n.adapters
  dns := Function.update n.dns u.ifname .dhcp
  ipv6 := if u.ipv6 then Function.update n.ipv6 u.ifname true else n.ipv6
  routes r := n.routes r && !u.node.any fun node => r.matches node hostMask none

def UndoFile.recovered : UndoFile → Net → Net
  | .saved u, n => u.recovered n
  | _, n => n

def Net.withoutFake (n : Net) : Net :=
  { n with dns := fun name => if n.fakeDnsNames.contains name then .dhcp else n.dns name }

def Net.withoutSplit (n : Net) : Net :=
  Net.effect (.routeDelete upperHalf halfMask none) (Net.effect (.routeDelete lowerHalf halfMask none) n)

theorem sure_recoverUndo (u : Undo) (w : World) :
    (recoverUndo u).sure effect w = (.ok (), { w with net := u.recovered w.net }) := by
  obtain ⟨ifname, node, ipv6⟩ := u
  have hnone : w.net.routes = fun r => w.net.routes r && !false := by simp
  cases node <;> cases ipv6
  · exact congrArg (fun rs => (Except.ok (), World.mk ⟨_, _, _, rs⟩ w.undo w.runtime)) hnone
  · exact congrArg (fun rs => (Except.ok (), World.mk ⟨_, _, _, rs⟩ w.undo w.runtime)) hnone
  · rfl
  · rfl

theorem sure_recoverFile (w : World) : (recoverFile w.undo).sure effect w =
    (.ok (), { w with net := w.undo.recovered w.net, undo := .absent }) := by
  obtain ⟨net, undo, runtime⟩ := w
  cases undo with
  | absent => rfl
  | torn => rfl
  | saved u =>
      rw [recoverFile, sure_bind (sure_recoverUndo u _)]
      rfl

theorem sure_setDhcp (names : List Str) (w : World) : (setDhcp names).sure effect w =
    (.ok (), { w with net := { w.net with
      dns := fun name => if names.contains name then .dhcp else w.net.dns name } }) := by
  induction names generalizing w with
  | nil => simp [setDhcp]
  | cons name names ih =>
      rw [setDhcp, sure_bind sure_perform, ih]
      refine congrArg (fun dns => (Except.ok (), World.mk ⟨_, dns, _, _⟩ _ _)) (funext fun name' => ?_)
      by_cases hname : name' = name
      · simp [effect, Net.effect, hname]
      · simp [effect, Net.effect, hname]

theorem sure_recover (w : World) : recover.sure effect w =
    (.ok (), ⟨(w.undo.recovered w.net).withoutSplit.withoutFake, .absent, w.runtime⟩) := by
  rw [recover, sure_bind sure_get, sure_bind (sure_recoverFile w), sure_bind (t := ⟨_, _, _⟩) rfl,
    sure_bind sure_perform, sure_bind (t := ⟨(w.undo.recovered w.net).withoutSplit.withoutFake, .absent,
      w.runtime⟩)]
  · rfl
  · rw [restoreFakeDnsNics, sure_bind sure_attempt, if_pos rfl, sure_bind sure_get, sure_setDhcp]
    rfl

theorem recovered_routes (f : UndoFile) (n : Net) (r : Route) :
    (f.recovered n).withoutSplit.withoutFake.routes r = true ↔
      n.routes r = true ∧ ¬ f.diff.routes r := by
  have hsplit : (f.recovered n).withoutSplit.withoutFake.routes r = true ↔
      (f.recovered n).routes r = true ∧ ¬ r.IsSplit := by
    simp [Net.withoutFake, Net.withoutSplit, Net.effect, Route.IsSplit, and_assoc]
  rw [hsplit]
  cases f with
  | absent => exact Iff.rfl
  | torn => exact Iff.rfl
  | saved u =>
      have hnode : (∃ node ∈ u.node, r.matches node hostMask none = true) ↔
          u.node.any (fun node => r.matches node hostMask none) = true := by
        cases u.node <;> simp
      show (n.routes r && !_) = true ∧ _ ↔ n.routes r = true ∧ ¬ (r.IsSplit ∨ _)
      rw [hnode, Bool.and_eq_true, Bool.not_eq_true', not_or, and_assoc, Bool.not_eq_true]
      exact and_congr_right fun _ => And.comm

theorem recovered_ipv6 (f : UndoFile) (n : Net) (name : Str) :
    (f.recovered n).withoutSplit.withoutFake.ipv6 name = true ↔
      n.ipv6 name = true ∨ f.diff.ipv6 name := by
  show (f.recovered n).ipv6 name = true ↔ _
  cases f with
  | absent => simp [UndoFile.recovered, UndoFile.diff]
  | torn => simp [UndoFile.recovered, UndoFile.diff]
  | saved u =>
      simp only [UndoFile.recovered, Undo.recovered, UndoFile.diff]
      split
      · next hon =>
          by_cases hname : name = u.ifname
          · simp [hname, hon]
          · simp [hname]
      · next hoff => simp [hoff]

/-! ## When the configuration comes back -/

/-- Every route that is new leads to a half or to the node of the undo file, and IPv6 is off only
where the file has it. -/
structure Covered (origin : Net) (w : World) : Prop where
  routes : ∀ r, w.net.routes r = true → origin.routes r = true ∨ w.undo.diff.routes r
  ipv6 : ∀ name, origin.ipv6 name = true → w.net.ipv6 name = true ∨ w.undo.diff.ipv6 name

/-- The adapters that had a fake server may have lost it. -/
structure Restored (origin n : Net) : Prop where
  routes : n.routes = origin.routes
  ipv6 : n.ipv6 = origin.ipv6
  dns : ∀ name, (origin.dns name).isFake = false → n.dns name = origin.dns name

theorem Loose.diff_routes (h : Loose origin w) (hsplit : Unsplit origin) {r : Route}
    (hr : w.undo.diff.routes r) : origin.routes r = false := by
  cases hundo : w.undo with
  | absent =>
      rw [hundo] at hr
      exact hsplit r hr
  | torn =>
      rw [hundo] at hr
      exact hsplit r hr
  | saved u =>
      rw [hundo] at hr
      rcases hr with hr | ⟨node, hnode, hmatch⟩
      · exact hsplit r hr
      · exact (h.undo u hundo).node node hnode r hmatch

theorem Loose.diff_ipv6 (h : Loose origin w) {name : Str} (hname : w.undo.diff.ipv6 name) :
    origin.ipv6 name = true := by
  cases hundo : w.undo with
  | saved u =>
      rw [hundo] at hname
      exact hname.2 ▸ (h.undo u hundo).ipv6
  | _ =>
      rw [hundo] at hname
      exact hname.elim

/-- A DNS server that has been set is found, whether the undo file is there or not. -/
theorem Loose.recovered_dns (h : Loose origin w) {name : Str} (hfake : (origin.dns name).isFake = false) :
    (w.undo.recovered w.net).withoutSplit.withoutFake.dns name = origin.dns name := by
  have hfile : (w.undo.recovered w.net).dns name = .dhcp ∧ origin.dns name = .dhcp ∨
      (w.undo.recovered w.net).dns name = w.net.dns name := by
    cases hundo : w.undo with
    | saved u =>
        by_cases hname : name = u.ifname
        · exact .inl ⟨by simp [UndoFile.recovered, Undo.recovered, hname], hname ▸ (h.undo u hundo).dns⟩
        · exact .inr (by simp [UndoFile.recovered, Undo.recovered, hname])
    | _ => exact .inr rfl
  have hadapters : (w.undo.recovered w.net).adapters = origin.adapters := by
    rw [← h.adapters]
    cases w.undo <;> rfl
  show (if (w.undo.recovered w.net).withoutSplit.fakeDnsNames.contains name then Dns.dhcp
    else (w.undo.recovered w.net).dns name) = _
  split
  · next hmem =>
      obtain ⟨-, hmem⟩ := List.mem_filter.mp (List.contains_iff_mem.mp hmem)
      have hmem : ((w.undo.recovered w.net).dns name).isFake = true := hmem
      rcases hfile with ⟨-, hdhcp⟩ | hsame
      · exact hdhcp.symm
      · rcases h.dns name hfake with horigin | ⟨hdhcp, -⟩
        · rw [hsame, horigin, hfake] at hmem
          cases hmem
        · exact hdhcp.symm
  · next hmem =>
      rcases hfile with ⟨hset, hdhcp⟩ | hsame
      · rw [hset, hdhcp]
      · rw [hsame]
        refine (h.dns name hfake).resolve_right ?_
        rintro ⟨-, hlisted, hset⟩
        refine hmem (List.contains_iff_mem.mpr (List.mem_filter.mpr ⟨hadapters ▸ hlisted, ?_⟩))
        show ((w.undo.recovered w.net).dns name).isFake = true
        rw [hsame, hset]
        decide

/-- The program is cut off, and `recover` is called at the next start. -/
def crashRecover (n : Nat) : List (Machine.Event Call) :=
  .crash :: .call .recover :: List.replicate n (.go true)

theorem world_crashRecover {st st' : Machine.State World Op Fault Unit Call} {n : Nat} {clean : Bool}
    {r : Except Fault Unit} (h : (crashRecover n).foldlM machine.step st = some st')
    (hend : st'.Ended .recover clean r) :
    st'.world.net = (st.world.undo.recovered st.world.net).withoutSplit.withoutFake := by
  have hsure : recover.sure effect { st.world with runtime := none } = (r, st'.world) :=
    Machine.sure_of_ended (M := machine) h hend
  have hworld : (recover.sure effect { st.world with runtime := none }).2 = st'.world :=
    congrArg Prod.snd hsure
  rw [← hworld, sure_recover]

theorem recovers_iff (hsplit : Unsplit origin) {es : List (Machine.Event Call)}
    {st st' : Machine.State World Op Fault Unit Call} (h : Run (FreshSteps origin) (init origin) es st)
    {n : Nat} (hrec : (crashRecover n).foldlM machine.step st = some st') {clean : Bool}
    {r : Except Fault Unit} (hend : st'.Ended .recover clean r) :
    Restored origin st'.world.net ↔ Covered origin st.world := by
  have hloose := loose_run hsplit h
  rw [world_crashRecover hrec hend]
  constructor
  · rintro ⟨hroutes, hipv6, -⟩
    refine ⟨fun r hr => ?_, fun name hon => ?_⟩
    · by_cases hfile : st.world.undo.diff.routes r
      · exact .inr hfile
      · exact .inl (hroutes ▸ (recovered_routes _ _ r).mpr ⟨hr, hfile⟩)
    · exact (recovered_ipv6 _ _ name).mp (hipv6.symm ▸ hon)
  · rintro ⟨hroutes, hipv6⟩
    refine ⟨funext fun r => Bool.eq_iff_iff.mpr ?_, funext fun name => Bool.eq_iff_iff.mpr ?_,
      fun name hfake => hloose.recovered_dns hfake⟩
    · rw [recovered_routes]
      constructor
      · rintro ⟨hr, hfile⟩
        exact (hroutes r hr).resolve_right hfile
      · intro hr
        refine ⟨hloose.routes r hr, fun hfile => ?_⟩
        rw [hloose.diff_routes hsplit hfile] at hr
        cases hr
    · rw [recovered_ipv6]
      exact ⟨fun hon => hon.elim (hloose.ipv6 name) hloose.diff_ipv6, hipv6 name⟩

/-! ## Cut off at two places -/

theorem fresh_plainNet : ∀ k, Fresh plainNet k
  | .start (.ok _) _ => ⟨rfl, rfl, fun _ _ _ _ => rfl⟩
  | .start (.error _) _ => trivial
  | .nodeChanged (some _) => fun _ _ => rfl
  | .nodeChanged none => trivial
  | .stop => trivial
  | .recover => trivial

theorem unsplit_plainNet : Unsplit plainNet := fun _ _ => rfl

/-- A `recover` has ended, in a world as wanted. -/
def endsRecover (p : World → Bool) (st : Machine.State World Op Fault Unit Call) : Bool :=
  match st.call with
  | some ⟨.recover, .done _, _⟩ => p st.world
  | _ => false

theorem recover_of {p : World → Bool} {st : Machine.State World Op Fault Unit Call}
    (h : endsRecover p st = true) : (∃ clean r, st.Ended .recover clean r) ∧ p st.world = true := by
  simp only [endsRecover] at h
  split at h
  · next hc => exact ⟨⟨_, _, hc⟩, h⟩
  · cases h

/-- A start that is cut off after some steps. -/
def startCut (n : Nat) : List (Machine.Event Call) :=
  .call (.start (.ok someNode) someAdapter) :: List.replicate n (.go true)

/-- A start that is cut off, and what `recover` leaves. -/
theorem run_startCut {n m : Nat} {p : World → Bool}
    (h : ((startCut n).foldlM machine.step (init plainNet)).any (fun st =>
      ((crashRecover m).foldlM machine.step st).any (endsRecover p)) = true) :
    ∃ st st' clean r, Run (FreshSteps plainNet) (init plainNet) (startCut n) st ∧
      (crashRecover m).foldlM machine.step st = some st' ∧ st'.Ended .recover clean r ∧
        p st'.world = true := by
  obtain ⟨st, hst, h⟩ := (Option.any_eq_true _ _).mp h
  obtain ⟨st', hst', h⟩ := (Option.any_eq_true _ _).mp h
  obtain ⟨⟨clean, r, hend⟩, hp⟩ := recover_of h
  exact ⟨st, st', clean, r, (run_of_foldlM hst).mono fun hs => ⟨hs, fun k _ => fresh_plainNet k⟩,
    hst', hend, hp⟩

/-- Cut off behind the first write of the undo file. -/
theorem recovers_iff_written : ∃ st st' clean r,
    Run (FreshSteps plainNet) (init plainNet) (startCut 8) st ∧
    (crashRecover 11).foldlM machine.step st = some st' ∧ st'.Ended .recover clean r ∧
    (Restored plainNet st'.world.net ↔ Covered plainNet st.world) := by
  obtain ⟨st, st', clean, r, hrun, hrec, hend, -⟩ :=
    run_startCut (n := 8) (m := 11) (p := fun _ => true) (by decide)
  exact ⟨st, st', clean, r, hrun, hrec, hend, recovers_iff unsplit_plainNet hrun hrec hend⟩

/-- Cut off in front of it: the route to the node stays. -/
theorem not_recovers : ¬ ∀ (origin : Net) (es : List (Machine.Event Call))
    (st st' : Machine.State World Op Fault Unit Call) (n : Nat) (clean : Bool) (r : Except Fault Unit),
    Unsplit origin → Run (FreshSteps origin) (init origin) es st →
    (crashRecover n).foldlM machine.step st = some st' → st'.Ended .recover clean r →
      Restored origin st'.world.net := by
  intro h
  obtain ⟨st, st', clean, r, hrun, hrec, hend, hroute⟩ := run_startCut (n := 6) (m := 8)
    (p := fun w => w.net.routes (hostRoute someAdapter someNode)) (by decide)
  have hroutes := (h _ _ _ _ _ _ _ unsplit_plainNet hrun hrec hend).routes
  rw [hroutes] at hroute
  cases hroute

end Enhance

end RustClash
