import RustClash.Sysproxy.Windows

/-!
# Settled runs take the system proxy back

`Full` says that the settings are applied and those of before are saved.  Between two calls
either it holds, or the settings are those of before, or a call was cut off when they were
ours already.  The thread writes only while it holds, which changes nothing.
-/

namespace RustClash

namespace Sysproxy

namespace Windows

open Prog

variable {origin : Registry} {w w' : World} {st st' : State}

/-! ## The settings that are applied -/

def applied : Registry := ⟨some 1, some inboundServer, some bypass, some 0, none⟩

theorem ours_applied : applied.Ours := ⟨rfl, Str.contains_iff.mpr (List.infix_refl _)⟩

/-- The values that are not saved are as `set` leaves them. -/
def Registry.Tidy (r : Registry) : Prop := r.autoDetect = some 0 ∧ r.autoConfigUrl = none

/-- The settings are applied, and those of before are saved. -/
structure Full (origin : Registry) (w : World) : Prop where
  reg : w.reg = applied
  undo : w.undo = .saved origin.undo
  applied : w.applied = true

/-- What holds between two calls. -/
inductive Idle (origin : Registry) (w : World) : Prop where
  | before : w.reg = origin → w.applied = false → w.keepalive = false → Idle origin w
  | cut : w.reg.Ours → w.reg.Tidy → w.undo = .saved origin.undo → w.applied = false →
      w.keepalive = false → Idle origin w
  | full : Full origin w → Idle origin w

/-- The settings are those of before, and nothing will change them. -/
structure Before (origin : Registry) (w : World) : Prop where
  reg : w.reg = origin
  applied : w.applied = false
  keepalive : w.keepalive = false

/-! ## What calls keep to -/

def allowed (origin : Registry) (k : Call) (w : World) (o : Op) (ok : Bool) : Prop :=
  ok = false → o.fallible = true ∧ (w.reg = origin ∨ k = .on ∧ w.reg.Ours)

/-- The thread is told to write only while everything is saved, and nothing that is saved is
lost while it may be writing. -/
def onGuarantee (origin : Registry) (w : World) (o : Op) (ok : Bool) : Prop :=
  (after effect o ok w).keepalive = true → Full origin (after effect o ok w)

/-- The thread is told to stop before anything else, and what is taken back stays so. -/
def offGuarantee (origin : Registry) (w : World) (o : Op) (ok : Bool) : Prop :=
  (o = .setKeepalive false ∨ w.keepalive = false ∧ o ≠ .setKeepalive true) ∧
    (w.reg = origin → (after effect o ok w).reg = origin)

def contract (origin : Registry) (k : Call) : Contract World Op where
  allowed := allowed origin k
  guarantee := if k = .on then onGuarantee origin else offGuarantee origin

/-! ## Putting the settings in place -/

/-- The acts of `apply_on`. -/
def Applying (o : Op) : Prop := o = .createKey ∨ o = .setEnable 1 ∨ o = .setServer inboundServer ∨
  o = .setOverride bypass ∨ o = .clearAutoDetect ∨ o = .deleteAutoConfig ∨ o = .notify

theorem acts_applyOn : applyOn.Acts Applying := by
  have hvalues : (setValues 1 inboundServer bypass).Acts Applying :=
    .bind (by simp [Applying]) fun _ => .bind (by simp [Applying]) fun _ =>
      .bind (by simp [Applying]) fun _ => by simp [Applying]
  exact hvalues.bind fun _ => .bind (by simp [Applying]) fun _ => .bind (by simp [Applying])
    fun _ => by simp [Applying]

theorem effect_applying {o : Op} (ho : Applying o) (h : w.reg = applied) : effect o w = w := by
  obtain ⟨reg, undo, a, k, s⟩ := w
  cases h
  rcases ho with rfl | rfl | rfl | rfl | rfl | rfl | rfl <;> rfl

theorem after_applying {o : Op} (ho : Applying o) (h : w.reg = applied) (ok : Bool) :
    after effect o ok w = w := by
  cases ok with
  | false => rfl
  | true => exact effect_applying ho h

/-- The settings are applied again. -/
theorem safe_applyOn_again (h : Full origin w) :
    applyOn.Safe effect (contract origin .on) (fun _ w' => w' = w) (fun _ w' => w' = w) w := by
  refine safe_of_acts acts_applyOn fun o ok ho => ?_
  have hw := after_applying ho h.reg ok
  refine ⟨?_, hw⟩
  show onGuarantee origin w o ok
  intro _
  rw [hw]
  exact h

/-- An act that leaves the thread asleep keeps what is promised of `set(true)`. -/
theorem guarantee_of_asleep {o : Op} {ok : Bool} (h : (after effect o ok w).keepalive = false) :
    (contract origin .on).guarantee w o ok := by
  show onGuarantee origin w o ok
  intro hkeep
  rw [h] at hkeep
  cases hkeep

/-- Where an act of `set(true)` fails. -/
theorem failed {o : Op} (h : (contract origin .on).allowed w o false) :
    w.reg = origin ∨ w.reg.Ours :=
  (h rfl).2.imp_right (·.2)

theorem safe_applyOn (hplain : origin.Plain) (hreg : w.reg = origin) (hkeep : w.keepalive = false) :
    applyOn.Safe effect (contract origin .on) (fun _ w' => w' = { w with reg := applied })
      (fun _ w' => ∃ reg, w' = { w with reg } ∧ reg.Tidy ∧ (reg = origin ∨ reg.Ours)) w := by
  have htidy : w.reg.Tidy := hreg ▸ ⟨hplain.autoDetect, hplain.autoConfigUrl⟩
  simp only [applyOn, setValues, safe_bind, safe_must, safe_perform, effect]
  refine ⟨fun _ => ⟨guarantee_of_asleep hkeep, ?_⟩, fun h =>
    ⟨guarantee_of_asleep hkeep, _, rfl, htidy, failed h⟩⟩
  refine ⟨fun _ => ⟨guarantee_of_asleep hkeep, ?_⟩, fun h =>
    ⟨guarantee_of_asleep hkeep, _, rfl, htidy, failed h⟩⟩
  refine ⟨fun _ => ⟨guarantee_of_asleep hkeep, ?_⟩, fun h =>
    ⟨guarantee_of_asleep hkeep, _, rfl, htidy, failed h⟩⟩
  refine ⟨fun _ => ⟨guarantee_of_asleep hkeep, ?_⟩, fun h =>
    ⟨guarantee_of_asleep hkeep, _, rfl, htidy, failed h⟩⟩
  intro ok _
  refine ⟨guarantee_of_asleep (by cases ok <;> exact hkeep), fun ok' _ =>
    ⟨guarantee_of_asleep (by cases ok <;> cases ok' <;> exact hkeep), ?_⟩⟩
  have hreg' : (after effect .deleteAutoConfig ok' (after effect .clearAutoDetect ok
      { w with reg := ⟨some 1, some inboundServer, some bypass, w.reg.autoDetect,
        w.reg.autoConfigUrl⟩ })) = { w with reg := applied } := by
    rw [htidy.1, htidy.2]
    cases ok <;> cases ok' <;> rfl
  refine ⟨fun _ => ⟨guarantee_of_asleep (by cases ok <;> cases ok' <;> exact hkeep), hreg'⟩,
    fun _ => ⟨guarantee_of_asleep (by cases ok <;> cases ok' <;> exact hkeep), applied, hreg',
      ⟨rfl, rfl⟩, .inr ours_applied⟩⟩

@[simp] theorem safe_currentlyOurs {C : Contract World Op} {Q : Bool → World → Prop}
    {E : Fault → World → Prop} :
    currentlyOurs.Safe effect C Q E w ↔ Q (decide w.reg.Ours) w := by
  simp only [currentlyOurs, safe_bind, safe_get]
  split
  · next h => simp [Registry.Ours, h]
  · next h => simp [Registry.Ours, h]

/-- Acts on files and on the statics do not fail. -/
theorem safe_perform_sure {k : Call} {o : Op} (ho : o.fallible = false)
    {Q : Unit → World → Prop} {E : Fault → World → Prop}
    (hg : (contract origin k).guarantee w o true) (hQ : Q () (effect o w)) :
    (perform o : Action Unit).Safe effect (contract origin k) Q E w := by
  intro ok hok
  cases ok with
  | true => exact ⟨hg, hQ⟩
  | false =>
      have hf := (hok rfl).1
      rw [ho] at hf
      cases hf

theorem safe_applyOnce (hplain : origin.Plain) (h : Idle origin w)
    (hok : w.applied = true ∨ w.reg = origin) :
    applyOnce.Safe effect (contract origin .on) (fun _ => Full origin) (fun _ => Idle origin) w := by
  simp only [applyOnce, safe_bind, safe_get]
  cases happ : w.applied with
  | true =>
      cases h with
      | before _ h => simp [happ] at h
      | cut _ _ _ h => simp [happ] at h
      | full h => exact h
  | false =>
      have hreg : w.reg = origin := hok.resolve_left (by simp [happ])
      have hkeep : w.keepalive = false := by
        cases h with
        | before _ _ h => exact h
        | cut _ _ _ _ h => exact h
        | full h => simp [h.applied] at happ
      simp only [Bool.false_eq_true, if_false, saveUndo, safe_bind, safe_get]
      refine safe_perform_sure rfl (guarantee_of_asleep hkeep) ?_
      refine safe_perform_sure rfl (guarantee_of_asleep hkeep) ?_
      rw [safe_bind]
      subst hreg
      have happly := safe_applyOn (w := { w with undo := .saved w.reg.undo }) hplain rfl hkeep
      refine happly.mono ?_ ?_
      · rintro _ _ rfl
        exact safe_perform_sure rfl (guarantee_of_asleep hkeep) ⟨rfl, rfl, rfl⟩
      · rintro _ _ ⟨reg, rfl, htidy, hreg' | hours⟩
        · exact .before hreg' happ hkeep
        · exact .cut hours htidy rfl happ hkeep

theorem safe_keepOn (h : Full origin w) :
    keepOn.Safe effect (contract origin .on) (fun _ => Idle origin) (fun _ => Idle origin) w := by
  have hours : w.reg.Ours := h.reg ▸ ours_applied
  rw [keepOn, safe_bind, safe_currentlyOurs, decide_eq_true hours, if_pos rfl, safe_bind]
  have hkept : Full origin (effect (.setKeepalive true) w) := ⟨h.reg, h.undo, h.applied⟩
  have hstarted : Full origin (effect .startKeepalive (effect (.setKeepalive true) w)) :=
    ⟨h.reg, h.undo, h.applied⟩
  exact safe_perform_sure rfl (fun _ => hkept) (safe_perform_sure rfl (fun _ => hstarted) (.full hstarted))

theorem safe_setOn (hplain : origin.Plain) (h : Idle origin w)
    (hok : w.applied = true ∨ w.reg = origin) :
    setOn.Safe effect (contract origin .on) (fun _ => Idle origin) (fun _ => Idle origin) w := by
  rw [setOn, safe_bind]
  refine (safe_applyOnce hplain h hok).mono (fun _ w hfull => ?_) fun _ _ h => h
  rw [safe_bind]
  refine (safe_applyOn_again hfull).mono ?_ ?_
  · rintro _ _ rfl
    have hours := hfull.reg ▸ ours_applied
    rw [safe_bind, safe_currentlyOurs, decide_eq_true hours, if_pos rfl]
    exact safe_keepOn hfull
  · rintro _ _ rfl
    exact .full hfull

/-! ## Taking the settings back -/

variable {k : Call}

theorem guarantee_back (hk : k ≠ .on) {o : Op} {ok : Bool} (hkeep : w.keepalive = false)
    (ho : o ≠ .setKeepalive true) (hreg : w.reg = origin → (effect o w).reg = origin) :
    (contract origin k).guarantee w o ok := by
  rw [contract, if_neg hk]
  refine ⟨.inr ⟨hkeep, ho⟩, fun h => ?_⟩
  cases ok with
  | false => exact h
  | true => exact hreg h

/-- A write that takes the settings back fails only where it has nothing to change. -/
theorem failed_back (hk : k ≠ .on) {o : Op} (h : (contract origin k).allowed w o false) :
    w.reg = origin :=
  (h rfl).2.resolve_right fun h => hk h.1

theorem Registry.Plain.eq (h : origin.Plain) : ∃ enable server ov,
    origin = ⟨some enable, some server, some ov, some 0, none⟩ := by
  obtain ⟨enable, server, ov, auto, url⟩ := origin
  obtain ⟨henable, hserver, hov, rfl, rfl, -⟩ := h
  obtain ⟨enable, rfl⟩ := Option.ne_none_iff_exists'.mp henable
  obtain ⟨server, rfl⟩ := Option.ne_none_iff_exists'.mp hserver
  obtain ⟨ov, rfl⟩ := Option.ne_none_iff_exists'.mp hov
  exact ⟨enable, server, ov, rfl⟩

theorem safe_setValues (hk : k ≠ .on) (hplain : origin.Plain) (htidy : w.reg.Tidy)
    (hkeep : w.keepalive = false) :
    (setValues origin.undo.enable origin.undo.server origin.undo.override).Safe effect
      (contract origin k) (fun _ w' => w' = { w with reg := origin })
      (fun _ w' => w' = { w with reg := origin }) w := by
  obtain ⟨e, s, o, rfl⟩ := hplain.eq
  obtain ⟨⟨enable, server, ov, auto, url⟩, undo, applied, keepalive, spawned⟩ := w
  obtain ⟨rfl, rfl⟩ : auto = some 0 ∧ url = none := htidy
  have hback : ∀ {reg : Registry}, reg = ⟨some e, some s, some o, some 0, none⟩ →
      (⟨reg, undo, applied, keepalive, spawned⟩ : World) =
        ⟨⟨some e, some s, some o, some 0, none⟩, undo, applied, keepalive, spawned⟩ :=
    fun h => h ▸ rfl
  simp only [setValues, safe_bind, safe_must, effect]
  refine ⟨fun _ => ⟨guarantee_back hk hkeep (by simp) fun h => h, ?_⟩,
    fun h => ⟨guarantee_back hk hkeep (by simp) fun h => h, hback (failed_back hk h)⟩⟩
  refine ⟨fun _ => ⟨guarantee_back hk hkeep (by simp) ?_, ?_⟩,
    fun h => ⟨guarantee_back hk hkeep (by simp) ?_, hback (failed_back hk h)⟩⟩
  · rintro ⟨⟩
    rfl
  · refine ⟨fun _ => ⟨guarantee_back hk hkeep (by simp) ?_, ?_⟩,
      fun h => ⟨guarantee_back hk hkeep (by simp) ?_, hback (failed_back hk h)⟩⟩
    · rintro ⟨⟩
      rfl
    · refine ⟨fun _ => ⟨guarantee_back hk hkeep (by simp) ?_, rfl⟩,
        fun h => ⟨guarantee_back hk hkeep (by simp) ?_, hback (failed_back hk h)⟩⟩
      · rintro ⟨⟩
        rfl
      · rintro ⟨⟩
        rfl
    · rintro ⟨⟩
      rfl
  · rintro ⟨⟩
    rfl

theorem safe_restoreUndo (hk : k ≠ .on) (hplain : origin.Plain) (htidy : w.reg.Tidy)
    (hundo : w.undo = .saved origin.undo) (hkeep : w.keepalive = false) :
    restoreUndo.Safe effect (contract origin k)
      (fun _ w' => w' = { w with reg := origin, undo := .absent }) (fun _ _ => False) w := by
  rw [restoreUndo, safe_bind, safe_get, hundo]
  simp only [safe_bind, safe_ignored]
  refine (safe_setValues hk hplain htidy hkeep).mono ?_ ?_
  · rintro _ _ rfl
    exact safe_perform_sure rfl (guarantee_back hk hkeep (by simp) fun h => h) rfl
  · rintro _ _ rfl
    exact safe_perform_sure rfl (guarantee_back hk hkeep (by simp) fun h => h) rfl

/-- Telling the thread to stop comes first. -/
theorem guarantee_stop (hk : k ≠ .on) {ok : Bool} :
    (contract origin k).guarantee w (.setKeepalive false) ok := by
  rw [contract, if_neg hk]
  refine ⟨.inl rfl, fun h => ?_⟩
  cases ok <;> exact h

/-- An act that ends a call; it may fail. -/
theorem safe_notify (hk : k ≠ .on) {P : World → Prop} {E : Fault → World → Prop}
    (hkeep : w.keepalive = false) (h : P w) :
    (perform .notify : Action Unit).Safe effect (contract origin k) (fun _ => P) E w := by
  intro ok _
  refine ⟨guarantee_back hk hkeep (by simp) fun h => h, ?_⟩
  cases ok <;> exact h

/-- Between two calls with the settings not those of before, everything is there to take them
back. -/
theorem Idle.saved (h : Idle origin w) (hreg : w.reg ≠ origin) :
    w.reg.Ours ∧ w.reg.Tidy ∧ w.undo = .saved origin.undo := by
  cases h with
  | before h => exact absurd h hreg
  | cut hours htidy hundo _ _ => exact ⟨hours, htidy, hundo⟩
  | full h => exact ⟨h.reg ▸ ours_applied, h.reg ▸ ⟨rfl, rfl⟩, h.undo⟩

theorem Idle.applied_eq (h : Idle origin w) (hplain : origin.Plain) (hreg : w.reg = origin) :
    w.applied = false := by
  cases h with
  | before _ h => exact h
  | cut _ _ _ h => exact h
  | full h => exact absurd (h.reg ▸ ours_applied) (hreg ▸ hplain.notOurs)

/-- `restore_undo` leaves settings that are not ours. -/
theorem safe_offIfOurs {C : Contract World Op} {Q : Unit → World → Prop} {E : Fault → World → Prop}
    (hplain : origin.Plain) (hreg : w.reg = origin) (h : Q () w) :
    offIfOurs.Safe effect C Q E w := by
  have hours : ¬ w.reg.Ours := hreg ▸ hplain.notOurs
  rw [offIfOurs, safe_bind, safe_currentlyOurs, decide_eq_false hours]
  exact h

theorem safe_setOff (hplain : origin.Plain) (h : Idle origin w) :
    setOff.Safe effect (contract origin .off) (fun _ => Before origin) (fun _ => Before origin) w := by
  have hk : Call.off ≠ .on := by simp
  rw [setOff, safe_bind]
  refine safe_perform_sure rfl (guarantee_stop hk) ?_
  rw [safe_bind, appliedOrOurs, safe_bind, safe_get]
  by_cases hreg : w.reg = origin
  · have happ : (effect (.setKeepalive false) w).applied = false := h.applied_eq hplain hreg
    have hours : ¬ (effect (.setKeepalive false) w).reg.Ours := hreg ▸ hplain.notOurs
    rw [happ, if_neg (by simp), safe_currentlyOurs, decide_eq_false hours, if_neg (by simp)]
    exact safe_notify hk rfl ⟨hreg, happ, rfl⟩
  · obtain ⟨hours, htidy, hundo⟩ := h.saved hreg
    have hours : decide (effect (.setKeepalive false) w).reg.Ours = true := decide_eq_true hours
    have hback : (do
        restoreUndo
        offIfOurs
        perform (.setApplied false)
        perform .notify : Action Unit).Safe effect (contract origin .off)
          (fun _ => Before origin) (fun _ => Before origin) (effect (.setKeepalive false) w) := by
      rw [safe_bind]
      refine (safe_restoreUndo (w := effect (.setKeepalive false) w) hk hplain htidy hundo rfl).mono
        ?_ fun _ _ hf => hf.elim
      rintro _ _ rfl
      rw [safe_bind]
      refine safe_offIfOurs hplain rfl ?_
      rw [safe_bind]
      exact safe_perform_sure rfl (guarantee_back hk rfl (by simp) fun h => h)
        (safe_notify hk rfl ⟨rfl, rfl, rfl⟩)
    split
    · exact hback
    · rw [safe_currentlyOurs, hours, if_pos rfl]
      exact hback

theorem safe_recoverOrphaned (hplain : origin.Plain) (h : Idle origin w) :
    recoverOrphaned.Safe effect (contract origin .recoverOrphaned) (fun _ => Before origin)
      (fun _ => Before origin) w := by
  have hk : Call.recoverOrphaned ≠ .on := by simp
  rw [recoverOrphaned, safe_bind]
  refine safe_perform_sure rfl (guarantee_stop hk) ?_
  rw [safe_bind, safe_currentlyOurs]
  by_cases hreg : w.reg = origin
  · have hours : ¬ (effect (.setKeepalive false) w).reg.Ours := hreg ▸ hplain.notOurs
    rw [decide_eq_false hours, if_neg (by simp), safe_bind]
    exact safe_perform_sure rfl (guarantee_back hk rfl (by simp) fun h => h)
      (safe_perform_sure rfl (guarantee_back hk rfl (by simp) fun h => h) ⟨hreg, rfl, rfl⟩)
  · obtain ⟨hours, htidy, hundo⟩ := h.saved hreg
    have hours : (effect (.setKeepalive false) w).reg.Ours := hours
    rw [decide_eq_true hours, if_pos rfl, safe_bind]
    refine safe_perform_sure rfl (guarantee_back hk rfl (by simp) fun h => h) ?_
    rw [safe_bind]
    refine (safe_restoreUndo (w := effect (.setApplied true) (effect (.setKeepalive false) w))
      hk hplain htidy hundo rfl).mono ?_ fun _ _ hf => hf.elim
    rintro _ _ rfl
    rw [safe_bind, safe_ignored]
    refine safe_offIfOurs hplain rfl ?_
    rw [safe_bind]
    exact safe_perform_sure rfl (guarantee_back hk rfl (by simp) fun h => h)
      (safe_notify hk rfl ⟨rfl, rfl, rfl⟩)

theorem Before.idle (h : Before origin w) : Idle origin w := .before h.reg h.applied h.keepalive

/-! ## The thread -/

/-- The thread writes only while `KEEPALIVE` is set, and that is only while everything is in
place. -/
structure Watch (origin : Registry) (keep : Keep) (w : World) : Prop where
  committing : ∀ p, keep = .committing p → w.keepalive = true ∧ p.Acts Applying
  full : w.keepalive = true → Full origin w

/-- What a call ends with. -/
def Result (origin : Registry) (k : Call) (w : World) : Prop :=
  if k = .on then Idle origin w else Before origin w

theorem Result.idle {k : Call} (h : Result origin k w) : Idle origin w := by
  rw [Result] at h
  split at h
  · exact h
  · exact h.idle

structure Inv (origin : Registry) (st : State) : Prop where
  main : machine.Upholds (contract origin) (Idle origin) (fun k _ => Result origin k)
    (fun k _ => Result origin k) st.main
  watch : Watch origin st.keep st.world
  tidy : st.world.reg.Tidy

theorem inv_init {undo : UndoFile} (hplain : origin.Plain) : Inv origin (init origin undo) :=
  ⟨Machine.upholds_idle (.before rfl rfl rfl), ⟨by simp [init], by rintro ⟨⟩⟩,
    hplain.autoDetect, hplain.autoConfigUrl⟩

theorem tidy_after {o : Op} {ok : Bool} (h : w.reg.Tidy) : (after effect o ok w).reg.Tidy := by
  cases ok with
  | false => exact h
  | true =>
      cases o with
      | clearAutoDetect => exact ⟨rfl, h.2⟩
      | deleteAutoConfig => exact ⟨h.1, rfl⟩
      | _ => exact h

/-- Only an act that sets or clears `KEEPALIVE` changes it. -/
theorem keepalive_after {o : Op} {ok : Bool} (hset : o ≠ .setKeepalive true)
    (hclear : o ≠ .setKeepalive false) : (after effect o ok w).keepalive = w.keepalive := by
  cases ok with
  | false => rfl
  | true =>
      cases o with
      | setKeepalive b =>
          cases b with
          | true => exact absurd rfl hset
          | false => exact absurd rfl hclear
      | _ => rfl

/-- An act of a call, as the thread sees it. -/
theorem Watch.act {keep : Keep} (h : Watch origin keep w) {k : Call} {o : Op} {ok : Bool}
    (hg : (contract origin k).guarantee w o ok)
    (hstop : o = .setKeepalive false → ∀ p, keep ≠ .committing p)
    (hsure : ok = false → o.fallible = true) : Watch origin keep (after effect o ok w) := by
  refine ⟨fun p hp => ?_, fun hkeep => ?_⟩
  · obtain ⟨hkeep, hacts⟩ := h.committing p hp
    refine ⟨?_, hacts⟩
    by_cases hset : o = .setKeepalive true
    · subst hset
      cases ok with
      | true => rfl
      | false => exact hkeep
    · exact (keepalive_after hset fun ho => hstop ho p hp).trans hkeep
  · rw [contract] at hg
    split at hg
    · exact hg hkeep
    · rcases hg.1 with rfl | ⟨hasleep, hset⟩
      · cases ok with
        | true => cases hkeep
        | false => cases hsure rfl
      · by_cases hclear : o = .setKeepalive false
        · subst hclear
          cases ok with
          | true => cases hkeep
          | false => cases hsure rfl
        · rw [keepalive_after hset hclear, hasleep] at hkeep
          cases hkeep

/-- The thread changes nothing. -/
theorem Inv.stepKeep (h : Inv origin st) {ok : Bool} (hs : st.stepKeep ok = some st') :
    st'.main = st.main ∧ Watch origin st'.keep st.world := by
  simp only [State.stepKeep] at hs
  split at hs
  · split at hs
    · cases hs
      refine ⟨rfl, fun p hp => ?_, h.watch.full⟩
      simp only at hp
      split at hp <;> cases hp
    · cases hs
  · cases hs
    refine ⟨rfl, fun p hp => ?_, h.watch.full⟩
    simp only at hp
    split at hp <;> cases hp
  · cases hs
    refine ⟨rfl, fun p hp => ?_, h.watch.full⟩
    simp only at hp
    split at hp <;> cases hp
  · cases hs
    refine ⟨rfl, fun p hp => ?_, h.watch.full⟩
    simp only at hp
    split at hp
    · next hkeep =>
        cases hp
        exact ⟨hkeep, acts_applyOn⟩
    · cases hp
  · cases hs
    exact ⟨rfl, by simp, h.watch.full⟩
  · next k hk =>
      cases hs
      obtain ⟨hkeep, hacts⟩ := h.watch.committing _ hk
      refine ⟨rfl, fun p hp => ?_, h.watch.full⟩
      cases hp
      exact ⟨hkeep, hacts _⟩
  · next o k hk =>
      cases hs
      obtain ⟨hkeep, hacts⟩ := h.watch.committing _ hk
      have hw := after_applying hacts.1 (h.watch.full hkeep).reg ok
      refine ⟨?_, fun p hp => ?_, h.watch.full⟩
      · rw [hw]
        rfl
      · cases hp
        exact ⟨hkeep, hacts.2 ok⟩

theorem safe_body (hplain : origin.Plain) {k : Call} (h : Idle origin w)
    (hok : k = .on → w.applied = true ∨ w.reg = origin) :
    (machine.body k).Safe machine.effect (contract origin k) (fun _ => Result origin k)
      (fun _ => Result origin k) w := by
  cases k with
  | on => exact safe_setOn hplain h (hok rfl)
  | off => exact safe_setOff hplain h
  | recoverOrphaned => exact safe_recoverOrphaned hplain h

/-- The outcome of an act is one that the call allows for. -/
theorem allowed_of_settled {ok : Bool} {k : Call} {o : Op} (hnext : st.main.next = some (k, o))
    (hok : ok = false → o.fallible = true) (hset : Settled origin st (.main (.go ok))) :
    allowed origin k st.world o ok :=
  fun hfail => ⟨hok hfail, (hset k o hnext).2 hfail⟩

/-- A call that is cut off where the condition allows it leaves what a later one takes back. -/
theorem idle_of_crash (htidy : w.reg.Tidy)
    (h : w.reg = origin ∨ w.reg.Ours ∧ w.undo = .saved origin.undo) :
    Idle origin (machine.reset w) := by
  rcases h with h | ⟨hours, hundo⟩
  · exact .before h rfl rfl
  · exact .cut hours htidy hundo rfl rfl

/-- A step of a call that leaves the world alone. -/
theorem Inv.quiet (h : Inv origin st) {main : Machine.State World Op Fault Unit Call}
    (hmain : machine.Upholds (contract origin) (Idle origin) (fun k _ => Result origin k)
      (fun k _ => Result origin k) main)
    (hworld : main.world = st.main.world) : Inv origin { st with main } := by
  refine ⟨hmain, ?_, ?_⟩
  · show Watch origin st.keep main.world
    rw [hworld]
    exact h.watch
  · show main.world.reg.Tidy
    rw [hworld]
    exact h.tidy

theorem Inv.go (h : Inv origin st) {ok : Bool} {main : Machine.State World Op Fault Unit Call}
    (hs : machine.step st.main (.go ok) = some main) (hset : Settled origin st (.main (.go ok))) :
    Inv origin { st with main } := by
  have hmain := h.main.step hs (by simp) (fun ok' k o he hnext hok => by
    cases he
    exact allowed_of_settled hnext hok hset) (fun _ _ _ => Result.idle) (fun _ _ _ => Result.idle)
    (by simp)
  obtain ⟨-, hworld | ⟨k, o, hnext, hok, hworld⟩⟩ := Machine.step_go hs
  · exact h.quiet hmain hworld
  · have hallowed := allowed_of_settled hnext hok hset
    refine ⟨hmain, ?_, ?_⟩
    · show Watch origin st.keep main.world
      rw [hworld]
      refine h.watch.act (h.main.guarantee hnext hallowed) (fun ho p hp => ?_) fun hf => (hallowed hf).1
      exact (hset k o hnext).1 ho ⟨p, hp⟩
    · show main.world.reg.Tidy
      rw [hworld]
      exact tidy_after h.tidy

theorem Inv.step (hplain : origin.Plain) (h : Inv origin st) {e : Event}
    (hs : SettledSteps origin st e st') : Inv origin st' := by
  obtain ⟨hs, hset⟩ := hs
  cases e with
  | keep ok =>
      obtain ⟨hmain, hwatch⟩ := h.stepKeep hs
      refine ⟨hmain ▸ h.main, ?_, ?_⟩
      · rw [State.world, hmain]
        exact hwatch
      · rw [State.world, hmain]
        exact h.tidy
  | main e =>
      cases e with
      | call k =>
          obtain ⟨main, hm, rfl⟩ := Option.map_eq_some_iff.mp hs
          obtain ⟨hworld, -⟩ := Machine.step_call hm
          have hmain := h.main.step hm (fun k' hk' hidle => by
            cases hk'
            refine safe_body hplain hidle ?_
            rintro rfl
            exact hset) (by simp) (fun _ _ _ => Result.idle) (fun _ _ _ => Result.idle) (by simp)
          exact h.quiet hmain hworld
      | go ok =>
          obtain ⟨main, hm, rfl⟩ := Option.map_eq_some_iff.mp hs
          exact h.go hm hset
      | ret =>
          obtain ⟨main, hm, rfl⟩ := Option.map_eq_some_iff.mp hs
          obtain ⟨hworld, -⟩ := Machine.step_ret hm
          have hmain := h.main.step hm (by simp) (by simp) (fun _ _ _ => Result.idle)
            (fun _ _ _ => Result.idle) (by simp)
          exact h.quiet hmain hworld
      | crash =>
          cases hs
          have hidle := idle_of_crash h.tidy hset
          exact ⟨Machine.upholds_idle hidle, ⟨by simp, by rintro ⟨⟩⟩, h.tidy⟩

/-! ## What was taken back stays so -/

/-- The settings are those of before and nothing is about to apply them. -/
structure Still (origin : Registry) (st : State) : Prop where
  reg : st.world.reg = origin
  asleep : st.world.keepalive = false
  call : ∀ c, st.main.call = some c → c.kind ≠ .on

theorem Inv.still (h : Inv origin st) (hr : st.Restored) : Still origin st := by
  obtain ⟨k, r, hk, hr⟩ := hr
  have hsafe := h.main.ended hr
  have hbefore : Before origin st.main.world := by
    cases r <;> simpa [Safe, Result, hk] using hsafe
  refine ⟨hbefore.reg, hbefore.keepalive, fun c hc => ?_⟩
  cases hr.symm.trans hc
  exact hk

theorem Still.quiet (h : Still origin st) {main : Machine.State World Op Fault Unit Call}
    {keep : Keep} (hworld : main.world = st.main.world)
    (hcall : ∀ c, main.call = some c → c.kind ≠ .on) : Still origin ⟨main, keep⟩ := by
  refine ⟨?_, ?_, hcall⟩
  · show main.world.reg = origin
    rw [hworld]
    exact h.reg
  · show main.world.keepalive = false
    rw [hworld]
    exact h.asleep

theorem Still.go (h : Still origin st) (hinv : Inv origin st) {ok : Bool}
    {main : Machine.State World Op Fault Unit Call}
    (hs : machine.step st.main (.go ok) = some main) (hset : Settled origin st (.main (.go ok))) :
    Still origin { st with main } := by
  obtain ⟨⟨c, c', hc, hc', hkind⟩, hworld⟩ := Machine.step_go hs
  have hcall : ∀ d, main.call = some d → d.kind ≠ .on := by
    intro d hd
    cases hc'.symm.trans hd
    rw [hkind]
    exact h.call c hc
  rcases hworld with hworld | ⟨k, o, hnext, hok, hworld⟩
  · exact h.quiet hworld hcall
  · obtain ⟨d, hd, rfl⟩ := Machine.State.call_of_next hnext
    have hg := hinv.main.guarantee hnext (allowed_of_settled hnext hok hset)
    rw [contract, if_neg (h.call d hd)] at hg
    refine ⟨?_, ?_, hcall⟩
    · show main.world.reg = origin
      rw [hworld]
      exact hg.2 h.reg
    · show main.world.keepalive = false
      rw [hworld]
      rcases hg.1 with rfl | ⟨hasleep, hne⟩
      · cases ok with
        | true => rfl
        | false => exact h.asleep
      · by_cases hclear : o = .setKeepalive false
        · subst hclear
          cases ok with
          | true => rfl
          | false => exact hasleep
        · exact (keepalive_after hne hclear).trans hasleep

theorem Still.step (h : Still origin st) (hinv : Inv origin st) {e : Event}
    (hs : SettledSteps origin st e st') (he : e ≠ .main (.call .on)) : Still origin st' := by
  obtain ⟨hs, hset⟩ := hs
  cases e with
  | keep ok =>
      obtain ⟨hmain, -⟩ := hinv.stepKeep hs
      have hcall := h.call
      rw [← hmain] at hcall
      exact h.quiet (congrArg _ hmain) hcall
  | main e =>
      cases e with
      | call k =>
          obtain ⟨main, hm, rfl⟩ := Option.map_eq_some_iff.mp hs
          obtain ⟨hworld, hcall⟩ := Machine.step_call hm
          refine h.quiet hworld fun c hc => ?_
          cases hcall.symm.trans hc
          rintro rfl
          exact he rfl
      | go ok =>
          obtain ⟨main, hm, rfl⟩ := Option.map_eq_some_iff.mp hs
          exact h.go hinv hm hset
      | ret =>
          obtain ⟨main, hm, rfl⟩ := Option.map_eq_some_iff.mp hs
          obtain ⟨hworld, hcall⟩ := Machine.step_ret hm
          exact h.quiet hworld (by simp [hcall])
      | crash =>
          cases hs
          exact ⟨h.reg, rfl, by simp⟩

theorem Inv.run (hplain : origin.Plain) {es : List Event} (h : Run (SettledSteps origin) st es st')
    (hinv : Inv origin st) : Inv origin st' :=
  h.invariant (fun hi hs => Inv.step hplain hi hs) hinv

theorem Still.run (hplain : origin.Plain) {es : List Event}
    (h : Run (SettledSteps origin) st es st') (hinv : Inv origin st) (hstill : Still origin st)
    (hoff : .main (.call .on) ∉ es) : Still origin st' := by
  induction h with
  | nil => exact hstill
  | snoc h hs ih =>
      simp only [List.mem_append, not_or, List.mem_singleton] at hoff
      exact (ih hoff.1).step (Inv.run hplain h hinv) hs (Ne.symm hoff.2)

/-- If everything that `set` changes is saved, and no write fails and no crash comes where only
a part of it has been changed, then a call that takes the settings back and whose writes
succeed brings back those of before, and they stay until the next `set(true)`. -/
theorem windows_restored (hplain : origin.Plain) {undo : UndoFile} {es es' : List Event}
    (h : Run (SettledSteps origin) (init origin undo) es st) (hr : st.Restored)
    (h' : Run (SettledSteps origin) st es' st') (hoff : .main (.call .on) ∉ es') :
    st'.world.reg = origin := by
  have hinv := Inv.run hplain h (inv_init hplain)
  exact ((hinv.still hr).run hplain h' hinv hoff).reg

/-! ## On and off -/

theorem keep_of_main {e : Machine.Event Call} (hs : step st (.main e) = some st') :
    st'.keep = st.keep ∨ st'.keep = .asleep := by
  cases e with
  | crash =>
      cases hs
      exact .inr rfl
  | _ =>
      obtain ⟨main, -, rfl⟩ := Option.map_eq_some_iff.mp hs
      exact .inl rfl

/-- Calls whose acts succeed, while the thread sleeps. -/
theorem run_of_sure {es : List Event} (h : es.foldlM step st = some st')
    (hasleep : st.keep = .asleep)
    (hes : ∀ e ∈ es, e ∈ [.main (.go true), .main .ret, .main (.call .off)]) :
    Run (SettledSteps origin) st es st' ∧ st'.keep = .asleep := by
  induction es generalizing st with
  | nil =>
      cases h
      exact ⟨.nil, hasleep⟩
  | cons e es ih =>
      rw [List.foldlM_cons] at h
      obtain ⟨st₁, hs, h⟩ := Option.bind_eq_some_iff.mp h
      have he := hes e List.mem_cons_self
      simp only [List.mem_cons, List.not_mem_nil, or_false] at he
      obtain ⟨hkeep, hset⟩ : st₁.keep = .asleep ∧ Settled origin st e := by
        rcases he with rfl | rfl | rfl
        · exact ⟨(keep_of_main hs).elim (·.trans hasleep) id,
            fun _ _ _ => ⟨fun _ hp => by simp [State.Committing, hasleep] at hp, by simp⟩⟩
        · exact ⟨(keep_of_main hs).elim (·.trans hasleep) id, trivial⟩
        · exact ⟨(keep_of_main hs).elim (·.trans hasleep) id, trivial⟩
      obtain ⟨hrun, hasleep'⟩ := ih h hkeep fun d hd => hes d (List.mem_cons_of_mem _ hd)
      exact ⟨.cons ⟨hs, hset⟩ hrun, hasleep'⟩

/-- `set(true)` in full, and `set(false)` up to its end. -/
def calls : List Event :=
  List.replicate 27 (.main (.go true)) ++ [.main .ret, .main (.call .off)] ++
    List.replicate 11 (.main (.go true))

/-- After `set(true)` has been called. -/
def called (reg : Registry) : State :=
  ⟨⟨⟨reg, .absent, false, false, false⟩, some ⟨.on, setOn, true⟩⟩, .asleep⟩

/-- A `set(false)` has ended well, and the settings are as wanted. -/
def State.endsWith (p : Registry → Bool) (st : State) : Bool :=
  match st.main.call with
  | some ⟨.off, .done _, true⟩ => p st.world.reg
  | _ => false

theorem State.restored_of {p : Registry → Bool} (h : st.endsWith p = true) :
    st.Restored ∧ p st.world.reg = true := by
  simp only [State.endsWith] at h
  split at h
  · next r hc => exact ⟨⟨.off, r, by simp, hc⟩, h⟩
  · cases h

/-- No proxy, and no automatic detection. -/
def direct : Registry := ⟨some 0, some [], some [], some 0, none⟩

/-- A proxy that was set by hand. -/
def manual : Registry :=
  ⟨some 1, some ['p', 'r', 'o', 'x', 'y', ':', '8', '0'], some ['<', '-', '>'], some 0, none⟩

/-- `set(true)` puts this client in the place of another proxy, and `set(false)` brings that one
back. -/
theorem windows_restored_manual : ∃ on off st₁ st₂ st₃,
    Run (SettledSteps manual) (init manual .absent) on st₁ ∧ st₁.world.reg.NamesInbound ∧
      Run (SettledSteps manual) st₁ off st₂ ∧ st₂.Restored ∧
      Run (SettledSteps manual) st₂ [.main .ret] st₃ ∧ st₃.world.reg = manual := by
  have hplain : manual.Plain :=
    ⟨by simp [manual], by simp [manual], by simp [manual], rfl, rfl, by decide⟩
  have hcall : SettledSteps manual (init manual .absent) (.main (.call .on)) (called manual) :=
    ⟨rfl, .inr rfl⟩
  have hcalls : ((calls.take 27).foldlM step (called manual)).any (fun st =>
      decide st.world.reg.NamesInbound &&
        ((calls.drop 27 ++ [Event.main (.go true)]).foldlM step st).any fun st' =>
          (st'.endsWith fun _ => true) && (step st' (.main .ret)).isSome) = true := by
    -- `ProxyEnable` is 1 again, so that `off_if_ours` looks at the server as well
    decide
  obtain ⟨st₁, hon, h₁⟩ := (Option.any_eq_true _ _).mp hcalls
  obtain ⟨hnames, h₁⟩ := Bool.and_eq_true_iff.mp h₁
  obtain ⟨st₂, hoff, h₂⟩ := (Option.any_eq_true _ _).mp h₁
  obtain ⟨hend, hret⟩ := Bool.and_eq_true_iff.mp h₂
  obtain ⟨st₃, hret⟩ := Option.isSome_iff_exists.mp hret
  obtain ⟨hrun₁, hasleep⟩ := run_of_sure hon rfl (by decide)
  obtain ⟨hrun₂, -⟩ := run_of_sure hoff hasleep (by decide)
  have hrun₃ : Run (SettledSteps manual) st₂ [.main .ret] st₃ := .single ⟨hret, trivial⟩
  have hr := (State.restored_of hend).1
  have hrun := Run.cons hcall hrun₁
  exact ⟨_, _, st₁, st₂, st₃, hrun, of_decide_eq_true hnames, hrun₂, hr, hrun₃,
    windows_restored hplain (hrun.append hrun₂) hr hrun₃ (by simp)⟩

/-- Automatic detection was on, and is not turned on again. -/
theorem not_windows_restored : ¬ ∀ (origin : Registry) (undo : UndoFile) (es es' : List Event) (st st' : State),
    Run (fun s e t => step s e = some t) (init origin undo) es st → st.Restored →
    Run (fun s e t => step s e = some t) st es' st' → .main (.call .on) ∉ es' →
      st'.world.reg = origin := by
  intro h
  have hend : (calls.foldlM step (called { direct with autoDetect := some 1 })).any
      (State.endsWith fun reg => reg.autoDetect = some 0) = true := by decide
  obtain ⟨st, hst, hr⟩ := (Option.any_eq_true _ _).mp hend
  have hrun : Run (fun s e t => step s e = some t)
      (init { direct with autoDetect := some 1 } .absent) (.main (.call .on) :: calls) st :=
    .cons rfl (run_of_foldlM hst)
  obtain ⟨hr, hauto⟩ := State.restored_of hr
  have hreg := h _ _ _ _ _ _ hrun hr .nil (by simp)
  rw [hreg] at hauto
  cases hauto

end Windows

end Sysproxy

end RustClash
