import RustClash.Sysproxy.Gnome

/-!
# Settled runs take the settings of GNOME back

The undo file reads back as the snapshot, and applying it sets every key to what was printed.
-/

namespace RustClash

namespace Sysproxy

namespace Gnome

open Prog Str

variable {origin : Settings} {w : World} {k : Call}

/-! ## The undo file -/

theorem loadUndo_torn : loadUndo (some []) = none := rfl

theorem loadUndo_undoText (h : Plain origin) : loadUndo (some (undoText (snap origin))) = some (snap origin) := by
  have hfields : ∀ s ∈ [(snap origin).mode, (snap origin).useSame, (snap origin).httpHost,
      (snap origin).httpPort, (snap origin).httpEnabled, (snap origin).httpsHost,
      (snap origin).httpsPort], '\t' ∉ s := by
    simp only [List.forall_mem_cons]
    exact ⟨h.field _, h.field _, h.field _, h.field _, h.field _, h.field _, h.field _,
      List.forall_mem_nil _⟩
  rw [loadUndo, undoText, Option.map_some, split_join (by simp) hfields]
  simp only [snap, h.last]

/-! ## Taking the settings back -/

/-- A key is set; where that fails it is as it should be. -/
theorem safe_gset_back (hk : k ≠ .on) {settings : Settings} {undo : Option Str}
    (hload : loadUndo undo = some (snap origin)) {key : Key}
    {v : Str} {Q : Unit → World → Prop} {E : Fault → World → Prop}
    (hQ : Q () ⟨Function.update settings key (formatted v), undo⟩) :
    (ignored (gset key v) : Action Unit).Safe effect (desktop.contract origin k) Q E
      ⟨settings, undo⟩ := by
  have hback := Desktop.safe_perform_back (D := desktop) (ε := Fault) (o := .set key (formatted v))
    (w := ⟨settings, undo⟩) (E := E) hk (.inl ⟨hload, trivial⟩) hQ
  rw [safe_perform] at hback
  rw [safe_ignored, gset, safe_must]
  exact ⟨hback true, hback false⟩

theorem safe_applySnap (hk : k ≠ .on) (hplain : Plain origin)
    (hload : loadUndo w.undo = some (snap origin)) :
    (applySnap (snap origin)).Safe effect (desktop.contract origin k)
      (fun _ w' => w' = { w with settings := origin }) (fun _ _ => False) w := by
  rw [applySnap, safe_bind]
  refine safe_gset_back hk hload ?_
  rw [safe_bind]
  refine safe_gset_back hk hload ?_
  rw [safe_bind]
  refine safe_gset_back hk hload ?_
  rw [safe_bind]
  refine safe_gset_back hk hload ?_
  rw [safe_bind]
  refine safe_gset_back hk hload ?_
  rw [safe_bind]
  refine safe_gset_back hk hload ?_
  refine safe_gset_back hk hload ?_
  refine congrArg (World.mk · w.undo) (funext fun key => ?_)
  cases key <;> simp [snap, hplain.formatted]

theorem safe_removeUndo (hk : k ≠ .on) (hset : w.settings = origin) {E : Fault → World → Prop} :
    (perform .removeUndo : Action Unit).Safe effect (desktop.contract origin k)
      (fun _ => desktop.Result origin k) E w := by
  have hgone : desktop.Restorable origin (effect .removeUndo w) := .inr ⟨rfl, hset⟩
  exact Desktop.safe_perform_back hk hgone ⟨hgone, fun _ => hset⟩

/-- The snapshot is applied and the undo file removed. -/
theorem safe_back (hk : k ≠ .on) (hplain : Plain origin)
    (hload : loadUndo w.undo = some (snap origin)) {E : Fault → World → Prop} :
    (do
      applySnap (snap origin)
      perform .removeUndo : Action Unit).Safe effect (desktop.contract origin k)
        (fun _ => desktop.Result origin k) E w := by
  rw [safe_bind]
  refine (safe_applySnap hk hplain hload).mono ?_ fun _ _ hf => hf.elim
  rintro _ _ rfl
  exact safe_removeUndo hk rfl

theorem safe_restore (hplain : Plain origin) (h : desktop.Restorable origin w) :
    restore.Safe effect (desktop.contract origin .off) (fun _ => desktop.Result origin .off)
      (fun _ => desktop.Result origin .off) w := by
  have hk : Call.off ≠ .on := by simp
  rw [restore, safe_bind, safe_get]
  rcases h with ⟨h, -⟩ | ⟨h, hset⟩
  · have hload : loadUndo w.undo = some (snap origin) := h
    rw [hload]
    exact safe_back hk hplain hload
  · have hload : loadUndo w.undo = none := h
    rw [hload]
    exact safe_removeUndo hk hset

/-- A query of `recover_orphaned` fails only where that does no harm. -/
theorem safe_gget (h : desktop.Restorable origin w) {key : Key} {Q : Option Str → World → Prop}
    {E : Fault → World → Prop} (hQ : ∀ v, v = some (value (w.settings key)) ∨ w.settings = origin → Q v w) :
    (gget key).Safe effect (desktop.contract origin .recoverOrphaned) Q E w := by
  rw [gget, safe_bind, safe_attempt]
  intro ok hok
  cases ok with
  | true => exact ⟨h, hQ _ (.inl rfl)⟩
  | false => exact ⟨h, hQ _ (.inr ((hok rfl).2.2 rfl rfl))⟩

theorem safe_recoverOrphaned (hplain : Plain origin) (h : desktop.Restorable origin w)
    (hours : desktop.Ours w ∨ w.settings = origin) :
    recoverOrphaned.Safe effect (desktop.contract origin .recoverOrphaned)
      (fun _ => desktop.Result origin .recoverOrphaned)
      (fun _ => desktop.Result origin .recoverOrphaned) w := by
  have hk : Call.recoverOrphaned ≠ .on := by simp
  rw [recoverOrphaned, safe_bind, safe_get]
  cases hload : loadUndo w.undo with
  | none =>
      have hset : w.settings = origin := by
        rcases h with ⟨h, -⟩ | ⟨-, hset⟩
        · cases hload.symm.trans h
        · exact hset
      exact ⟨h, fun _ => hset⟩
  | some s =>
      obtain rfl : s = snap origin := by
        rcases h with ⟨h, -⟩ | ⟨h, -⟩
        · exact Option.some.inj (hload.symm.trans h)
        · cases hload.symm.trans h
      rw [safe_bind]
      refine safe_gget h fun host hhost => ?_
      rw [safe_bind]
      refine safe_gget h fun port hport => ?_
      rw [safe_bind]
      refine safe_gget h fun mode hmode => ?_
      split
      · exact safe_back hk hplain hload
      · next hother =>
          refine safe_removeUndo hk (by_contra fun hset => ?_)
          obtain rfl := hhost.resolve_right hset
          obtain rfl := hport.resolve_right hset
          obtain rfl := hmode.resolve_right hset
          exact hother (hours.resolve_right hset)

/-! ## Putting the settings in place -/

/-- A query of `set(true)` does not fail. -/
theorem safe_gget_on (h : desktop.Restorable origin w) {key : Key} {Q : Option Str → World → Prop}
    {E : Fault → World → Prop} (hQ : Q (some (value (w.settings key))) w) :
    (gget key).Safe effect (desktop.contract origin .on) Q E w := by
  rw [gget, safe_bind, safe_attempt]
  intro ok hok
  cases ok with
  | true => exact ⟨h, hQ⟩
  | false => cases (hok rfl).2

theorem safe_capture (h : desktop.Restorable origin w) (hset : w.settings = origin)
    {E : Fault → World → Prop} :
    capture.Safe effect (desktop.contract origin .on) (fun s w' => s = snap origin ∧ w' = w) E w := by
  rw [capture, safe_bind]
  refine safe_gget_on h ?_
  rw [safe_bind]
  refine safe_gget_on h ?_
  rw [safe_bind]
  refine safe_gget_on h ?_
  rw [safe_bind]
  refine safe_gget_on h ?_
  rw [safe_bind]
  refine safe_gget_on h ?_
  rw [safe_bind]
  refine safe_gget_on h ?_
  rw [safe_bind]
  refine safe_gget_on h ?_
  subst hset
  exact ⟨rfl, rfl⟩

/-- Once the snapshot is saved, every act leaves it there. -/
theorem safe_gset {settings : Settings} {undo : Option Str}
    (hload : loadUndo undo = some (snap origin)) {key : Key} {v : Str} {Q : Unit → World → Prop}
    (hQ : ∀ settings, Q () ⟨settings, undo⟩) :
    (gset key v).Safe effect (desktop.contract origin .on) Q
      (fun _ => desktop.Result origin .on) ⟨settings, undo⟩ := by
  have hkept : ∀ ok, desktop.Restorable origin
      (after effect (.set key (formatted v)) ok ⟨settings, undo⟩) := by
    intro ok
    cases ok <;> exact .inl ⟨hload, trivial⟩
  rw [gset, safe_must]
  exact ⟨fun _ => ⟨hkept true, hQ _⟩, fun _ => ⟨hkept false, .inl ⟨hload, trivial⟩, by simp⟩⟩

theorem safe_writeUndo (hplain : Plain origin) (hset : w.settings = origin)
    {Q : Unit → World → Prop} {E : Fault → World → Prop}
    (hQ : Q () ⟨origin, some (undoText (snap origin))⟩) :
    (writeUndo (snap origin)).Safe effect (desktop.contract origin .on) Q E w := by
  subst hset
  rw [writeUndo, safe_bind]
  refine Desktop.safe_perform_sure rfl (.inr ⟨loadUndo_torn, rfl⟩) ?_
  exact Desktop.safe_perform_sure rfl (.inl ⟨loadUndo_undoText hplain, trivial⟩) hQ

theorem safe_apply (hplain : Plain origin) (h : desktop.Restorable origin w)
    (hset : w.settings = origin) :
    apply.Safe effect (desktop.contract origin .on) (fun _ => desktop.Result origin .on)
      (fun _ => desktop.Result origin .on) w := by
  have hload := loadUndo_undoText hplain
  rw [apply, safe_bind]
  refine (safe_capture h hset).mono ?_ fun _ _ h => h
  rintro _ _ ⟨rfl, rfl⟩
  rw [safe_bind]
  refine safe_writeUndo hplain hset ?_
  rw [safe_bind]
  refine safe_gset hload fun _ => ?_
  rw [safe_bind]
  refine safe_gset hload fun _ => ?_
  rw [safe_bind]
  refine safe_gset hload fun _ => ?_
  rw [safe_bind]
  refine safe_gset hload fun _ => ?_
  rw [safe_bind]
  refine safe_gset hload fun _ => ?_
  rw [safe_bind]
  refine safe_gset hload fun _ => ?_
  exact safe_gset hload fun _ => ⟨.inl ⟨hload, trivial⟩, by simp⟩

/-- Every call is safe where it may be made. -/
theorem safe_body (hplain : Plain origin) (h : desktop.Restorable origin w)
    (hcall : desktop.Callable origin k w) :
    (machine.body k).Safe desktop.effect (desktop.contract origin k)
      (fun _ => desktop.Result origin k) (fun _ => desktop.Result origin k) w := by
  cases k with
  | on => exact safe_apply hplain h hcall
  | off => exact safe_restore hplain h
  | recoverOrphaned => exact safe_recoverOrphaned hplain h hcall

theorem restored (hplain : Plain origin) {es : List (Machine.Event Call)}
    {st : Machine.State World Op Fault Unit Call}
    (h : Run (desktop.SettledSteps origin machine) (init origin) es st) {clean : Bool}
    {r : Except Fault Unit} (hend : st.Ended k clean r) (hk : k ≠ .on) :
    st.world.settings = origin :=
  Desktop.restored_run rfl (fun _ => rfl) (fun _ _ => safe_body hplain) h (.inr ⟨rfl, rfl⟩) hend hk

end Gnome

end Sysproxy

end RustClash
