import RustClash.Sysproxy.Macos

/-!
# Settled runs take the settings of macOS back

What `networksetup` prints and what the undo file holds are read back as they were, and setting
every proxy that is saved takes the settings back.
-/

namespace RustClash

namespace Sysproxy

namespace Macos

open Prog Str

variable {origin : Settings} {w : World} {k : Call} {st : ProxyState}

/-! ## Reports -/

/-- What is needed of a proxy for its report and its line to be read back. -/
structure ProxyState.Legible (st : ProxyState) : Prop where
  port : ∃ n : Nat, n < 2 ^ 31 ∧ st.port = n
  tab : '\t' ∉ st.server
  feed : '\n' ∉ st.server
  cr : '\r' ∉ st.server
  trim : RustClash.trim st.server = st.server

theorem ProxyState.Kept.legible (h : st.Kept) : st.Legible := by
  rw [Kept] at h
  split at h
  · obtain ⟨-, hpos, hlt, htab, hfeed, hcr, htrim⟩ := h
    obtain ⟨n, hn⟩ := Int.eq_ofNat_of_zero_le (Int.le_of_lt hpos)
    exact ⟨⟨n, by omega, hn⟩, htab, hfeed, hcr, htrim⟩
  · obtain ⟨hserver, hport⟩ := h
    refine ⟨⟨7890, by decide, hport⟩, ?_, ?_, ?_, ?_⟩ <;> rw [hserver] <;> decide

theorem lines_reportLine {key value : Str} (rest : Str) (hkey : '\n' ∉ key ∧ '\r' ∉ key)
    (hvalue : '\n' ∉ value ∧ '\r' ∉ value) :
    lines (reportLine key value ++ '\n' :: rest) = reportLine key value :: lines rest := by
  have hfeed : '\n' ∉ reportLine key value := by simp [reportLine, hkey, hvalue]
  have hcr : '\r' ∉ reportLine key value := by simp [reportLine, hkey, hvalue]
  rw [lines_append _ hfeed, dropCr_of_notMem hcr]

theorem readLine_reportLine {key value : Str} (hkey : ':' ∉ key) :
    readLine st (reportLine key value) =
      if trim key = enabledKey then
        { st with enabled := eqIgnoreCase (trim value) ['y', 'e', 's'] || trim value = ['1'] }
      else if trim key = serverKey then { st with server := trim value }
      else if trim key = portKey then { st with port := (parseI32 (trim value)).getD 0 }
      else st := by
  rw [readLine, reportLine, splitOnce_append _ hkey]
  simp only [trim_cons (show isWhiteSpace ' ' = true from rfl)]

theorem readPort {n : Nat} (h : n < 2 ^ 31) : (parseI32 (trim (ofInt n))).getD 0 = n := by
  show (parseI32 (trim (ofNat n))).getD 0 = n
  rw [trim_ofNat, parseI32_ofNat h]
  rfl

/-- `capture` reads what `networksetup` knows. -/
theorem read_report (h : st.Legible) : (lines (report st)).foldl readLine {} = st := by
  obtain ⟨on, server, port⟩ := st
  obtain ⟨⟨n, hn, rfl⟩, -, hfeed, hcr, htrim⟩ := h
  have hport : '\n' ∉ ofInt n ∧ '\r' ∉ ofInt n :=
    ⟨notMem_ofNat (by decide), notMem_ofNat (by decide)⟩
  have hon : ∀ b : Bool, '\n' ∉ (if b then ['Y', 'e', 's'] else ['N', 'o']) ∧
      '\r' ∉ (if b then ['Y', 'e', 's'] else ['N', 'o']) := by decide
  have henabled : ∀ b : Bool, readLine {} (reportLine enabledKey
      (if b then ['Y', 'e', 's'] else ['N', 'o'])) = ⟨b, [], 0⟩ := by decide
  rw [report, lines_reportLine _ (by decide) (hon on), lines_reportLine _ (by decide) ⟨hfeed, hcr⟩,
    lines_reportLine _ (by decide) hport, lines_reportLine [] (by decide) (by decide), lines_nil]
  simp only [List.foldl_cons, List.foldl_nil]
  rw [henabled, readLine_reportLine (by decide), if_neg (by decide), if_neg (by decide),
    if_neg (by decide), readLine_reportLine (by decide), if_neg (by decide), if_neg (by decide),
    if_pos (by decide), readLine_reportLine (by decide), if_neg (by decide), if_pos (by decide),
    readPort hn]
  exact congrArg (ProxyState.mk on · n) htrim

/-! ## The undo file -/

theorem eqIgnoreCase_ofBool (b : Bool) : eqIgnoreCase (ofBool b) (ofBool true) = b := by
  cases b <;> decide

/-- A service whose name is one field. -/
structure ServiceSnap.Legible (x : ServiceSnap) : Prop where
  name : '\t' ∉ x.name ∧ '\n' ∉ x.name
  web : x.web.Legible
  secure : x.secure.Legible

theorem readSnap_snapLine {x : ServiceSnap} (h : x.Legible) : readSnap (snapLine x) = some x := by
  obtain ⟨name, ⟨on, server, port⟩, ⟨on', server', port'⟩⟩ := x
  obtain ⟨⟨hname, -⟩, ⟨⟨n, hn, rfl⟩, htab, -, -, -⟩, ⟨⟨n', hn', rfl⟩, htab', -, -, -⟩⟩ := h
  have hfields : ∀ s ∈ [name, ofBool on, server, ofInt n, ofBool on', server', ofInt n'], '\t' ∉ s := by
    simp only [List.forall_mem_cons]
    exact ⟨hname, by cases on <;> decide, htab, notMem_ofNat (by decide), by cases on' <;> decide,
      htab', notMem_ofNat (by decide), List.forall_mem_nil _⟩
  rw [readSnap, snapLine, split_join (by simp) hfields]
  simp only [eqIgnoreCase_ofBool]
  rw [show ofInt n = ofNat n from rfl, show ofInt n' = ofNat n' from rfl, parseI32_ofNat hn,
    parseI32_ofNat hn']
  rfl

theorem feed_snapLine {x : ServiceSnap} (h : x.Legible) :
    '\n' ∉ snapLine x ∧ dropCr (snapLine x) = snapLine x := by
  obtain ⟨name, ⟨on, server, port⟩, ⟨on', server', port'⟩⟩ := x
  obtain ⟨⟨-, hname⟩, ⟨⟨n, hn, rfl⟩, -, hfeed, -, -⟩, ⟨⟨n', hn', rfl⟩, -, hfeed', -, -⟩⟩ := h
  constructor
  · refine notMem_join (by decide) ?_
    simp only [List.forall_mem_cons]
    exact ⟨hname, by cases on <;> decide, hfeed, notMem_ofNat (by decide), by cases on' <;> decide,
      hfeed', notMem_ofNat (by decide), List.forall_mem_nil _⟩
  · have hcr : '\r' ∉ ofNat n' := notMem_ofNat (by decide)
    have hend : snapLine ⟨name, ⟨on, server, n⟩, ⟨on', server', n'⟩⟩ = join ['\t'] [name, ofBool on,
        server, ofInt n, ofBool on', server'] ++ ['\t'] ++ ofNat n' := by
      simp [snapLine, join, ofInt]
    rw [hend]
    exact dropCr_append ofNat_ne_nil hcr

theorem loadUndo_undoText {snaps : List ServiceSnap} (h : ∀ x ∈ snaps, x.Legible) :
    loadUndo (some (undoText snaps)) = some snaps := by
  refine congrArg some ?_
  induction snaps with
  | nil => rfl
  | cons x snaps ih =>
      obtain ⟨hx, hsnaps⟩ := List.forall_mem_cons.mp h
      obtain ⟨hfeed, hcr⟩ := feed_snapLine hx
      have htext : undoText (x :: snaps) = snapLine x ++ '\n' :: undoText snaps := by
        simp [undoText]
      rw [htext]
      show (lines _).filterMap readSnap = _
      rw [lines_append _ hfeed, hcr, List.filterMap_cons, readSnap_snapLine hx]
      exact congrArg (x :: ·) (ih hsnaps)

/-- The snapshot of settings that are saved in full. -/
theorem legible_snap (hplain : Plain origin) : ∀ x ∈ snap origin, x.Legible := by
  intro x hx
  obtain ⟨svc, hsvc, rfl⟩ := List.mem_map.mp hx
  exact ⟨hplain.name svc hsvc, (hplain.kept _ svc hsvc).legible, (hplain.kept _ svc hsvc).legible⟩

/-! ## Proxies put in place -/

@[simp] theorem proxies_put (s : Settings) (kind : Kind) (svc : Str) :
    (s.put kind svc st).proxies kind svc = st := if_pos ⟨rfl, rfl⟩

theorem put_put (s : Settings) (kind : Kind) (svc : Str) (st' : ProxyState) :
    (s.put kind svc st).put kind svc st' = s.put kind svc st' := by
  refine congrArg (Settings.mk s.listing) (funext fun kind' => funext fun svc' => ?_)
  show (if _ then _ else if _ then _ else _) = if _ then _ else _
  split <;> simp_all

/-- A proxy of a service that is listed is put in place, with its server if it was off. -/
theorem Near.put {s : Settings} (h : Near origin s) {kind : Kind} {svc : Str}
    (hsvc : svc ∈ services origin.listing)
    (hoff : (origin.proxies kind svc).enabled = false →
      st.server = (origin.proxies kind svc).server ∧ st.port = (origin.proxies kind svc).port) :
    Near origin (s.put kind svc st) := by
  refine ⟨h.listing, fun kind' svc' hother => ?_, fun kind' svc' hoff' => ?_⟩
  · refine (if_neg ?_).trans (h.others kind' svc' hother)
    rintro ⟨-, rfl⟩
    exact hother hsvc
  · by_cases hsame : kind' = kind ∧ svc' = svc
    · obtain ⟨rfl, rfl⟩ := hsame
      rw [proxies_put]
      exact hoff hoff'
    · have hkept : (s.put kind svc st).proxies kind' svc' = s.proxies kind' svc' := if_neg hsame
      rw [hkept]
      exact h.off kind' svc' hoff'

/-- The undo file has the settings of before, and nothing else has been changed. -/
structure Saved (origin : Settings) (w : World) : Prop where
  load : desktop.load w = some (snap origin)
  near : Near origin w.settings

theorem Saved.restorable (h : Saved origin w) : desktop.Restorable origin w := .inl ⟨h.load, h.near⟩

theorem Saved.put (h : Saved origin w) {kind : Kind} {svc : Str}
    (hsvc : svc ∈ services origin.listing)
    (hoff : (origin.proxies kind svc).enabled = false →
      st.server = (origin.proxies kind svc).server ∧ st.port = (origin.proxies kind svc).port) :
    Saved origin { w with settings := w.settings.put kind svc st } :=
  ⟨h.load, h.near.put hsvc hoff⟩

/-! ## Taking the settings back -/

theorem safe_run_back (hk : k ≠ .on) {o : Op} (hsaved : Saved origin (effect o w))
    {Q : Unit → World → Prop} {E : Fault → World → Prop} (hQ : Q () (effect o w)) :
    (ignored (run o) : Action Unit).Safe effect (desktop.contract origin k) Q E w := by
  have hback := Desktop.safe_perform_back (D := desktop) (ε := Fault) (E := E) hk
    hsaved.restorable hQ
  rw [safe_perform] at hback
  rw [safe_ignored, run, safe_must]
  exact ⟨hback true, hback false⟩

theorem safe_restoreOne (hk : k ≠ .on) (hplain : Plain origin) (h : Saved origin w) {kind : Kind}
    {svc : Str} (hsvc : svc ∈ services origin.listing) {Q : Unit → World → Prop}
    {E : Fault → World → Prop}
    (hQ : Q () { w with settings := w.settings.put kind svc (origin.proxies kind svc) }) :
    (restoreOne svc kind (origin.proxies kind svc)).Safe effect (desktop.contract origin k) Q E w := by
  have hkept := hplain.kept kind svc hsvc
  have hback : Saved origin { w with settings := w.settings.put kind svc (origin.proxies kind svc) } :=
    h.put hsvc fun _ => ⟨rfl, rfl⟩
  rw [ProxyState.Kept] at hkept
  rw [restoreOne]
  split at hkept
  · next hon =>
      obtain ⟨hserver, hport, -⟩ := hkept
      have hst : (⟨true, (origin.proxies kind svc).server, (origin.proxies kind svc).port⟩ : ProxyState) =
          origin.proxies kind svc := by
        rw [← hon]
      have hstate : effect (.setState kind svc true)
          { w with settings := w.settings.put kind svc (origin.proxies kind svc) } =
            { w with settings := w.settings.put kind svc (origin.proxies kind svc) } := by
        show World.mk ((w.settings.put kind svc _).put kind svc _) w.undo = _
        rw [put_put, proxies_put, ← hst]
      have hproxy : effect (.setProxy kind svc (origin.proxies kind svc).server
          (origin.proxies kind svc).port) w =
            { w with settings := w.settings.put kind svc (origin.proxies kind svc) } := by
        show World.mk (w.settings.put kind svc _) w.undo = _
        rw [hst]
      rw [if_pos ⟨hon, hserver, hport⟩, safe_bind]
      refine safe_run_back hk (by rw [hproxy]; exact hback) ?_
      rw [hproxy]
      refine safe_run_back hk (by rw [hstate]; exact hback) ?_
      rw [hstate]
      exact hQ
  · next hoff =>
      have hoff := Bool.eq_false_iff.mpr hoff
      have hstate : effect (.setState kind svc false) w =
          { w with settings := w.settings.put kind svc (origin.proxies kind svc) } := by
        obtain ⟨hserver, hport⟩ := h.near.off kind svc hoff
        show World.mk (w.settings.put kind svc ⟨false, (w.settings.proxies kind svc).server,
          (w.settings.proxies kind svc).port⟩) w.undo = _
        rw [hserver, hport, ← hoff]
      rw [if_neg fun h => by simp [hoff] at h]
      refine safe_run_back hk (by rw [hstate]; exact hback) ?_
      rw [hstate]
      exact hQ

/-- The proxies of the services that are not among the snapshots are back. -/
def Back (origin : Settings) (svcs : List Str) (s : Settings) : Prop :=
  ∀ kind svc, svc ∉ svcs → s.proxies kind svc = origin.proxies kind svc

theorem Back.put {svc : Str} {svcs : List Str} {s : Settings} (h : Back origin (svc :: svcs) s) :
    Back origin svcs ((s.put .web svc (origin.proxies .web svc)).put .secure svc
      (origin.proxies .secure svc)) := by
  intro kind svc' hsvc'
  show (if _ then _ else if _ then _ else _) = _
  split
  · next hsame =>
      obtain ⟨rfl, rfl⟩ := hsame
      rfl
  · next hsecure =>
      split
      · next hsame =>
          obtain ⟨rfl, rfl⟩ := hsame
          rfl
      · next hweb =>
          refine h kind svc' fun hmem => ?_
          rcases List.mem_cons.mp hmem with rfl | hmem
          · cases kind
            · exact hweb ⟨rfl, rfl⟩
            · exact hsecure ⟨rfl, rfl⟩
          · exact hsvc' hmem

theorem safe_restoreAll (hk : k ≠ .on) (hplain : Plain origin) {svcs : List Str}
    (hsvcs : ∀ svc ∈ svcs, svc ∈ services origin.listing) {w : World} (h : Saved origin w)
    (hback : Back origin svcs w.settings) :
    (restoreAll (svcs.map fun svc => ⟨svc, origin.proxies .web svc, origin.proxies .secure svc⟩)).Safe
      effect (desktop.contract origin k) (fun _ w' => Saved origin w' ∧ w'.settings = origin)
      (fun _ _ => False) w := by
  induction svcs generalizing w with
  | nil =>
      refine ⟨h, ?_⟩
      obtain ⟨⟨listing, proxies⟩, undo⟩ := w
      have hproxies : proxies = origin.proxies :=
        funext fun kind => funext fun svc => hback kind svc (List.not_mem_nil)
      have hlisting : listing = origin.listing := h.near.listing
      rw [hproxies, hlisting]
  | cons svc svcs ih =>
      obtain ⟨hsvc, hsvcs⟩ := List.forall_mem_cons.mp hsvcs
      rw [List.map_cons, restoreAll, safe_bind, restoreService, safe_bind]
      refine safe_restoreOne hk hplain h hsvc ?_
      refine safe_restoreOne hk hplain (h.put hsvc fun _ => ⟨rfl, rfl⟩) hsvc ?_
      exact ih hsvcs ((h.put hsvc fun _ => ⟨rfl, rfl⟩).put hsvc fun _ => ⟨rfl, rfl⟩) hback.put

theorem safe_removeUndo (hk : k ≠ .on) (hset : w.settings = origin) {E : Fault → World → Prop} :
    (perform .removeUndo : Action Unit).Safe effect (desktop.contract origin k)
      (fun _ => desktop.Result origin k) E w := by
  have hgone : desktop.Restorable origin (effect .removeUndo w) := .inr ⟨rfl, hset⟩
  exact Desktop.safe_perform_back hk hgone ⟨hgone, fun _ => hset⟩

/-- The snapshots are applied and the undo file removed. -/
theorem safe_back (hk : k ≠ .on) (hplain : Plain origin) (h : Saved origin w)
    {E : Fault → World → Prop} :
    (do
      restoreAll (snap origin)
      perform .removeUndo : Action Unit).Safe effect (desktop.contract origin k)
        (fun _ => desktop.Result origin k) E w := by
  rw [safe_bind]
  refine (safe_restoreAll hk hplain (fun _ h => h) h h.near.others).mono ?_ fun _ _ hf => hf.elim
  rintro _ w' ⟨-, hset⟩
  exact safe_removeUndo hk hset

/-- There is nothing to apply. -/
theorem safe_back_nil (hk : k ≠ .on) (hset : w.settings = origin) {E : Fault → World → Prop} :
    (do
      restoreAll []
      perform .removeUndo : Action Unit).Safe effect (desktop.contract origin k)
        (fun _ => desktop.Result origin k) E w := by
  rw [safe_bind]
  exact safe_removeUndo hk hset

/-- The undo file has the settings of before, or it is of no use and they are in place. -/
theorem saved_or {snaps : List ServiceSnap} (h : desktop.Restorable origin w)
    (hload : loadUndo w.undo = some snaps) :
    snaps = snap origin ∧ Saved origin w ∨ snaps = [] ∧ w.settings = origin := by
  rcases h with ⟨h, hnear⟩ | ⟨h, hset⟩
  · obtain ⟨hsnaps, -⟩ := Option.filter_eq_some_iff.mp h
    exact .inl ⟨Option.some.inj (hload.symm.trans hsnaps), h, hnear⟩
  · refine .inr ⟨?_, hset⟩
    have hload : desktop.load w = (some snaps).filter (!·.isEmpty) := congrArg (Option.filter _) hload
    cases snaps with
    | nil => rfl
    | cons x snaps => cases h.symm.trans hload

theorem of_loadUndo_none (h : desktop.Restorable origin w) (hload : loadUndo w.undo = none) :
    w.settings = origin := by
  rcases h with ⟨h, -⟩ | ⟨-, hset⟩
  · have hload : desktop.load w = Option.filter (!·.isEmpty) none := congrArg (Option.filter _) hload
    cases h.symm.trans hload
  · exact hset

theorem safe_restore (hplain : Plain origin) (h : desktop.Restorable origin w) :
    restore.Safe effect (desktop.contract origin .off) (fun _ => desktop.Result origin .off)
      (fun _ => desktop.Result origin .off) w := by
  have hk : Call.off ≠ .on := by simp
  rw [restore, safe_bind, safe_get]
  split
  · next snaps hload =>
      rcases saved_or h hload with ⟨rfl, h⟩ | ⟨rfl, hset⟩
      · exact safe_back hk hplain h
      · exact safe_back_nil hk hset
  · next hload => exact safe_removeUndo hk (of_loadUndo_none h hload)

/-! ## Recovering -/

/-- A query of `recover_orphaned` fails only where that does no harm. -/
theorem safe_query (h : desktop.Restorable origin w) {o : Op} (ho : o.isQuery = true)
    (heffect : effect o w = w) {Q : Bool → World → Prop} {E : Fault → World → Prop}
    (hQ : ∀ ok, ok = true ∨ w.settings = origin → Q ok w) :
    (attempt o : Action Bool).Safe effect (desktop.contract origin .recoverOrphaned) Q E w := by
  rw [safe_attempt]
  intro ok hok
  have hw : after effect o ok w = w := by cases ok <;> simp [heffect]
  rw [hw]
  refine ⟨?_, hQ ok ?_⟩
  · show desktop.Restorable origin (after effect o ok w)
    rw [hw]
    exact h
  · cases ok with
    | true => exact .inl rfl
    | false => exact .inr ((hok rfl).2.2 rfl ho)

/-- The proxies of this client are found to be its own. -/
theorem inbound_read (h : st.Inbound) : ((lines (report st)).foldl readLine {}).Inbound := by
  have hreport : report st = report ⟨true, inboundHost, inboundPort⟩ := by
    obtain ⟨on, server, port⟩ := st
    obtain ⟨hon, hserver, hport⟩ := h
    rw [report, report, hport, show on = true from hon, show server = inboundHost from hserver]
  have hlegible : ProxyState.Legible ⟨true, inboundHost, inboundPort⟩ :=
    ⟨⟨7890, by decide, rfl⟩, by decide, by decide, by decide, by decide⟩
  rw [hreport, read_report hlegible]
  exact ⟨rfl, rfl, rfl⟩

theorem safe_anyInbound (h : desktop.Restorable origin w) {E : Fault → World → Prop}
    {svcs : List Str} (hours : (∃ svc ∈ svcs, (w.settings.proxies .web svc).Inbound) ∨
      w.settings = origin) :
    (anyInbound svcs).Safe effect (desktop.contract origin .recoverOrphaned)
      (fun ours w' => w' = w ∧ (ours = false → w.settings = origin)) E w := by
  induction svcs with
  | nil =>
      refine ⟨rfl, fun _ => hours.resolve_left ?_⟩
      rintro ⟨svc, hsvc, -⟩
      cases hsvc
  | cons svc svcs ih =>
      rw [anyInbound, safe_bind, capture, safe_bind]
      refine safe_query h rfl rfl fun ok hok => ?_
      split
      · rw [safe_get]
        split
        · exact ⟨rfl, by simp⟩
        · next hother =>
            refine ih (hours.imp_left ?_)
            rintro ⟨svc', hsvc', hin⟩
            rcases List.mem_cons.mp hsvc' with rfl | hsvc'
            · exact absurd (inbound_read hin) hother
            · exact ⟨svc', hsvc', hin⟩
      · next hfailed =>
          rw [safe_pure, if_neg (by decide)]
          exact ih (.inr (hok.resolve_left hfailed))

theorem safe_currentlyOurs (h : desktop.Restorable origin w)
    (hours : desktop.Ours w ∨ w.settings = origin) {E : Fault → World → Prop} :
    currentlyOurs.Safe effect (desktop.contract origin .recoverOrphaned)
      (fun ours w' => w' = w ∧ (ours = false → w.settings = origin)) E w := by
  rw [currentlyOurs, safe_bind, listServices, safe_bind]
  refine safe_query h rfl rfl fun ok hok => ?_
  split
  · exact safe_anyInbound h hours
  · next hfailed => exact safe_anyInbound h (.inr (hok.resolve_left hfailed))

theorem safe_recoverOrphaned (hplain : Plain origin) (h : desktop.Restorable origin w)
    (hours : desktop.Ours w ∨ w.settings = origin) :
    recoverOrphaned.Safe effect (desktop.contract origin .recoverOrphaned)
      (fun _ => desktop.Result origin .recoverOrphaned)
      (fun _ => desktop.Result origin .recoverOrphaned) w := by
  have hk : Call.recoverOrphaned ≠ .on := by simp
  rw [recoverOrphaned, safe_bind, safe_get]
  split
  · next hload => exact ⟨h, fun _ => of_loadUndo_none h hload⟩
  · next snaps hload =>
      rw [safe_bind]
      refine (safe_currentlyOurs h hours).mono ?_ fun _ _ h => h
      rintro ours _ ⟨rfl, hother⟩
      split
      · rcases saved_or h hload with ⟨rfl, h⟩ | ⟨rfl, hset⟩
        · exact safe_back hk hplain h
        · exact safe_back_nil hk hset
      · next hno => exact safe_removeUndo hk (hother (Bool.eq_false_iff.mpr hno))

/-! ## Putting the settings in place -/

/-- A query of `set(true)` does not fail. -/
theorem safe_capture (h : desktop.Restorable origin w) {kind : Kind} {svc : Str}
    (hlegible : (w.settings.proxies kind svc).Legible) {Q : ProxyState → World → Prop}
    {E : Fault → World → Prop} (hQ : Q (w.settings.proxies kind svc) w) :
    (capture kind svc).Safe effect (desktop.contract origin .on) Q E w := by
  rw [capture, safe_bind, safe_attempt]
  intro ok hok
  cases ok with
  | true =>
      refine ⟨h, ?_⟩
      rw [if_pos rfl, safe_get, after_true]
      show Q ((lines (report (w.settings.proxies kind svc))).foldl readLine {}) w
      rw [read_report hlegible]
      exact hQ
  | false => cases (hok rfl).2

theorem safe_captureAll (hplain : Plain origin) (h : desktop.Restorable origin w)
    (hset : w.settings = origin) {E : Fault → World → Prop} {svcs : List Str}
    (hsvcs : ∀ svc ∈ svcs, svc ∈ services origin.listing) :
    (captureAll svcs).Safe effect (desktop.contract origin .on)
      (fun snaps w' => snaps = (svcs.map fun svc =>
        ⟨svc, origin.proxies .web svc, origin.proxies .secure svc⟩) ∧ w' = w) E w := by
  induction svcs with
  | nil => exact ⟨rfl, rfl⟩
  | cons svc svcs ih =>
      obtain ⟨hsvc, hsvcs⟩ := List.forall_mem_cons.mp hsvcs
      have hlegible : ∀ kind, (w.settings.proxies kind svc).Legible := fun kind => by
        rw [hset]
        exact (hplain.kept kind svc hsvc).legible
      rw [captureAll, safe_bind]
      refine safe_capture h (hlegible .web) ?_
      rw [safe_bind]
      refine safe_capture h (hlegible .secure) ?_
      rw [safe_bind]
      refine (ih hsvcs).mono ?_ fun _ _ h => h
      rintro _ _ ⟨rfl, rfl⟩
      rw [hset]
      exact ⟨rfl, rfl⟩

theorem near_refl (s : Settings) : Near s s :=
  ⟨rfl, fun _ _ _ => rfl, fun _ _ _ => ⟨rfl, rfl⟩⟩

theorem load_undoText (hplain : Plain origin) (hsome : services origin.listing ≠ []) :
    desktop.load ⟨origin, some (undoText (snap origin))⟩ = some (snap origin) := by
  have hsnap : snap origin ≠ [] := fun h => hsome (List.map_eq_nil_iff.mp h)
  show Option.filter (!·.isEmpty) (loadUndo (some (undoText (snap origin)))) = _
  rw [loadUndo_undoText (legible_snap hplain)]
  exact Option.filter_eq_some_iff.mpr ⟨rfl, by simpa using hsnap⟩

theorem safe_writeUndo (hplain : Plain origin) (hset : w.settings = origin)
    (hsome : services origin.listing ≠ []) {Q : Unit → World → Prop} {E : Fault → World → Prop}
    (hQ : ∀ w', Saved origin w' → Q () w') :
    (writeUndo (snap origin)).Safe effect (desktop.contract origin .on) Q E w := by
  subst hset
  have hsaved : Saved w.settings ⟨w.settings, some (undoText (snap w.settings))⟩ :=
    ⟨load_undoText hplain hsome, near_refl _⟩
  rw [writeUndo, safe_bind]
  refine Desktop.safe_perform_sure rfl (.inr ⟨rfl, rfl⟩) ?_
  exact Desktop.safe_perform_sure rfl hsaved.restorable (hQ _ hsaved)

/-- Once the snapshots are saved, every command leaves them there. -/
theorem safe_run (h : Saved origin w) {o : Op} (hsaved : Saved origin (effect o w))
    {Q : Unit → World → Prop} (hQ : Q () (effect o w)) :
    (run o).Safe effect (desktop.contract origin .on) Q (fun _ => desktop.Result origin .on) w := by
  rw [run, safe_must]
  exact ⟨fun _ => ⟨hsaved.restorable, hQ⟩, fun _ => ⟨h.restorable, h.restorable, by simp⟩⟩

theorem Saved.setProxy (h : Saved origin w) (hplain : Plain origin) (kind : Kind) {svc : Str}
    (hsvc : svc ∈ services origin.listing) :
    Saved origin (effect (.setProxy kind svc inboundHost inboundPort) w) := by
  refine h.put hsvc fun hoff => ?_
  have hkept := hplain.kept kind svc hsvc
  rw [ProxyState.Kept, if_neg (by simp [hoff])] at hkept
  exact ⟨hkept.1.symm, hkept.2.symm⟩

theorem Saved.setState (h : Saved origin w) (kind : Kind) {svc : Str}
    (hsvc : svc ∈ services origin.listing) (on : Bool) :
    Saved origin (effect (.setState kind svc on) w) :=
  h.put hsvc fun hoff => h.near.off kind svc hoff

theorem safe_applyAll (hplain : Plain origin) {svcs : List Str}
    (hsvcs : ∀ svc ∈ svcs, svc ∈ services origin.listing) {w : World} (h : Saved origin w) :
    (applyAll svcs).Safe effect (desktop.contract origin .on)
      (fun _ => desktop.Result origin .on) (fun _ => desktop.Result origin .on) w := by
  induction svcs generalizing w with
  | nil => exact ⟨h.restorable, by simp⟩
  | cons svc svcs ih =>
      obtain ⟨hsvc, hsvcs⟩ := List.forall_mem_cons.mp hsvcs
      have hweb := h.setProxy hplain .web hsvc
      have hsecure := hweb.setProxy hplain .secure hsvc
      have hwebOn := hsecure.setState .web hsvc true
      have hsecureOn := hwebOn.setState .secure hsvc true
      rw [applyAll, safe_bind]
      refine safe_run h hweb ?_
      rw [safe_bind]
      refine safe_run hweb hsecure ?_
      rw [safe_bind]
      refine safe_run hsecure hwebOn ?_
      rw [safe_bind]
      refine safe_run hwebOn hsecureOn ?_
      exact ih hsvcs hsecureOn

theorem safe_apply (hplain : Plain origin) (h : desktop.Restorable origin w)
    (hset : w.settings = origin) :
    apply.Safe effect (desktop.contract origin .on) (fun _ => desktop.Result origin .on)
      (fun _ => desktop.Result origin .on) w := by
  have hfail : desktop.Result origin .on w := ⟨h, by simp⟩
  rw [apply, safe_bind, listServices, safe_bind, safe_attempt]
  intro ok _
  have hw : after effect .list ok w = w := by cases ok <;> rfl
  refine ⟨?_, ?_⟩
  · show desktop.Restorable origin (after effect .list ok w)
    rw [hw]
    exact h
  rw [hw]
  cases ok with
  | false => exact hfail
  | true =>
      rw [if_pos rfl, safe_get, hset]
      split
      · exact hfail
      · next hsome =>
          have hsome : services origin.listing ≠ [] := by simpa using hsome
          rw [safe_bind]
          refine (safe_captureAll hplain h hset fun _ h => h).mono ?_ fun _ _ h => h
          rintro _ w' ⟨rfl, hw'⟩
          rw [safe_bind]
          refine safe_writeUndo hplain (hw' ▸ hset) hsome fun w' hsaved => ?_
          exact safe_applyAll hplain (fun _ h => h) hsaved

/-- Every call is safe where it may be made. -/
theorem safe_body (hplain : Plain origin) (h : desktop.Restorable origin w)
    (hcall : desktop.Callable origin k w) :
    (machine.body k).Safe desktop.effect (desktop.contract origin k)
      (fun _ => desktop.Result origin k) (fun _ => desktop.Result origin k) w := by
  cases k with
  | on => exact safe_apply hplain h hcall
  | off => exact safe_restore hplain h
  | recoverOrphaned => exact safe_recoverOrphaned hplain h hcall

theorem restored (hplain : Plain origin) {es : List (Machine.Event Call)}
    {st : Machine.State World Op Fault Unit Call}
    (h : Run (desktop.SettledSteps origin machine) (init origin) es st) {clean : Bool}
    {r : Except Fault Unit} (hend : st.Ended k clean r) (hk : k ≠ .on) :
    st.world.settings = origin :=
  Desktop.restored_run rfl (fun _ => rfl) (fun _ _ => safe_body hplain) h (.inr ⟨rfl, rfl⟩) hend hk

end Macos

end Sysproxy

end RustClash
