import RustClash.Sysproxy.GnomeInvariant
import RustClash.Sysproxy.MacosInvariant

/-!
# The system proxy of macOS and GNOME

Settled runs of either take the settings back.  A `set(true)` that is called again saves what
the first has done.
-/

namespace RustClash

namespace Sysproxy

namespace Desktop

theorem desktops_restored (services : Macos.Settings) (keys : Gnome.Settings) :
    (Macos.Plain services → ∀ es st,
      Run (Macos.desktop.SettledSteps services Macos.machine) (Macos.init services) es st →
        ∀ k clean r, st.Ended k clean r → k ≠ .on → st.world.settings = services) ∧
    (Gnome.Plain keys → ∀ es st,
      Run (Gnome.desktop.SettledSteps keys Gnome.machine) (Gnome.init keys) es st →
        ∀ k clean r, st.Ended k clean r → k ≠ .on → st.world.settings = keys) :=
  ⟨fun hplain _ _ h _ _ _ hend hk => Macos.restored hplain h hend hk,
    fun hplain _ _ h _ _ _ hend hk => Gnome.restored hplain h hend hk⟩

/-! ## Runs -/

variable {σ ω ε α : Type}

/-- A `set(false)` has ended well, and the world is as wanted. -/
def endsOff (p : σ → Bool) (st : Machine.State σ ω ε α Call) : Bool :=
  match st.call with
  | some ⟨.off, .done _, true⟩ => p st.world
  | _ => false

theorem ended_of {p : σ → Bool} {st : Machine.State σ ω ε α Call} (h : endsOff p st = true) :
    (∃ r, st.Ended .off true r) ∧ p st.world = true := by
  simp only [endsOff] at h
  split at h
  · next r hc => exact ⟨⟨r, hc⟩, h⟩
  · cases h

/-- One call in full, and a `set(false)` up to its end. -/
def onOff (on off : Nat) : List (Machine.Event Call) :=
  List.replicate on (.go true) ++ [.ret, .call .off] ++ List.replicate off (.go true)

theorem sure_onOff {on off : Nat} : ∀ e ∈ onOff on off, e ∈ [.go true, .ret, .call .off] := by
  simp only [onOff, List.mem_append, List.mem_replicate, List.mem_cons, List.not_mem_nil]
  rintro e ((⟨-, rfl⟩ | rfl | rfl | h) | ⟨-, rfl⟩)
  · simp
  · simp
  · simp
  · exact h.elim
  · simp

/-- A service with a proxy of its own. -/
def oneService : Macos.Settings where
  listing := ['W', 'i']
  proxies _ _ := ⟨true, ['p'], 80⟩

/-- No proxy. -/
def noProxy : Gnome.Settings
  | .mode => ['\'', 'n', 'o', 'n', 'e', '\'']
  | .useSame => ['t', 'r', 'u', 'e']
  | .httpEnabled => ['f', 'a', 'l', 's', 'e']
  | .httpHost => ['\'', '\'']
  | .httpPort => ['8', '0', '8', '0']
  | .httpsHost => ['\'', '\'']
  | .httpsPort => ['0']

theorem plain_oneService : Macos.Plain oneService := by
  have hkept : Macos.ProxyState.Kept ⟨true, ['p'], 80⟩ :=
    ⟨by simp, by decide, by decide, by decide, by decide, by decide, by decide⟩
  exact ⟨by decide, fun _ _ _ => hkept⟩

theorem plain_noProxy : Gnome.Plain noProxy :=
  ⟨fun k => by cases k <;> decide, fun k => by cases k <;> decide, by decide⟩

/-- `set(true)` and `set(false)` on either. -/
theorem desktops_restored_onOff :
    (∃ es st r, Run (Macos.desktop.SettledSteps oneService Macos.machine) (Macos.init oneService) es st ∧
      st.Ended .off true r ∧ st.world.settings = oneService) ∧
    (∃ es st r, Run (Gnome.desktop.SettledSteps noProxy Gnome.machine) (Gnome.init noProxy) es st ∧
      st.Ended .off true r ∧ st.world.settings = noProxy) := by
  constructor
  · have hend : ((onOff 12 6).foldlM Macos.machine.step
        ⟨⟨oneService, none⟩, some ⟨.on, Macos.apply, true⟩⟩).any (endsOff fun _ => true) = true := by
      decide
    obtain ⟨st, hst, hend⟩ := (Option.any_eq_true _ _).mp hend
    obtain ⟨⟨r, hend⟩, -⟩ := ended_of hend
    have hrun : Run (Macos.desktop.SettledSteps oneService Macos.machine) (Macos.init oneService)
        (.call .on :: onOff 12 6) st := .cons ⟨rfl, rfl⟩ (run_of_sure hst sure_onOff)
    exact ⟨_, st, r, hrun, hend,
      (desktops_restored oneService noProxy).1 plain_oneService _ _ hrun _ _ _ hend (by simp)⟩
  · have hend : ((onOff 23 9).foldlM Gnome.machine.step
        ⟨⟨noProxy, none⟩, some ⟨.on, Gnome.apply, true⟩⟩).any (endsOff fun _ => true) = true := by
      decide
    obtain ⟨st, hst, hend⟩ := (Option.any_eq_true _ _).mp hend
    obtain ⟨⟨r, hend⟩, -⟩ := ended_of hend
    have hrun : Run (Gnome.desktop.SettledSteps noProxy Gnome.machine) (Gnome.init noProxy)
        (.call .on :: onOff 23 9) st := .cons ⟨rfl, rfl⟩ (run_of_sure hst sure_onOff)
    exact ⟨_, st, r, hrun, hend,
      (desktops_restored oneService noProxy).2 plain_noProxy _ _ hrun _ _ _ hend (by simp)⟩

/-- Only acts of `set(true)` fail, and nothing is cut off. -/
def FailsOn (st : Machine.State σ ω ε α Call) : Machine.Event Call → Prop
  | .go ok => ok = true ∨ st.next.all fun act => act.1 = .on
  | .crash => False
  | _ => True

instance (st : Machine.State σ ω ε α Call) (e : Machine.Event Call) : Decidable (FailsOn st e) :=
  match e with
  | .go _ => inferInstanceAs (Decidable (_ ∨ _))
  | .crash => .isFalse id
  | .call _ => .isTrue trivial
  | .ret => .isTrue trivial

/-- The second command of `set(true)` fails, and `set(true)` is called again: what it saves is the
mode that the first has set. -/
theorem not_desktops_restored : ¬ ∀ (origin : Gnome.Settings) (es : List (Machine.Event Call))
    (st : Machine.State Gnome.World Gnome.Op Gnome.Fault Unit Call) (k : Call) (r : Except Gnome.Fault Unit),
    ¬ Gnome.desktop.Ours ⟨origin, none⟩ →
    Run (fun s e t => Gnome.machine.step s e = some t ∧ FailsOn s e) (Gnome.init origin) es st →
    st.Ended k true r → k ≠ .on → st.world.settings = origin := by
  intro h
  let es : List (Machine.Event Call) := .call .on :: List.replicate 17 (.go true) ++
    [.go false, .ret, .call .on] ++ onOff 23 9
  have hend : (es.foldlM (fun st e => if FailsOn st e then Gnome.machine.step st e else none)
      (Gnome.init noProxy)).any (endsOff fun w => w.settings .mode = Gnome.formatted Gnome.manual) =
        true := by decide
  obtain ⟨st, hst, hend⟩ := (Option.any_eq_true _ _).mp hend
  obtain ⟨⟨r, hend⟩, hmode⟩ := ended_of hend
  have hours : ¬ Gnome.desktop.Ours ⟨noProxy, none⟩ := by
    show ¬ Gnome.Ours _ _ _
    decide
  have hset := h noProxy es st .off r hours (run_of_guarded hst) hend (by simp)
  rw [hset] at hmode
  revert hmode
  decide

end Desktop

end Sysproxy

end RustClash
