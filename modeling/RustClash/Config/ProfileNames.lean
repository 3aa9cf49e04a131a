import RustClash.Config.Profiles
import RustClash.Lib.Lts

/-!
# Names of profiles

The profiles of a store have distinct names, and one of them is the default as long as
there are any.  `Effect` says what a call may change: every call that does not fail has
a profile that it is about, and leaves the others alone.
-/

namespace RustClash

namespace Config

namespace ProfileStore

def names (st : ProfileStore) : List Str := st.profiles.map (·.name)

variable {st : ProfileStore} {n uuid : Str} {i : Nat} {p : ProfileEntry}

theorem nameExists_iff : st.nameExists n = true ↔ n ∈ st.names := by
  simp [nameExists, names]

theorem position_some (h : st.position n = some (i, p)) :
    st.profiles[i]? = some p ∧ p.name = n := by
  simp only [position, Option.pure_def, Option.bind_eq_bind] at h
  obtain ⟨j, hj, h⟩ := Option.bind_eq_some_iff.mp h
  obtain ⟨q, hq, h⟩ := Option.bind_eq_some_iff.mp h
  cases h
  obtain ⟨hlt, hname, -⟩ := List.findIdx?_eq_some_iff_getElem.mp hj
  rw [List.getElem?_eq_getElem hlt] at hq
  cases hq
  exact ⟨List.getElem?_eq_getElem hlt, by simpa using hname⟩

/-- No name of a profile ends with the UUID. -/
def Unused (st : ProfileStore) (uuid : Str) : Prop := ∀ p ∈ st.profiles, ¬ uuid <:+ p.name

instance : Decidable (st.Unused uuid) := inferInstanceAs (Decidable (∀ p ∈ st.profiles, _))

/-- The name of a new profile is a new name. -/
theorem allocateUniqueName_new (preferred : Option Str) (h : st.Unused uuid) :
    st.allocateUniqueName uuid preferred ∉ st.names := by
  simp only [allocateUniqueName]
  generalize ((preferred.map trim).filter (!·.isEmpty)).getD "Proxy".toList = base
  split
  · next hbase =>
      rw [← nameExists_iff]
      simpa using hbase
  · split
    · next i hi =>
        have hfree := List.find?_some hi
        rw [← nameExists_iff]
        simpa using hfree
    · intro hmem
      obtain ⟨p, hp, hname⟩ := List.mem_map.mp hmem
      refine h p hp ⟨base ++ ['#'], ?_⟩
      rw [hname, List.append_assoc]
      rfl

/-! ## Well-formed stores -/

structure WF (st : ProfileStore) : Prop where
  distinct : st.names.Nodup
  default_mem : ∀ n, st.defaultName = some n → n ∈ st.names
  default_isSome : st.profiles ≠ [] → st.defaultName.isSome

theorem WF.new : WF .new := ⟨List.nodup_nil, nofun, fun h => absurd rfl h⟩

theorem WF.default_none (h : st.WF) : st.defaultName = none ↔ st.profiles = [] := by
  constructor
  · intro hnone
    refine not_not.mp fun hne => ?_
    have hsome := h.default_isSome hne
    rw [hnone] at hsome
    cases hsome
  · intro hnil
    cases hdefault : st.defaultName with
    | none => rfl
    | some n =>
        have hmem := h.default_mem n hdefault
        rw [names, hnil] at hmem
        cases hmem

/-- The default profile is the active one. -/
theorem WF.active (h : st.WF) (hdefault : st.defaultName = some n) :
    ∃ p ∈ st.profiles, p.name = n ∧ st.active = some p := by
  obtain ⟨q, hq, hname⟩ := List.mem_map.mp (h.default_mem n hdefault)
  cases hfind : st.profiles.find? (·.name = n) with
  | none =>
      have hnone := List.find?_eq_none.mp hfind q hq
      exact absurd hname (by simpa using hnone)
  | some p =>
      refine ⟨p, List.mem_of_find?_eq_some hfind, by simpa using List.find?_some hfind, ?_⟩
      rw [ProfileStore.active, hdefault, Option.bind_some, hfind]
      rfl

/-! ## What a call changes -/

/-- The profile that follows the one that was at `i`, or the first one. -/
def successor (profiles : List ProfileEntry) (i : Nat) : Option Str :=
  (profiles[i]?.or profiles.head?).map (·.name)

/-- What a call leaves of a store, by what it answers. -/
inductive Effect (before : ProfileStore) : ProfileOp → Outcome → ProfileStore → Prop
| failed {op : ProfileOp} :
  Effect before op .failed before
| addedLocal {uuid : Str} {name : Option Str} {content : Bytes} {entry : ProfileEntry} :
  entry.name ∉ before.names ->
  Effect before (.addLocal uuid name content) (.added entry)
    ⟨before.profiles ++ [entry], some entry.name⟩
| addedCloud {uuid url : Str} {name : Option Str} {content : Bytes}
    {info : Option SubscriptionUserInfo} {entry : ProfileEntry} :
  entry.name ∉ before.names ->
  Effect before (.addCloud uuid name url content info) (.added entry)
    ⟨before.profiles ++ [entry], some entry.name⟩
| updated {name : Str} {content : Bytes} {info : Option SubscriptionUserInfo} {i : Nat}
    {p p' : ProfileEntry} :
  before.profiles[i]? = some p ->
  p.name = name ->
  p.kind = .cloud ->
  p'.name = p.name ->
  p'.kind = p.kind ->
  p'.url = p.url ->
  Effect before (.updateCloud name content info) .done
    ⟨before.profiles.set i p', before.defaultName⟩
| defaulted {name : Str} :
  name ∈ before.names ->
  Effect before (.setDefault name) .done ⟨before.profiles, some name⟩
| removed {name : Str} {i : Nat} {p : ProfileEntry} :
  before.profiles[i]? = some p ->
  p.name = name ->
  Effect before (.remove name) .done ⟨before.profiles.eraseIdx i,
    if before.defaultName = some name then successor (before.profiles.eraseIdx i) i
    else before.defaultName⟩

theorem map_name_set {profiles : List ProfileEntry} {p' : ProfileEntry}
    (hp : profiles[i]? = some p) (hname : p'.name = p.name) :
    (profiles.set i p').map (·.name) = profiles.map (·.name) := by
  rw [List.map_set, hname]
  have hget : (profiles.map (·.name))[i]? = some p.name := by rw [List.getElem?_map, hp]; rfl
  obtain ⟨hlt, hi⟩ := List.getElem?_eq_some_iff.mp hget
  rw [← hi, List.set_getElem_self]

/-- What is not the name of the profile at `i` stays a name without it. -/
theorem mem_map_eraseIdx {profiles : List ProfileEntry} (hp : profiles[i]? = some p)
    (hn : n ∈ profiles.map (·.name)) (hne : n ≠ p.name) :
    n ∈ (profiles.eraseIdx i).map (·.name) := by
  obtain ⟨q, hq, rfl⟩ := List.mem_map.mp hn
  obtain ⟨j, hj⟩ := List.mem_iff_getElem?.mp hq
  refine List.mem_map_of_mem (List.mem_eraseIdx_iff_getElem?.mpr ⟨j, ?_, hj⟩)
  rintro rfl
  rw [hj] at hp
  cases hp
  exact hne rfl

theorem successor_isSome {profiles : List ProfileEntry} (hne : profiles ≠ []) :
    (successor profiles i).isSome := by
  obtain ⟨q, rest, rfl⟩ := List.exists_cons_of_ne_nil hne
  rw [successor, Option.isSome_map, List.head?_cons]
  cases (q :: rest)[i]? <;> rfl

theorem successor_mem {profiles : List ProfileEntry} (h : successor profiles i = some n) :
    n ∈ profiles.map (·.name) := by
  rw [successor, Option.map_eq_some_iff] at h
  obtain ⟨q, hq, rfl⟩ := h
  refine List.mem_map_of_mem ?_
  rcases Option.or_eq_some_iff.mp hq with hat | ⟨-, hhead⟩
  · exact List.mem_of_getElem? hat
  · exact List.mem_of_head? hhead

/-- Whatever a call changes, the store stays well-formed. -/
theorem Effect.wf {st' : ProfileStore} {op : ProfileOp} {r : Outcome} (h : Effect st op r st')
    (hwf : st.WF) : st'.WF := by
  have hadded : ∀ entry : ProfileEntry, entry.name ∉ st.names →
      WF ⟨st.profiles ++ [entry], some entry.name⟩ := by
    intro entry hnew
    refine ⟨?_, ?_, fun _ => rfl⟩
    · rw [names, List.map_append, List.nodup_append]
      refine ⟨hwf.distinct, List.nodup_singleton _, ?_⟩
      rintro a ha b hb rfl
      rw [List.map_singleton, List.mem_singleton] at hb
      exact hnew (hb ▸ ha)
    · rintro n ⟨⟩
      simp [names]
  cases h with
  | failed => exact hwf
  | addedLocal hnew => exact hadded _ hnew
  | addedCloud hnew => exact hadded _ hnew
  | @updated name content info i p p' hp _ _ hname _ _ =>
      have hnames : names ⟨st.profiles.set i p', st.defaultName⟩ = st.names :=
        map_name_set hp hname
      refine ⟨hnames ▸ hwf.distinct, fun n hn => hnames ▸ hwf.default_mem n hn, fun hne => ?_⟩
      refine hwf.default_isSome fun hnil => hne ?_
      rw [hnil, List.set_nil]
  | defaulted hmem =>
      refine ⟨hwf.distinct, ?_, fun _ => rfl⟩
      rintro n ⟨⟩
      exact hmem
  | @removed name i p hp hname =>
      refine ⟨hwf.distinct.sublist ((List.eraseIdx_sublist _ _).map _), fun n hn => ?_, fun hne => ?_⟩
      · dsimp only at hn
        split at hn
        · exact successor_mem hn
        · next hother =>
            refine mem_map_eraseIdx hp (hwf.default_mem n hn) ?_
            rintro rfl
            rw [hname] at hn
            exact hother hn
      · dsimp only
        split
        · exact successor_isSome hne
        · refine hwf.default_isSome fun hnil => hne ?_
          rw [hnil, List.eraseIdx_nil]

end ProfileStore

/-! ## Calls -/

/-- The UUID of a call is new. -/
def ProfileOp.Fresh (st : ProfileStore) : ProfileOp → Prop
  | .addLocal uuid _ _ => st.Unused uuid
  | .addCloud uuid _ _ _ _ => st.Unused uuid
  | _ => True

instance (st : ProfileStore) (op : ProfileOp) : Decidable (op.Fresh st) :=
  match op with
  | .addLocal uuid _ _ => inferInstanceAs (Decidable (st.Unused uuid))
  | .addCloud uuid _ _ _ _ => inferInstanceAs (Decidable (st.Unused uuid))
  | .updateCloud _ _ _ => .isTrue trivial
  | .setDefault _ => .isTrue trivial
  | .remove _ => .isTrue trivial

namespace Stored

open ProfileStore

variable {sha : Sha256} {st : Stored} {op : ProfileOp}

theorem applyUserInfo_frame (entry : ProfileEntry) (info : Option SubscriptionUserInfo) :
    (applyUserInfo entry info).name = entry.name ∧ (applyUserInfo entry info).hash = entry.hash ∧
      (applyUserInfo entry info).kind = entry.kind ∧ (applyUserInfo entry info).url = entry.url := by
  cases info <;> exact ⟨rfl, rfl, rfl, rfl⟩

/-- The default name after a removal: it changes only if its profile is gone. -/
theorem defaultAfter_eq (hwf : st.store.WF) {i : Nat} {p : ProfileEntry}
    (hp : st.store.profiles[i]? = some p) :
    defaultAfter (st.store.profiles.eraseIdx i) i p.name st.store.defaultName =
      if st.store.defaultName = some p.name then successor (st.store.profiles.eraseIdx i) i
      else st.store.defaultName := by
  have hne : st.store.profiles ≠ [] := by
    intro hnil
    rw [hnil] at hp
    cases hp
  obtain ⟨d, hd⟩ := Option.isSome_iff_exists.mp (hwf.default_isSome hne)
  generalize hrest : st.store.profiles.eraseIdx i = rest
  rw [hd, defaultAfter]
  by_cases hsame : d = p.name
  · subst hsame
    rw [if_pos rfl, if_pos (Or.inl rfl), successor]
    cases rest with
    | nil => rfl
    | cons q rest =>
        rw [if_neg (by simp)]
        split
        · next hlt => rw [List.getElem?_eq_getElem hlt]; rfl
        · next hge => rw [List.getElem?_eq_none (Nat.not_lt.mp hge)]; rfl
  · have hmem := mem_map_eraseIdx hp (hwf.default_mem d hd) hsame
    rw [hrest] at hmem
    obtain ⟨q, hq, rfl⟩ := List.mem_map.mp hmem
    have hsome : some q.name ≠ some p.name := fun h => hsame (Option.some.inj h)
    rw [if_neg hsome, if_neg, if_neg]
    · rintro (h | h)
      · exact hsome h
      · simp only [Option.all_some, List.all_eq_true, decide_eq_true_eq] at h
        exact h q hq rfl
    · rw [List.isEmpty_iff]
      rintro rfl
      cases hq

/-! ## What a call does -/

theorem addCloud_cases (sha : Sha256) (st : Stored) (uuid : Str) (name : Option Str) (url : Str)
    (content : Bytes) (info : Option SubscriptionUserInfo) :
    (∃ e, st.addCloud sha uuid name url content info = (.error e, st)) ∨
      ∃ entry, entry.name = st.store.allocateUniqueName uuid name ∧
        entry.hash = ContentStore.sha256Hex sha content ∧
        st.addCloud sha uuid name url content info =
          (.ok entry, st.push entry (ContentStore.save sha content st.dir).2) := by
  rw [addCloud]
  split
  · exact Or.inl ⟨_, rfl⟩
  · obtain ⟨hname, hhash, -⟩ := applyUserInfo_frame
      ⟨st.store.allocateUniqueName uuid name, ContentStore.sha256Hex sha content, .cloud,
        some (trim url), none, none, none⟩ info
    exact Or.inr ⟨_, hname, hhash, rfl⟩

theorem updateCloud_cases (sha : Sha256) (st : Stored) (name : Str) (content : Bytes)
    (info : Option SubscriptionUserInfo) :
    (∃ e, st.updateCloud sha name content info = (.error e, st)) ∨
      ∃ i p, st.store.position name = some (i, p) ∧ p.kind = .cloud ∧
        st.updateCloud sha name content info =
          (.ok (), cleanUp p.hash
            ⟨⟨st.store.profiles.set i
              (applyUserInfo { p with hash := ContentStore.sha256Hex sha content } info),
              st.store.defaultName⟩, (ContentStore.save sha content st.dir).2⟩) := by
  rw [updateCloud]
  split
  · exact Or.inl ⟨_, rfl⟩
  · next i p hpos =>
      split
      · exact Or.inl ⟨_, rfl⟩
      · next hkind => exact Or.inr ⟨i, p, hpos, not_not.mp hkind, rfl⟩

theorem remove_cases (st : Stored) (name : Str) :
    st.remove name = (false, st) ∨
      ∃ i p, st.store.position name = some (i, p) ∧
        st.remove name = (true, cleanUp p.hash ⟨⟨st.store.profiles.eraseIdx i,
          defaultAfter (st.store.profiles.eraseIdx i) i name st.store.defaultName⟩, st.dir⟩) := by
  rw [remove]
  split
  · exact Or.inl rfl
  · next i p hpos => exact Or.inr ⟨i, p, hpos, rfl⟩

/-- A call has its effect on the store, and one that fails leaves the directory too. -/
theorem perform_effect (hwf : st.store.WF) (hfresh : op.Fresh st.store) :
    Effect st.store op (st.perform sha op).1 (st.perform sha op).2.store ∧
      ((st.perform sha op).1 = .failed → (st.perform sha op).2 = st) := by
  cases op with
  | addLocal uuid name content =>
      exact ⟨.addedLocal (allocateUniqueName_new name hfresh), nofun⟩
  | addCloud uuid name url content info =>
      rw [perform]
      rcases addCloud_cases sha st uuid name url content info with ⟨e, h⟩ | ⟨entry, hname, -, h⟩
      · rw [h]
        exact ⟨.failed, fun _ => rfl⟩
      · rw [h]
        refine ⟨.addedCloud ?_, nofun⟩
        rw [hname]
        exact allocateUniqueName_new name hfresh
  | updateCloud name content info =>
      rw [perform]
      rcases updateCloud_cases sha st name content info with ⟨e, h⟩ | ⟨i, p, hpos, hkind, h⟩
      · rw [h]
        exact ⟨.failed, fun _ => rfl⟩
      · obtain ⟨hp, hname⟩ := position_some hpos
        obtain ⟨hn, -, hk, hu⟩ :=
          applyUserInfo_frame { p with hash := ContentStore.sha256Hex sha content } info
        rw [h]
        exact ⟨.updated hp hname hkind hn hk hu, nofun⟩
  | setDefault name =>
      simp only [perform, setDefault]
      split
      · next hexists => exact ⟨.defaulted (nameExists_iff.mp hexists), nofun⟩
      · exact ⟨.failed, fun _ => rfl⟩
  | remove name =>
      rw [perform]
      rcases remove_cases st name with h | ⟨i, p, hpos, h⟩
      · rw [h]
        exact ⟨.failed, fun _ => rfl⟩
      · obtain ⟨hp, rfl⟩ := position_some hpos
        rw [h]
        dsimp only [cleanUp]
        rw [defaultAfter_eq hwf hp]
        exact ⟨.removed hp rfl, nofun⟩

/-- A call whose UUID is new. -/
def Steps (sha : Sha256) (st : Stored) (op : ProfileOp) (st' : Stored) : Prop :=
  op.Fresh st.store ∧ (st.perform sha op).2 = st'

theorem wf_run {ops : List ProfileOp} (h : Run (Steps sha) .new ops st) : st.store.WF := by
  refine h.invariant (I := fun st : Stored => st.store.WF) ?_ .new
  rintro st op st' hwf ⟨hfresh, rfl⟩
  exact (perform_effect hwf hfresh).1.wf hwf

/-- In every state that calls lead to the names are distinct and the default profile, which is the
active one, is one of the profiles; there is none only if there are no profiles.  Every further call
changes the profile it is about, and the default only when a profile is added, when the default is
set or when it is removed; a call that fails changes nothing. -/
theorem profiles_named {ops : List ProfileOp} (h : Run (Steps sha) .new ops st) :
    st.store.names.Nodup ∧
    (st.store.defaultName = none ↔ st.store.profiles = []) ∧
    (∀ n, st.store.defaultName = some n →
      ∃ p ∈ st.store.profiles, p.name = n ∧ st.store.active = some p) ∧
    ∀ op : ProfileOp, op.Fresh st.store →
      Effect st.store op (st.perform sha op).1 (st.perform sha op).2.store ∧
      ((st.perform sha op).1 = .failed → (st.perform sha op).2 = st) := by
  have hwf := wf_run h
  exact ⟨hwf.distinct, hwf.default_none, fun n => hwf.active, fun op => perform_effect hwf⟩

/-- The second profile asks for the name of the first; then it is removed. -/
theorem profiles_named_numbered :
    let sha : Sha256 := fun bs => ⟨List.replicate 32 (UInt8.ofNat bs.length), rfl⟩
    let ops : List ProfileOp := [.addLocal "0a".toList none [1],
      .addCloud "0b".toList (some " Proxy ".toList) "u".toList [2, 3] none, .remove "Proxy#1".toList]
    ∃ st, Run (Steps sha) .new ops st ∧
      st.store.names.Nodup ∧
      (st.store.defaultName = none ↔ st.store.profiles = []) ∧
      (∀ n, st.store.defaultName = some n →
        ∃ p ∈ st.store.profiles, p.name = n ∧ st.store.active = some p) ∧
      ∀ op : ProfileOp, op.Fresh st.store →
        Effect st.store op (st.perform sha op).1 (st.perform sha op).2.store ∧
        ((st.perform sha op).1 = .failed → (st.perform sha op).2 = st) := by
  intro sha ops
  have hrun : Run (Steps sha) .new ops _ :=
    .snoc (.snoc (.snoc .nil ⟨by decide, rfl⟩) ⟨by decide +kernel, rfl⟩) ⟨trivial, rfl⟩
  exact ⟨_, hrun, profiles_named hrun⟩

end Stored

end Config

end RustClash
