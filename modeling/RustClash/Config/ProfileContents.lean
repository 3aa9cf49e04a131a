import Mathlib.Data.List.Perm.Basic
import Mathlib.Data.UInt
import RustClash.Config.ProfileNames
import RustClash.Lib.ByKey

/-!
# Contents of profiles

Profiles come and go, and their contents with them: a content is put in the data directory
under its hash unless it is there, and is deleted when no profile has that hash.  A
`Ledger` records what each profile was last given.  As long as no two contents have one
hash, the directory has the contents of the ledger and nothing else.
-/

namespace RustClash

namespace Config

open Str FinMap

/-! ## Hashes as file names -/

theorem digitChar_hex : ∀ i < 16, ContentStore.isAsciiHexdigit (Nat.digitChar i) = true ∧
    toAsciiLowercase (Nat.digitChar i) = Nat.digitChar i ∧ (Nat.digitChar i).utf8Size = 1 := by
  decide

theorem digitChar_injective : ∀ i < 16, ∀ j < 16, Nat.digitChar i = Nat.digitChar j → i = j := by
  decide

theorem hexEncode_cons (b : UInt8) (bs : Bytes) : hexEncode (b :: bs) =
    Nat.digitChar (b.toNat / 16) :: Nat.digitChar (b.toNat % 16) :: hexEncode bs := rfl

theorem nibbles_lt (b : UInt8) : b.toNat / 16 < 16 ∧ b.toNat % 16 < 16 := by
  have hlt := b.toNat_lt
  omega

theorem mem_hexEncode {c : Char} {bs : Bytes} (h : c ∈ hexEncode bs) :
    ∃ i < 16, c = Nat.digitChar i := by
  obtain ⟨b, -, hc⟩ := List.mem_flatMap.mp h
  obtain ⟨hhi, hlo⟩ := nibbles_lt b
  simp only [List.mem_cons, List.not_mem_nil, or_false] at hc
  rcases hc with hc | hc
  · exact ⟨_, hhi, hc⟩
  · exact ⟨_, hlo, hc⟩

theorem byteLen_hexEncode (bs : Bytes) : byteLen (hexEncode bs) = 2 * bs.length := by
  induction bs with
  | nil => rfl
  | cons b bs ih =>
      obtain ⟨hhi, hlo⟩ := nibbles_lt b
      rw [hexEncode_cons, byteLen, byteLen, ih, (digitChar_hex _ hhi).2.2, (digitChar_hex _ hlo).2.2,
        List.length_cons]
      omega

theorem toLower_hexEncode (bs : Bytes) : toLower (hexEncode bs) = hexEncode bs := by
  have hid : ∀ c ∈ hexEncode bs, toAsciiLowercase c = id c := by
    intro c hc
    obtain ⟨i, hi, rfl⟩ := mem_hexEncode hc
    exact (digitChar_hex i hi).2.1
  rw [toLower, List.map_congr_left hid, List.map_id]

theorem hexEncode_injective : ∀ {bs bs' : Bytes}, hexEncode bs = hexEncode bs' → bs = bs'
  | [], [], _ => rfl
  | [], _ :: _, h => by cases h
  | _ :: _, [], h => by cases h
  | b :: bs, b' :: bs', h => by
      rw [hexEncode_cons, hexEncode_cons, List.cons.injEq, List.cons.injEq] at h
      obtain ⟨hhi, hlo, hrest⟩ := h
      obtain ⟨hb, hb₀⟩ := nibbles_lt b
      obtain ⟨hb', hb'₀⟩ := nibbles_lt b'
      have hdiv := digitChar_injective _ hb _ hb' hhi
      have hmod := digitChar_injective _ hb₀ _ hb'₀ hlo
      rw [hexEncode_injective hrest, UInt8.toNat_inj.mp (by omega : b.toNat = b'.toNat)]

namespace ContentStore

variable {sha : Sha256} {dir : DataDir} {contents : List Bytes}

theorem isSafe_sha256Hex (sha : Sha256) (data : Bytes) : isSafe (sha256Hex sha data) = true := by
  have hother : ∀ pat : Str, (∃ c ∈ pat, isAsciiHexdigit c = false) →
      contains pat (sha256Hex sha data) = false := by
    rintro pat ⟨c, hc, hno⟩
    rw [← Bool.not_eq_true, contains_iff]
    intro hin
    obtain ⟨i, hi, rfl⟩ := mem_hexEncode (hin.subset hc)
    rw [(digitChar_hex i hi).1] at hno
    cases hno
  have hlen : byteLen (sha256Hex sha data) = 64 := by
    rw [sha256Hex, byteLen_hexEncode, (sha data).size]
  have hdigits : (sha256Hex sha data).all isAsciiHexdigit = true := by
    rw [List.all_eq_true]
    intro c hc
    obtain ⟨i, hi, rfl⟩ := mem_hexEncode hc
    exact (digitChar_hex i hi).1
  rw [isSafe, hlen, hdigits, hother, hother, hother, hother]
  · rfl
  · exact ⟨':', by decide, by decide⟩
  · exact ⟨'\\', by decide, by decide⟩
  · exact ⟨'/', by decide, by decide⟩
  · exact ⟨'.', by decide, by decide⟩

theorem tryRead_sha256Hex (sha : Sha256) (data : Bytes) (dir : DataDir) :
    tryRead (sha256Hex sha data) dir = dir.lookup (sha256Hex sha data) := by
  rw [tryRead, isSafe_sha256Hex]
  rfl

theorem eqIgnoreCase_sha256Hex (sha : Sha256) (data data' : Bytes) :
    eqIgnoreCase (sha256Hex sha data) (sha256Hex sha data') = true ↔
      sha256Hex sha data = sha256Hex sha data' := by
  rw [eqIgnoreCase, decide_eq_true_iff, sha256Hex, sha256Hex, toLower_hexEncode, toLower_hexEncode]

/-- What is deleted is a content that no other one shares its hash with. -/
theorem holds_deleteIfUnreferenced {old : Bytes} (h : Holds (sha256Hex sha) dir (old :: contents)) :
    Holds (sha256Hex sha)
      (deleteIfUnreferenced (sha256Hex sha old) (contents.map (sha256Hex sha)) dir) contents := by
  rw [deleteIfUnreferenced, isSafe_sha256Hex]
  simp only [Bool.not_true, Bool.false_eq_true, if_false]
  split
  · next hany =>
      obtain ⟨hash, hmem, heq⟩ := List.any_eq_true.mp hany
      obtain ⟨c, hc, rfl⟩ := List.mem_map.mp hmem
      rw [(eqIgnoreCase_sha256Hex sha c old).mp heq] at hmem
      exact h.shared hmem
  · next hnone =>
      refine h.drop fun hmem => hnone (List.any_eq_true.mpr ⟨_, hmem, ?_⟩)
      exact (eqIgnoreCase_sha256Hex sha old old).mpr rfl

end ContentStore

/-! ## The ledger -/

/-- The names of the profiles, each with the content it was last given. -/
abbrev Ledger := List (Str × Bytes)

namespace Ledger

/-- Where the first entry with a name is. -/
def place (ledger : Ledger) (name : Str) : Nat := ledger.findIdx (·.1 = name)

/-- What a call that does not fail does to the ledger. -/
def record (ledger : Ledger) : ProfileOp → Outcome → Ledger
  | .addLocal _ _ content, .added entry => ledger ++ [(entry.name, content)]
  | .addCloud _ _ _ content _, .added entry => ledger ++ [(entry.name, content)]
  | .updateCloud name content _, .done => ledger.set (ledger.place name) (name, content)
  | .remove name, .done => ledger.eraseIdx (ledger.place name)
  | _, _ => ledger

end Ledger

/-- A call, and its record. -/
def track (sha : Sha256) (t : Stored × Ledger) (op : ProfileOp) : Stored × Ledger :=
  let r := t.1.perform sha op
  (r.2, t.2.record op r.1)

/-- The content that a call brings. -/
def ProfileOp.content : ProfileOp → Option Bytes
  | .addLocal _ _ content => some content
  | .addCloud _ _ _ content _ => some content
  | .updateCloud _ content _ => some content
  | .setDefault _ => none
  | .remove _ => none

/-- No two of the contents have one hash. -/
def NoCollisions (sha : Sha256) (ops : List ProfileOp) : Prop :=
  ∀ c ∈ ops.filterMap ProfileOp.content, ∀ c' ∈ ops.filterMap ProfileOp.content,
    sha c = sha c' → c = c'

instance (sha : Sha256) (ops : List ProfileOp) : Decidable (NoCollisions sha ops) :=
  inferInstanceAs (Decidable (∀ c ∈ _, ∀ c' ∈ _, _ → _))

namespace Stored

open ContentStore ProfileStore

variable {sha : Sha256} {used : Bytes → Prop} {st : Stored} {ledger : Ledger} {op : ProfileOp}
  {content : Bytes}

/-- What a store keeps of the contents in the ledger. -/
structure Keeps (sha : Sha256) (used : Bytes → Prop) (st : Stored) (ledger : Ledger) : Prop where
  entries : st.store.profiles.map (fun p => (p.name, p.hash)) =
    ledger.map fun e => (e.1, sha256Hex sha e.2)
  files : Holds (sha256Hex sha) st.dir (ledger.map (·.2))
  used : ∀ e ∈ ledger, used e.2

theorem Keeps.new : Keeps sha used .new [] := ⟨rfl, .empty, by simp⟩

theorem Keeps.names (h : Keeps sha used st ledger) :
    st.store.profiles.map (·.name) = ledger.map (·.1) := by
  have hfst := congrArg (List.map Prod.fst) h.entries
  rwa [List.map_map, List.map_map] at hfst

/-- The hashes that profiles have are those of the contents. -/
theorem hashes_of_entries {profiles : List ProfileEntry}
    (h : profiles.map (fun p => (p.name, p.hash)) =
      ledger.map fun e => (e.1, sha256Hex sha e.2)) :
    profiles.map (·.hash) = (ledger.map (·.2)).map (sha256Hex sha) := by
  have hsnd := congrArg (List.map Prod.snd) h
  rw [List.map_map, List.map_map] at hsnd
  rw [List.map_map]
  exact hsnd

/-- A profile and its entry are found at one place. -/
theorem Keeps.place (h : Keeps sha used st ledger) {name : Str} {i : Nat} {p : ProfileEntry}
    (hpos : st.store.position name = some (i, p)) :
    ledger.place name = i ∧ ∃ old, ledger[i]? = some (name, old) ∧ p.hash = sha256Hex sha old := by
  obtain ⟨hp, hname⟩ := position_some hpos
  constructor
  · simp only [position, Option.pure_def, Option.bind_eq_bind] at hpos
    obtain ⟨j, hj, hpos⟩ := Option.bind_eq_some_iff.mp hpos
    obtain ⟨q, -, hpos⟩ := Option.bind_eq_some_iff.mp hpos
    cases hpos
    have hfound := (List.findIdx?_eq_some_iff_findIdx_eq.mp hj).2
    have hnames := congrArg (List.findIdx (· = name)) h.names
    rw [List.findIdx_map, List.findIdx_map] at hnames
    exact hnames.symm.trans hfound
  · have hget := congrArg (·[i]?) h.entries
    simp only [List.getElem?_map, hp, Option.map_some] at hget
    obtain ⟨⟨n, old⟩, hat, heq⟩ := Option.map_eq_some_iff.mp hget.symm
    obtain ⟨rfl, hhash⟩ := Prod.mk.inj heq
    exact ⟨old, hname ▸ hat, hhash.symm⟩

/-- A new profile brings its content with it. -/
theorem Keeps.push (h : Keeps sha used st ledger) {entry : ProfileEntry}
    (hinj : ∀ c c', used c → used c' → sha256Hex sha c = sha256Hex sha c' → c = c')
    (hcontent : used content) (hhash : entry.hash = sha256Hex sha content) :
    Keeps sha used (st.push entry (save sha content st.dir).2) (ledger ++ [(entry.name, content)]) := by
  refine ⟨?_, ?_, ?_⟩
  · rw [Stored.push, List.map_append, List.map_append, h.entries, List.map_singleton,
      List.map_singleton, hhash]
  · have hput : Holds (sha256Hex sha) (save sha content st.dir).2 (content :: ledger.map (·.2)) := by
      refine h.files.put fun c hc => ?_
      obtain ⟨e, he, rfl⟩ := List.mem_map.mp hc
      exact hinj _ _ (h.used e he) hcontent
    refine hput.congr fun c => ?_
    rw [List.map_append, List.map_singleton, List.mem_append, List.mem_singleton, List.mem_cons,
      or_comm]
  · intro e he
    rcases List.mem_append.mp he with he | he
    · exact h.used e he
    · rw [List.mem_singleton.mp he]
      exact hcontent

/-- The content that a profile had is no longer needed for it. -/
theorem keeps_cleanUp {old : Bytes}
    (hentries : st.store.profiles.map (fun p => (p.name, p.hash)) =
      ledger.map fun e => (e.1, sha256Hex sha e.2))
    (hfiles : Holds (sha256Hex sha) st.dir (old :: ledger.map (·.2)))
    (hused : ∀ e ∈ ledger, used e.2) : Keeps sha used (cleanUp (sha256Hex sha old) st) ledger := by
  refine ⟨hentries, ?_, hused⟩
  rw [cleanUp, hashes_of_entries hentries]
  exact holds_deleteIfUnreferenced hfiles

/-- Setting a content leaves the old one over. -/
theorem mem_set_iff {contents : List Bytes} {i : Nat} {old : Bytes} (hold : contents[i]? = some old)
    (new c : Bytes) : c ∈ new :: contents ↔ c ∈ old :: contents.set i new := by
  obtain ⟨hlt, rfl⟩ := List.getElem?_eq_some_iff.mp hold
  have hset := (List.set_perm_cons_eraseIdx hlt new).cons contents[i]
  have hget := (List.getElem_cons_eraseIdx_perm hlt).cons new
  exact (hget.symm.trans ((List.Perm.swap _ _ _).trans hset.symm)).mem_iff

theorem mem_eraseIdx_iff {contents : List Bytes} {i : Nat} {old : Bytes}
    (hold : contents[i]? = some old) (c : Bytes) : c ∈ contents ↔ c ∈ old :: contents.eraseIdx i := by
  obtain ⟨hlt, rfl⟩ := List.getElem?_eq_some_iff.mp hold
  exact (List.getElem_cons_eraseIdx_perm hlt).symm.mem_iff

/-- What a store keeps, a call keeps. -/
theorem Keeps.perform (h : Keeps sha used st ledger)
    (hinj : ∀ c c', used c → used c' → sha256Hex sha c = sha256Hex sha c' → c = c')
    (hcontent : ∀ c, op.content = some c → used c) :
    Keeps sha used (st.perform sha op).2 (ledger.record op (st.perform sha op).1) := by
  cases op with
  | addLocal uuid name content => exact h.push hinj (hcontent content rfl) rfl
  | addCloud uuid name url content info =>
      rw [Stored.perform]
      rcases addCloud_cases sha st uuid name url content info with ⟨e, hadd⟩ | ⟨entry, -, hhash, hadd⟩
      · rw [hadd]
        exact h
      · rw [hadd]
        exact h.push hinj (hcontent content rfl) hhash
  | updateCloud name content info =>
      rw [Stored.perform]
      rcases updateCloud_cases sha st name content info with ⟨e, hup⟩ | ⟨i, p, hpos, -, hup⟩
      · rw [hup]
        exact h
      · obtain ⟨hplace, old, hold, hhash⟩ := h.place hpos
        obtain ⟨hname, hnew, -⟩ :=
          applyUserInfo_frame { p with hash := sha256Hex sha content } info
        have hat : (ledger.map (·.2))[i]? = some old := by rw [List.getElem?_map, hold]; rfl
        rw [hup, hhash]
        dsimp only [Ledger.record]
        rw [hplace]
        refine keeps_cleanUp ?_ ?_ ?_
        · rw [List.map_set, List.map_set, h.entries, hname, hnew]
          dsimp only
          rw [(position_some hpos).2]
        · rw [List.map_set]
          refine (h.files.put fun c hc => ?_).congr fun c => mem_set_iff hat content c
          obtain ⟨e, he, rfl⟩ := List.mem_map.mp hc
          exact hinj _ _ (h.used e he) (hcontent content rfl)
        · intro e he
          rcases List.mem_or_eq_of_mem_set he with he | rfl
          · exact h.used e he
          · exact hcontent content rfl
  | setDefault name =>
      have hstore : Keeps sha used { st with store := st.store.setDefault name } ledger := by
        have hprofiles : (st.store.setDefault name).profiles = st.store.profiles := by
          rw [ProfileStore.setDefault]
          split <;> rfl
        exact ⟨hprofiles ▸ h.entries, h.files, h.used⟩
      rw [Stored.perform]
      split <;> exact hstore
  | remove name =>
      rw [Stored.perform]
      rcases remove_cases st name with hremove | ⟨i, p, hpos, hremove⟩
      · rw [hremove]
        exact h
      · obtain ⟨hplace, old, hold, hhash⟩ := h.place hpos
        have hat : (ledger.map (·.2))[i]? = some old := by rw [List.getElem?_map, hold]; rfl
        rw [hremove, hhash]
        show Keeps sha used _ (ledger.eraseIdx (Ledger.place ledger name))
        rw [hplace]
        refine keeps_cleanUp ?_ ?_ fun e he => h.used e (List.mem_of_mem_eraseIdx he)
        · rw [← List.eraseIdx_map, ← List.eraseIdx_map, h.entries]
        · rw [← List.eraseIdx_map]
          exact h.files.congr fun c => mem_eraseIdx_iff hat c

/-- What a store keeps, calls keep. -/
theorem Keeps.foldl {ops : List ProfileOp} (h : Keeps sha used st ledger)
    (hinj : ∀ c c', used c → used c' → sha256Hex sha c = sha256Hex sha c' → c = c')
    (hcontent : ∀ op ∈ ops, ∀ c, op.content = some c → used c) :
    Keeps sha used (ops.foldl (track sha) (st, ledger)).1 (ops.foldl (track sha) (st, ledger)).2 := by
  induction ops generalizing st ledger with
  | nil => exact h
  | cons op ops ih =>
      obtain ⟨hop, hops⟩ := List.forall_mem_cons.mp hcontent
      exact ih (h.perform hinj hop) hops

/-- After any calls whose contents have different hashes: the files in the directory are those that
the hashes of the profiles name, each has the content with that hash, and what is read for a profile
is the content it was last given. -/
theorem contents_kept (sha : Sha256) (ops : List ProfileOp) (h : NoCollisions sha ops) :
    let t := ops.foldl (track sha) (.new, [])
    (∀ name, name ∈ t.1.dir ↔ ∃ p ∈ t.1.store.profiles, p.hash = name) ∧
    (∀ name content, t.1.dir.lookup name = some content → sha256Hex sha content = name) ∧
    t.1.store.profiles.length = t.2.length ∧
    ∀ (i : Nat) (p : ProfileEntry), t.1.store.profiles[i]? = some p →
      ∃ content, t.2[i]? = some (p.name, content) ∧ tryRead p.hash t.1.dir = some content := by
  intro t
  have hinj : ∀ c c', c ∈ ops.filterMap ProfileOp.content → c' ∈ ops.filterMap ProfileOp.content →
      sha256Hex sha c = sha256Hex sha c' → c = c' := by
    intro c c' hc hc' heq
    refine h c hc c' hc' ?_
    have hbytes := hexEncode_injective heq
    revert hbytes
    cases sha c
    cases sha c'
    rintro rfl
    rfl
  have hkeeps : Keeps sha (· ∈ ops.filterMap ProfileOp.content) t.1 t.2 :=
    Keeps.new.foldl hinj fun op hop c hc => List.mem_filterMap.mpr ⟨op, hop, hc⟩
  have hhashes := hashes_of_entries hkeeps.entries
  refine ⟨fun name => ?_, fun name content hfile => ((hkeeps.files _ _).mp hfile).2, ?_, fun i p hp => ?_⟩
  · rw [hkeeps.files.mem_iff, ← hhashes, List.mem_map]
  · have hlen := congrArg List.length hkeeps.entries
    rwa [List.length_map, List.length_map] at hlen
  · have hget := congrArg (·[i]?) hkeeps.entries
    simp only [List.getElem?_map, hp, Option.map_some] at hget
    obtain ⟨⟨n, content⟩, hat, heq⟩ := Option.map_eq_some_iff.mp hget.symm
    obtain ⟨rfl, hhash⟩ := Prod.mk.inj heq
    refine ⟨content, hat, ?_⟩
    have hmem : content ∈ t.2.map (·.2) := List.mem_map.mpr ⟨_, List.mem_of_getElem? hat, rfl⟩
    rw [← hhash, tryRead_sha256Hex]
    exact hkeeps.files.lookup hmem

/-- Two profiles share a content, and one of them is updated. -/
theorem contents_kept_shared :
    let sha : Sha256 := fun bs => ⟨List.replicate 31 0 ++ [bs.sum], rfl⟩
    let ops : List ProfileOp := [.addLocal "0a".toList none [1],
      .addCloud "0b".toList none "u".toList [1] none, .updateCloud "Proxy#1".toList [2] none]
    let t := ops.foldl (track sha) (.new, [])
    (∀ name, name ∈ t.1.dir ↔ ∃ p ∈ t.1.store.profiles, p.hash = name) ∧
    (∀ name content, t.1.dir.lookup name = some content → sha256Hex sha content = name) ∧
    t.1.store.profiles.length = t.2.length ∧
    ∀ (i : Nat) (p : ProfileEntry), t.1.store.profiles[i]? = some p →
      ∃ content, t.2[i]? = some (p.name, content) ∧ tryRead p.hash t.1.dir = some content :=
  contents_kept _ _ (by decide)

end Stored

end Config

end RustClash
