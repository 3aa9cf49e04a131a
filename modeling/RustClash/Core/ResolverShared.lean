import RustClash.Core.ResolverCancel

/-!
# What the callers of the resolver share

Without cancellation a caller of `resolve` returns a result that a `resolve_uncached` of its
key gave: its own, the one of the leader it waited on, or one that a leader has cached.

The ledger says whose each result is: who asked for what, who leads each channel, what
`resolve_uncached` gave to each leader, and when the leader cached it.  `Inv` ties the
resolver to the ledger.
-/

namespace RustClash

namespace DohResolver

/-! ## Uncached lookups -/

/-- What the lookups of `resolve_uncached` give; what times out gives an error. -/
structure Answers where
  bound : Bool
  system : Except String (List IpAddr)
  udp : Except String (List IpAddr)
  first : Except String (List IpAddr)
  second : Except String (List IpAddr)

def lookupA (host : String) (query : Except String (List IpAddr)) : ResolveResult :=
  match query with
  | .error e => .error e
  | .ok ips => if ips.isEmpty then .error ("DoH empty for " ++ host) else .ok ips

/-- The addresses of a lookup, if it has any. -/
def addresses (result : Except String (List IpAddr)) : Option (List IpAddr) :=
  result.toOption.filter (!·.isEmpty)

def resolveUncached (answers : Answers) (host : String) : ResolveResult :=
  match (if answers.bound then none else addresses answers.system) <|> addresses answers.udp <|>
      addresses (lookupA host answers.first) with
  | some ips => .ok ips
  | none => lookupA host answers.second

/-- Addresses that are found are some. -/
theorem resolveUncached_ne_nil (answers : Answers) (host : String) :
    resolveUncached answers host ≠ .ok [] := by
  have hsome : ∀ result ips, addresses result = some ips → ips ≠ [] := by
    rintro result ips h rfl
    obtain ⟨-, hne⟩ := Option.filter_eq_some_iff.mp h
    cases hne
  rw [resolveUncached]
  split
  · next ips h =>
      rintro ⟨⟩
      simp only [Option.orElse_eq_orElse, Option.orElse_eq_or, Option.or_eq_some_iff] at h
      rcases h with h | ⟨-, h | ⟨-, h⟩⟩
      · split at h
        · cases h
        · exact hsome _ _ h rfl
      · exact hsome _ _ h rfl
      · exact hsome _ _ h rfl
  · cases answers.second with
    | error e => rintro ⟨⟩
    | ok ips =>
        rw [lookupA]
        split
        · rintro ⟨⟩
        · next hne =>
            rintro ⟨⟩
            exact hne rfl

/-! ## The ledger -/

/-- A result that a leader has cached, at a reading of the clock. -/
structure Cached where
  leader : Nat
  key : String
  result : ResolveResult
  time : Nat

structure Ledger where
  /-- The host each caller asked for. -/
  asked : Nat → Option String
  /-- The leader of each channel and its key. -/
  leaders : Chan → Option (Nat × String)
  /-- What `resolve_uncached` gave to each leader. -/
  results : Nat → Option ResolveResult
  cached : List Cached

def Ledger.empty : Ledger := ⟨fun _ => none, fun _ => none, fun _ => none, []⟩

/-- The ledger after an action. -/
def Ledger.record (l : Ledger) (st : State) : Action → Ledger
  | .call c host => { l with asked := Function.update l.asked c (some host) }
  | .run c r =>
      match st.callers c with
      | some (.enter key) =>
          if (DohResolver.cached st.cache r.now key).1.isNone ∧ (st.inflight.lookup key).isNone then
            { l with leaders := Function.update l.leaders st.nextChan (some (c, key)) }
          else l
      | some (.store key result) => { l with cached := ⟨c, key, result, r.now⟩ :: l.cached }
      | _ => l
  | .resolved c result => { l with results := Function.update l.results c (some result) }
  | .drop _ => l

variable (idna : String → Option String)

/-- One step without cancellation, in which a leader is given a result of `resolve_uncached`
for its key. -/
structure Serves (s : State × Ledger) (a : Action) (s' : State × Ledger) : Prop where
  step : step idna s.1 a = some s'.1
  record : s'.2 = s.2.record s.1 a
  kept : ∀ c, a ≠ .drop c
  uncached : ∀ c result, a = .resolved c result → ∃ answers key, s.1.callers c = some (.lead key) ∧
    result = resolveUncached answers key

/-! ## The invariant -/

def Caller.key : Caller → Option String
  | .check key | .enter key | .wait key _ | .lead key | .store key _ | .publish key _ => some key
  | _ => none

/-- The result a leader has in hand. -/
def Caller.hand : Caller → Option ResolveResult
  | .store _ result | .publish _ result => some result
  | _ => none

/-- The ledger says what a caller asked for, whom it waits on and what it has in hand; `next`
bounds the channels. -/
structure Fits (l : Ledger) (next c : Nat) (caller : Caller) : Prop where
  asked : ∀ key, caller.key = some key → ∃ host, l.asked c = some host ∧ key = domainToAscii idna host
  start : ∀ host, caller = .start host → l.asked c = some host
  waits : ∀ key rx, caller = .wait key rx → rx < next ∧ ∃ leader, l.leaders rx = some (leader, key)
  hand : ∀ result, caller.hand = some result → l.results c = some result

/-- The entry that a result makes in the cache. -/
def Cached.Entry (s : Cached) (value : Option (List IpAddr)) (expire : Nat) : Prop :=
  match s.result with
  | .ok ips => value = some ips ∧ expire = s.time + secs 300
  | .error _ => value = none ∧ expire = s.time + secs 30

/-- The entries of the cache are of results in the ledger. -/
def Backed (cached : List Cached) (cache : TtlLru (Option (List IpAddr))) : Prop :=
  cache.All fun key value expire => ∃ s ∈ cached, s.key = key ∧ s.Entry value expire

/-- A leader that has cached its result. -/
def Past (st : State) (s : Cached) : Prop :=
  st.callers s.leader = some (.publish s.key s.result) ∨ st.callers s.leader = some (.done s.result)

structure Inv (st : State) (l : Ledger) : Prop where
  wf : WF st
  covered : Covered st
  fits : ∀ c caller, st.callers c = some caller → Fits idna l st.nextChan c caller
  entry : ∀ key tx, st.inflight.lookup key = some tx → tx < st.nextChan ∧ st.sent tx = none ∧
    ∃ c, l.leaders tx = some (c, key) ∧ Leads st c key
  sent : ∀ tx result, st.sent tx = some result → tx < st.nextChan ∧
    ∃ c key, l.leaders tx = some (c, key) ∧ l.results c = some result ∧
      st.callers c = some (.done result)
  results : ∀ c result, l.results c = some result → result ≠ .ok []
  past : ∀ s ∈ l.cached, l.results s.leader = some s.result ∧ Past st s
  backed : Backed l.cached st.cache

variable {idna}

theorem Inv.init : Inv idna .init .empty where
  wf := WF.init
  covered := fun key hkey => absurd hkey (AList.notMem_empty key)
  fits := fun _ _ h => by cases h
  entry := fun _ _ h => by cases h
  sent := fun _ _ h => by cases h
  results := fun _ _ h => by cases h
  past := fun _ h => by cases h
  backed := TtlLru.All.new 4096

/-! ## Steps -/

variable {st st' : State} {l l' : Ledger} {a : Action}

/-- The ledger of the others does not change. -/
theorem Fits.of_eq {next next' c : Nat} {caller : Caller} (h : Fits idna l next c caller)
    (hasked : l'.asked c = l.asked c) (hresults : l'.results c = l.results c)
    (hnext : next ≤ next') (hleaders : ∀ tx, tx < next → l'.leaders tx = l.leaders tx) :
    Fits idna l' next' c caller where
  asked := by rw [hasked]; exact h.asked
  start := by rw [hasked]; exact h.start
  waits := by
    intro key rx hw
    obtain ⟨hlt, leader, hleader⟩ := h.waits key rx hw
    exact ⟨Nat.lt_of_lt_of_le hlt hnext, leader, (hleaders rx hlt).trans hleader⟩
  hand := by rw [hresults]; exact h.hand

/-- A caller that is done has nothing left in the ledger. -/
theorem fits_done {next c : Nat} (result : ResolveResult) : Fits idna l next c (.done result) where
  asked := fun _ h => by cases h
  start := fun _ h => by cases h
  waits := fun _ _ h => by cases h
  hand := fun _ h => by cases h

/-- A caller that moves, and that has not led yet or is about to cache, changes what is its
own in the ledger only. -/
theorem Inv.move (h : Inv idna st l) (hwf : WF st') (hcovered : Covered st') {c : Nat} {caller : Caller}
    (callers : st'.callers = Function.update st.callers c (some caller))
    (inflight : st'.inflight = st.inflight) (sent : st'.sent = st.sent)
    (next : st'.nextChan = st.nextChan) (leads : caller.leads = (st.callers c).bind Caller.leads)
    (early : ∀ key result, st.callers c ≠ some (.publish key result) ∧ st.callers c ≠ some (.done result))
    (hleaders : l'.leaders = l.leaders) (hothers : ∀ c', c' ≠ c → l'.asked c' = l.asked c' ∧
      l'.results c' = l.results c')
    (hfits : Fits idna l' st.nextChan c caller)
    (hresults : ∀ result, l'.results c = some result → result ≠ .ok [])
    (hcached : ∀ s ∈ l'.cached, s ∈ l.cached ∨
      s.leader = c ∧ l'.results c = some s.result ∧ caller = .publish s.key s.result)
    (hbacked : Backed l'.cached st'.cache) : Inv idna st' l' := by
  have hself : st'.callers c = some caller := by rw [callers, Function.update_self]
  have hother : ∀ c', c' ≠ c → st'.callers c' = st.callers c' := fun c' hc => by
    rw [callers, Function.update_of_ne hc]
  have hdone : ∀ {c' result}, st.callers c' = some (.done result) → c' ≠ c := fun hc he =>
    (early "" _).2 (he ▸ hc)
  refine ⟨hwf, hcovered, ?_, ?_, ?_, ?_, ?_, hbacked⟩
  · intro c' caller' hc
    rw [next]
    by_cases he : c' = c
    · subst he
      cases hself.symm.trans hc
      exact hfits
    · obtain ⟨hasked, hres⟩ := hothers c' he
      exact (h.fits c' caller' ((hother c' he).symm.trans hc)).of_eq hasked hres (Nat.le_refl _)
        fun tx _ => by rw [hleaders]
  · intro key tx hentry
    rw [inflight] at hentry
    obtain ⟨hlt, hsent, leader, hleader, hleads⟩ := h.entry key tx hentry
    rw [next, sent, hleaders]
    exact ⟨hlt, hsent, leader, hleader, (leads_move callers leads leader key).mpr hleads⟩
  · intro tx result hsent
    rw [sent] at hsent
    obtain ⟨hlt, leader, key, hleader, hresult, hc⟩ := h.sent tx result hsent
    rw [next, hleaders]
    exact ⟨hlt, leader, key, hleader, by rw [(hothers leader (hdone hc)).2, hresult],
      by rw [hother leader (hdone hc), hc]⟩
  · intro c' result hresult
    by_cases he : c' = c
    · subst he
      exact hresults result hresult
    · rw [(hothers c' he).2] at hresult
      exact h.results c' result hresult
  · intro s hs
    rcases hcached s hs with hold | ⟨rfl, hresult, rfl⟩
    · obtain ⟨hresult, hpast⟩ := h.past s hold
      have hne : s.leader ≠ c := by
        rintro rfl
        rcases hpast with hp | hp
        · exact (early _ _).1 hp
        · exact (early "" _).2 hp
      rw [Past, hother s.leader hne, (hothers s.leader hne).2]
      exact ⟨hresult, hpast⟩
    · exact ⟨hresult, .inl hself⟩

/-- The same, when the ledger does not change. -/
theorem Inv.same (h : Inv idna st l) (hwf : WF st') (hcovered : Covered st') {c : Nat} {caller : Caller}
    (callers : st'.callers = Function.update st.callers c (some caller))
    (inflight : st'.inflight = st.inflight) (sent : st'.sent = st.sent)
    (next : st'.nextChan = st.nextChan) (leads : caller.leads = (st.callers c).bind Caller.leads)
    (early : ∀ key result, st.callers c ≠ some (.publish key result) ∧ st.callers c ≠ some (.done result))
    (hfits : Fits idna l st.nextChan c caller) (hbacked : Backed l.cached st'.cache) : Inv idna st' l :=
  h.move hwf hcovered callers inflight sent next leads early rfl (fun _ _ => ⟨rfl, rfl⟩) hfits
    (h.results c) (fun _ hs => .inl hs) hbacked

theorem Inv.backed_cached (h : Inv idna st l) (now : Nat) (key : String) :
    Backed l.cached (DohResolver.cached st.cache now key).2 := by
  have hget := TtlLru.All.get h.backed now key
  rw [DohResolver.cached]
  generalize st.cache.get now key = found at hget ⊢
  obtain ⟨entry, cache⟩ := found
  rcases entry with _ | _ | ips
  · exact hget
  · exact hget
  · dsimp only
    split <;> exact hget

/-- A leader of the key cached the addresses at most 300 seconds before, or failed at most
30 seconds before. -/
def Recent (l : Ledger) (key : String) (now : Nat) (result : ResolveResult) : Prop :=
  ∃ s ∈ l.cached, s.key = key ∧ l.results s.leader = some s.result ∧
    ((∃ ips, s.result = .ok ips ∧ result = .ok ips ∧ now ≤ s.time + secs 300) ∨
      ∃ e e', s.result = .error e ∧ result = .error e' ∧ now ≤ s.time + secs 30)

/-- What is found in the cache is recent. -/
theorem Inv.recent (h : Inv idna st l) {now : Nat} {key : String} {result : ResolveResult}
    (hhit : (DohResolver.cached st.cache now key).1 = some result) : Recent l key now result := by
  have hentry : ∃ value, (st.cache.get now key).1 = some value ∧ match value with
      | some ips => if ips.isEmpty then result = .error "DNS negative cache" else result = .ok ips
      | none => result = .error "DNS negative cache" := by
    rw [DohResolver.cached] at hhit
    generalize st.cache.get now key = found at hhit ⊢
    obtain ⟨entry, cache⟩ := found
    rcases entry with _ | _ | ips
    · cases hhit
    · cases hhit
      exact ⟨_, rfl, rfl⟩
    · refine ⟨_, rfl, ?_⟩
      dsimp only at hhit ⊢
      split at hhit
      · next he => cases hhit; rw [if_pos he]
      · next he => cases hhit; rw [if_neg he]
  obtain ⟨value, hvalue, hresult⟩ := hentry
  obtain ⟨expire, hlive, s, hs, hkey, hmade⟩ := TtlLru.All.get_some h.backed hvalue
  have hledger := (h.past s hs).1
  refine ⟨s, hs, hkey, hledger, ?_⟩
  rw [Cached.Entry] at hmade
  split at hmade
  · next ips hok =>
      obtain ⟨rfl, rfl⟩ := hmade
      -- no lookup gives an empty list, so the entry is not a negative one
      have hne : ips.isEmpty = false := by
        cases ips with
        | nil => exact absurd hok (h.results s.leader _ hledger)
        | cons ip ips => rfl
      dsimp only at hresult
      rw [hne] at hresult
      exact .inl ⟨ips, hok, hresult, hlive⟩
  · next e herr =>
      obtain ⟨rfl, rfl⟩ := hmade
      exact .inr ⟨e, _, herr, hresult, hlive⟩

/-- A caller takes the lead over a new channel. -/
theorem Inv.lead (h : Inv idna st l) (hwf : WF st') (hcovered : Covered st') {c : Nat} {key : String}
    (callers : st'.callers = Function.update st.callers c (some (.lead key)))
    (inflight : st'.inflight = st.inflight.insert key st.nextChan) (sent : st'.sent = st.sent)
    (next : st'.nextChan = st.nextChan + 1) (hc : st.callers c = some (.enter key))
    (hbacked : Backed l.cached st'.cache) :
    Inv idna st' { l with leaders := Function.update l.leaders st.nextChan (some (c, key)) } := by
  have hself : st'.callers c = some (.lead key) := by rw [callers, Function.update_self]
  have hother : ∀ c', c' ≠ c → st'.callers c' = st.callers c' := fun c' he => by
    rw [callers, Function.update_of_ne he]
  have hchan : ∀ tx, tx < st.nextChan →
      Function.update l.leaders st.nextChan (some (c, key)) tx = l.leaders tx := fun tx hlt =>
    Function.update_of_ne (Nat.ne_of_lt hlt) ..
  refine ⟨hwf, hcovered, ?_, ?_, ?_, h.results, ?_, hbacked⟩
  · intro c' caller hc'
    rw [next]
    by_cases he : c' = c
    · subst he
      cases hself.symm.trans hc'
      exact ⟨(h.fits c' _ hc).asked, (by rintro _ ⟨⟩), (by rintro _ _ ⟨⟩), (by rintro _ ⟨⟩)⟩
    · exact (h.fits c' caller ((hother c' he).symm.trans hc')).of_eq rfl rfl (Nat.le_succ _) hchan
  · intro key' tx hentry
    rw [inflight, FinMap.lookup_insert_eq] at hentry
    rw [next, sent]
    split at hentry
    · next he =>
        cases hentry
        subst he
        refine ⟨Nat.lt_succ_self _, ?_, c, Function.update_self .., (leads_self callers).mpr rfl⟩
        cases hsent : st.sent st.nextChan with
        | none => rfl
        | some result => exact absurd (h.sent _ _ hsent).1 (Nat.lt_irrefl _)
    · obtain ⟨hlt, hsent, leader, hleader, hleads⟩ := h.entry key' tx hentry
      have hne : leader ≠ c := by
        rintro rfl
        rw [Leads, hc] at hleads
        cases hleads
      exact ⟨Nat.lt_succ_of_lt hlt, hsent, leader, (hchan tx hlt).trans hleader,
        (leads_other callers hne).mpr hleads⟩
  · intro tx result hsent
    rw [sent] at hsent
    rw [next]
    obtain ⟨hlt, leader, key', hleader, hresult, hdone⟩ := h.sent tx result hsent
    have hne : leader ≠ c := by
      rintro rfl
      rw [hc] at hdone
      cases hdone
    exact ⟨Nat.lt_succ_of_lt hlt, leader, key', (hchan tx hlt).trans hleader, hresult,
      (hother leader hne).trans hdone⟩
  · intro s hs
    obtain ⟨hresult, hpast⟩ := h.past s hs
    have hne : s.leader ≠ c := by
      rintro rfl
      rw [Past, hc] at hpast
      rcases hpast with hp | hp <;> cases hp
    rw [Past, hother s.leader hne]
    exact ⟨hresult, hpast⟩

/-- A leader sends its result and removes its entry. -/
theorem Inv.answer (h : Inv idna st l) (hwf : WF st') (hcovered : Covered st') {c : Nat} {key : String}
    {result : ResolveResult} {tx : Chan}
    (callers : st'.callers = Function.update st.callers c (some (.done result)))
    (inflight : st'.inflight = st.inflight.erase key)
    (sent : st'.sent = Function.update st.sent tx (some result)) (next : st'.nextChan = st.nextChan)
    (cache : st'.cache = st.cache) (hc : st.callers c = some (.publish key result))
    (hentry : st.inflight.lookup key = some tx) : Inv idna st' l := by
  have hself : st'.callers c = some (.done result) := by rw [callers, Function.update_self]
  have hother : ∀ c', c' ≠ c → st'.callers c' = st.callers c' := fun c' he => by
    rw [callers, Function.update_of_ne he]
  have hresult : l.results c = some result := (h.fits c _ hc).hand result rfl
  have hleads : Leads st c key := by
    rw [Leads, hc]
    rfl
  refine ⟨hwf, hcovered, ?_, ?_, ?_, h.results, ?_, cache ▸ h.backed⟩
  · intro c' caller hc'
    rw [next]
    by_cases he : c' = c
    · subst he
      cases hself.symm.trans hc'
      exact fits_done result
    · exact h.fits c' caller ((hother c' he).symm.trans hc')
  · intro key' tx' hentry'
    rw [inflight, FinMap.lookup_erase_eq] at hentry'
    obtain ⟨hne, hentry'⟩ := Option.ite_none_left_eq_some.mp hentry'
    obtain ⟨hlt, hsent, leader, hleader, hleads'⟩ := h.entry key' tx' hentry'
    have hchan : tx' ≠ tx := by
      rintro rfl
      obtain ⟨-, -, leader', hleader', -⟩ := h.entry key tx' hentry
      rw [hleader] at hleader'
      cases hleader'
      exact hne rfl
    have hother' : leader ≠ c := by
      rintro rfl
      rw [Leads] at hleads hleads'
      rw [hleads] at hleads'
      cases hleads'
      exact hne rfl
    rw [next, sent, Function.update_of_ne hchan]
    exact ⟨hlt, hsent, leader, hleader, (leads_other callers hother').mpr hleads'⟩
  · intro tx' result' hsent
    rw [sent] at hsent
    rw [next]
    by_cases hchan : tx' = tx
    · subst hchan
      rw [Function.update_self] at hsent
      cases hsent
      obtain ⟨hlt, -, leader, hleader, hleads'⟩ := h.entry key tx' hentry
      obtain rfl := h.wf.unique leader c key hleads' hleads
      exact ⟨hlt, leader, key, hleader, hresult, hself⟩
    · rw [Function.update_of_ne hchan] at hsent
      obtain ⟨hlt, leader, key', hleader, hr, hdone⟩ := h.sent tx' result' hsent
      have hne : leader ≠ c := by
        rintro rfl
        rw [hc] at hdone
        cases hdone
      exact ⟨hlt, leader, key', hleader, hr, (hother leader hne).trans hdone⟩
  · intro s hs
    obtain ⟨hr, hpast⟩ := h.past s hs
    refine ⟨hr, ?_⟩
    by_cases he : s.leader = c
    · rw [he, hresult] at hr
      cases hr
      exact .inr (he ▸ hself)
    · rw [Past, hother s.leader he]
      exact hpast

theorem Inv.run (h : Inv idna st l) {c : Nat} {r : Readings} (hwf : WF st') (hcovered : Covered st')
    (hs : step idna st (.run c r) = some st') : Inv idna st' (l.record st (.run c r)) := by
  obtain ⟨caller, hc, hr⟩ := Option.bind_eq_some_iff.mp hs
  have hfits := h.fits c caller hc
  have hleads : (st.callers c).bind Caller.leads = caller.leads := by rw [hc]; rfl
  have hearly : (∀ key result, caller ≠ .publish key result ∧ caller ≠ .done result) →
      ∀ key result, st.callers c ≠ some (.publish key result) ∧ st.callers c ≠ some (.done result) :=
    fun hne key result => by
      rw [hc]
      exact ⟨fun he => (hne key result).1 (Option.some.inj he),
        fun he => (hne key result).2 (Option.some.inj he)⟩
  rw [Ledger.record, hc]
  cases caller with
  | start host =>
      have hearly := hearly fun _ _ => ⟨(by rintro ⟨⟩), (by rintro ⟨⟩)⟩
      rw [runCaller] at hr
      split at hr
      · cases hr
        exact h.same hwf hcovered rfl rfl rfl rfl hleads.symm hearly (fits_done _) h.backed
      · split at hr
        · cases hr
          exact h.same hwf hcovered rfl rfl rfl rfl hleads.symm hearly (fits_done _) h.backed
        · cases hr
          refine h.same hwf hcovered rfl rfl rfl rfl hleads.symm hearly ?_ h.backed
          exact ⟨fun key hkey => ⟨host, hfits.start host rfl, (Option.some.inj hkey).symm⟩,
            (by rintro _ ⟨⟩), (by rintro _ _ ⟨⟩), (by rintro _ ⟨⟩)⟩
  | check key =>
      have hearly := hearly fun _ _ => ⟨(by rintro ⟨⟩), (by rintro ⟨⟩)⟩
      have hbacked := h.backed_cached r.now key
      rw [runCaller] at hr
      dsimp only at hr
      split at hr
      · cases hr
        exact h.same hwf hcovered rfl rfl rfl rfl hleads.symm hearly (fits_done _) hbacked
      · cases hr
        exact h.same hwf hcovered rfl rfl rfl rfl hleads.symm hearly
          ⟨hfits.asked, (by rintro _ ⟨⟩), (by rintro _ _ ⟨⟩), (by rintro _ ⟨⟩)⟩ hbacked
  | enter key =>
      have hearly := hearly fun _ _ => ⟨(by rintro ⟨⟩), (by rintro ⟨⟩)⟩
      have hbacked := h.backed_cached r.now key
      dsimp only
      rw [runCaller] at hr
      dsimp only at hr
      split at hr
      · next result hhit =>
          rw [if_neg (by simp [hhit])]
          cases hr
          exact h.same hwf hcovered rfl rfl rfl rfl hleads.symm hearly (fits_done _) hbacked
      · next hmiss =>
          split at hr
          · next tx hentry =>
              have hentry : st.inflight.lookup key = some tx := hentry
              rw [if_neg (by simp [hentry])]
              cases hr
              obtain ⟨hlt, -, leader, hleader, -⟩ := h.entry key tx hentry
              refine h.same hwf hcovered rfl rfl rfl rfl hleads.symm hearly ?_ hbacked
              refine ⟨hfits.asked, (by rintro _ ⟨⟩), ?_, (by rintro _ ⟨⟩)⟩
              rintro key rx ⟨⟩
              exact ⟨hlt, leader, hleader⟩
          · next hfree =>
              have hfree : st.inflight.lookup key = none := hfree
              rw [if_pos (by simp [hmiss, hfree])]
              cases hr
              exact h.lead hwf hcovered rfl rfl rfl rfl hc hbacked
  | wait key rx =>
      have hearly := hearly fun _ _ => ⟨(by rintro ⟨⟩), (by rintro ⟨⟩)⟩
      rw [runCaller] at hr
      split at hr
      · cases hr
        exact h.same hwf hcovered rfl rfl rfl rfl hleads.symm hearly (fits_done _) h.backed
      · split at hr
        · cases hr
        · cases hr
          exact h.same hwf hcovered rfl rfl rfl rfl hleads.symm hearly
            ⟨hfits.asked, (by rintro _ ⟨⟩), (by rintro _ _ ⟨⟩), (by rintro _ ⟨⟩)⟩ h.backed
  | lead key => cases hr
  | store key result =>
      have hearly := hearly fun _ _ => ⟨(by rintro ⟨⟩), (by rintro ⟨⟩)⟩
      have hresult := hfits.hand result rfl
      have hmono : Backed (⟨c, key, result, r.now⟩ :: l.cached) st.cache := fun key' value expire he =>
        (h.backed key' value expire he).imp fun s hs => ⟨List.mem_cons_of_mem _ hs.1, hs.2⟩
      simp only [runCaller] at hr
      cases hr
      refine h.move hwf hcovered rfl rfl rfl rfl hleads.symm hearly rfl (fun _ _ => ⟨rfl, rfl⟩)
        ⟨hfits.asked, (by rintro _ ⟨⟩), (by rintro _ _ ⟨⟩), ?_⟩ (h.results c) (fun s hs => ?_) ?_
      · rintro _ ⟨⟩
        exact hresult
      · rcases List.mem_cons.mp hs with rfl | hs
        · exact .inr ⟨rfl, hresult, rfl⟩
        · exact .inl hs
      · cases result with
        | ok ips =>
            exact TtlLru.All.set hmono ⟨_, List.mem_cons_self, rfl, rfl, rfl⟩ r.later r.order
        | error e =>
            exact TtlLru.All.set hmono ⟨_, List.mem_cons_self, rfl, rfl, rfl⟩ r.later r.order
  | publish key result =>
      obtain ⟨tx, hentry⟩ := FinMap.exists_lookup_of_mem (h.wf.entry c key (by rw [Leads, hc]; rfl))
      simp only [runCaller, hentry] at hr
      cases hr
      exact h.answer hwf hcovered rfl rfl rfl rfl rfl hc hentry
  | done result => cases hr
  | dropped => cases hr

theorem Inv.step {s s' : State × Ledger} (h : Inv idna s.1 s.2) (hs : Serves idna s a s') :
    Inv idna s'.1 s'.2 := by
  have hwf := h.wf.step hs.step
  have hcovered := h.covered.step hs.step fun ⟨c, _, hdrop, _⟩ => hs.kept c hdrop
  have hstep := hs.step
  rw [hs.record]
  cases a with
  | call c host =>
      obtain ⟨hnone, hst⟩ := Option.ite_none_right_eq_some.mp hstep
      rw [← Option.some.inj hst] at hwf hcovered ⊢
      refine h.move hwf hcovered rfl rfl rfl rfl (by rw [hnone]; rfl) (fun _ _ => by rw [hnone]; simp) rfl
        (fun c' hc' => ⟨Function.update_of_ne hc' .., rfl⟩) ?_ (h.results c) (fun _ hs => .inl hs) h.backed
      refine ⟨(by rintro _ ⟨⟩), ?_, (by rintro _ _ ⟨⟩), (by rintro _ ⟨⟩)⟩
      rintro _ ⟨⟩
      exact Function.update_self ..
  | run c r => exact h.run hwf hcovered hstep
  | resolved c result =>
      obtain ⟨answers, key, hc, rfl⟩ := hs.uncached c result rfl
      rw [DohResolver.step, hc] at hstep
      rw [← Option.some.inj hstep] at hwf hcovered ⊢
      have hself : Function.update s.2.results c (some (resolveUncached answers key)) c =
          some (resolveUncached answers key) := Function.update_self ..
      refine h.move hwf hcovered rfl rfl rfl rfl (by rw [hc]; rfl) (fun _ _ => by rw [hc]; simp) rfl
        (fun c' hc' => ⟨rfl, Function.update_of_ne hc' ..⟩) ?_ ?_ (fun _ hs => .inl hs) h.backed
      · refine ⟨(h.fits c _ hc).asked, (by rintro _ ⟨⟩), (by rintro _ _ ⟨⟩), ?_⟩
        rintro _ ⟨⟩
        exact hself
      · intro result hresult
        cases hself.symm.trans hresult
        exact resolveUncached_ne_nil answers key
  | drop c => exact absurd rfl (hs.kept c)

/-! ## What callers return -/

/-- Where the result that a caller returns comes from, if it does not wait. -/
inductive Returns (idna : String → Option String) (l : Ledger) (c now : Nat) (result : ResolveResult) :
    Caller → Prop where
  /-- No name, or an address literal. -/
  | literal {host : String} :
      (domainToAscii idna host).isEmpty ∨ (parseIpAddr (domainToAscii idna host)).isSome →
      Returns idna l c now result (.start host)
  /-- Its own `resolve_uncached`. -/
  | own {key : String} : l.results c = some result → Returns idna l c now result (.publish key result)
  /-- A recent result for the name it asked for. -/
  | recent {host key : String} {caller : Caller} : l.asked c = some host →
      key = domainToAscii idna host → Recent l key now result → Returns idna l c now result caller

theorem Inv.returns (h : Inv idna st l) {c : Nat} {r : Readings} {caller : Caller}
    (hc : st.callers c = some caller) (hr : runCaller idna st c r caller = some st')
    {result : ResolveResult} (hdone : st'.callers c = some (.done result))
    (hnowait : ∀ key rx, caller ≠ .wait key rx) : Returns idna l c r.now result caller := by
  have hfits := h.fits c caller hc
  have hself : ∀ (st : State) (caller : Caller), (st.set c caller).callers c = some caller :=
    fun _ _ => Function.update_self ..
  cases caller with
  | start host =>
      simp only [runCaller] at hr
      split at hr
      · next hempty => exact .literal (.inl hempty)
      · split at hr
        · next ip hip => exact .literal (.inr (by rw [hip]; rfl))
        · cases hr
          cases (hself _ _).symm.trans hdone
  | check key =>
      obtain ⟨host, hasked, hkey⟩ := hfits.asked key rfl
      simp only [runCaller] at hr
      split at hr
      · next hit hhit =>
          cases hr
          cases (hself _ _).symm.trans hdone
          exact .recent hasked hkey (h.recent hhit)
      · cases hr
        cases (hself _ _).symm.trans hdone
  | enter key =>
      obtain ⟨host, hasked, hkey⟩ := hfits.asked key rfl
      simp only [runCaller] at hr
      split at hr
      · next hit hhit =>
          cases hr
          cases (hself _ _).symm.trans hdone
          exact .recent hasked hkey (h.recent hhit)
      · split at hr
        · cases hr
          cases (hself _ _).symm.trans hdone
        · cases hr
          cases (hself _ _).symm.trans hdone
  | wait key rx => exact absurd rfl (hnowait key rx)
  | lead key => cases hr
  | store key result' =>
      simp only [runCaller] at hr
      cases hr
      cases (hself _ _).symm.trans hdone
  | publish key result' =>
      have hresult := hfits.hand result' rfl
      simp only [runCaller] at hr
      cases hr
      cases (hself _ _).symm.trans hdone
      exact .own hresult
  | done result => cases hr
  | dropped => cases hr

/-- A waiter returns the result of its leader, and nothing else happens to it. -/
theorem Inv.wakes (h : Inv idna st l) {c : Nat} {r : Readings} {key : String} {rx : Chan}
    (hc : st.callers c = some (.wait key rx))
    (hr : runCaller idna st c r (.wait key rx) = some st') :
    ∃ leader result, l.leaders rx = some (leader, key) ∧ l.results leader = some result ∧
      st.callers leader = some (.done result) ∧ st'.callers c = some (.done result) := by
  obtain ⟨-, leader, hleader⟩ := (h.fits c _ hc).waits key rx rfl
  simp only [runCaller] at hr
  split at hr
  · next result hsent =>
      obtain ⟨-, leader', key', hleader', hresult, hdone⟩ := h.sent rx result hsent
      rw [hleader] at hleader'
      cases hleader'
      cases hr
      exact ⟨leader, result, hleader, hresult, hdone, Function.update_self ..⟩
  · next hsilent =>
      -- its channel is silent, so it still is the entry of the key, and open
      have hentry : st.inflight.lookup key = some rx :=
        (h.wf.waiting c key rx hc).resolve_left (by simp [hsilent])
      have hopen : Open st rx := List.mem_map.mpr ⟨_, FinMap.mem_entries_of_lookup hentry, rfl⟩
      rw [if_pos hopen] at hr
      cases hr

/-- A caller begins to wait on the entry of its key, on which nothing was sent. -/
theorem Inv.begins (h : Inv idna st l) (hs : DohResolver.step idna st a = some st') {c : Nat} {key : String}
    {rx : Chan} (hw : st'.callers c = some (.wait key rx))
    (hnew : st.callers c ≠ some (.wait key rx)) : st.sent rx = none := by
  cases step_effect hs with
  | move c' caller callers inflight sent leads waits =>
      have hwait := (wait_update callers hw).resolve_right hnew
      exact (h.entry key rx (waits key rx hwait)).2.1
  | lead c' key' tx callers =>
      cases (wait_update callers hw).resolve_right hnew
  | answer c' key' tx result callers =>
      cases (wait_update callers hw).resolve_right hnew
  | unanswered c' key' result callers =>
      cases (wait_update callers hw).resolve_right hnew
  | abandon c' key' callers =>
      cases (wait_update callers hw).resolve_right hnew

/-- In every run without cancellation there is at most one `resolve_uncached` under way for
a key.  A caller that begins to wait finds no result sent on its channel; while it waits the
channel has a leader that has not returned, or the result was sent; and it returns the result
of its leader.  Every other caller returns its own result, or one of the same key that its
leader has cached: addresses at most 300 seconds before, or an error after a failure at most
30 seconds before. -/
theorem resolves_shared {as : List Action}
    (h : Run (Serves idna) (.init, .empty) as (st, l)) :
    (∀ c c' key, st.callers c = some (.lead key) → st.callers c' = some (.lead key) → c = c') ∧
    (∀ c key rx, st.callers c = some (.wait key rx) → ∃ leader, l.leaders rx = some (leader, key) ∧
      ((st.sent rx = none ∧ Leads st leader key) ∨
        ∃ result, st.sent rx = some result ∧ l.results leader = some result)) ∧
    ∀ a st' l', Serves idna (st, l) a (st', l') →
      (∀ c key rx, st'.callers c = some (.wait key rx) → st.callers c ≠ some (.wait key rx) →
        st.sent rx = none) ∧
      ∀ c r, a = .run c r →
        (∀ key rx, st.callers c = some (.wait key rx) →
          ∃ leader result, l.leaders rx = some (leader, key) ∧ l.results leader = some result ∧
            st.callers leader = some (.done result) ∧ st'.callers c = some (.done result)) ∧
        ∀ caller result, st.callers c = some caller → (∀ key rx, caller ≠ .wait key rx) →
          st'.callers c = some (.done result) → Returns idna l c r.now result caller := by
  have hi : Inv idna st l := h.invariant (I := fun s => Inv idna s.1 s.2) Inv.step Inv.init
  refine ⟨fun c c' key hc hc' => ?_, fun c key rx hc => ?_, fun a st' l' hs => ⟨?_, ?_⟩⟩
  · exact hi.wf.unique c c' key (by rw [Leads, hc]; rfl) (by rw [Leads, hc']; rfl)
  · obtain ⟨-, leader, hleader⟩ := (hi.fits c _ hc).waits key rx rfl
    refine ⟨leader, hleader, ?_⟩
    cases hsent : st.sent rx with
    | some result =>
        obtain ⟨-, leader', key', hleader', hresult, -⟩ := hi.sent rx result hsent
        rw [hleader] at hleader'
        cases hleader'
        exact .inr ⟨result, rfl, hresult⟩
    | none =>
        have hentry : st.inflight.lookup key = some rx :=
          (hi.wf.waiting c key rx hc).resolve_left (by simp [hsent])
        obtain ⟨-, -, leader', hleader', hleads⟩ := hi.entry key rx hentry
        rw [hleader] at hleader'
        cases hleader'
        exact .inl ⟨rfl, hleads⟩
  · intro c key rx hw hnew
    exact hi.begins hs.step hw hnew
  · rintro c r rfl
    obtain ⟨caller, hc, hr⟩ := Option.bind_eq_some_iff.mp hs.step
    refine ⟨fun key rx hw => ?_, fun caller' result hc' hnowait hdone => ?_⟩
    · rw [hw] at hc
      cases hc
      exact hi.wakes hw hr
    · rw [hc'] at hc
      cases hc
      exact hi.returns hc' hr hdone hnowait

/-- The lookups of a name that the system knows. -/
def oneAnswer : Answers := ⟨false, .ok [.v4 ⟨1, 2, 3, 4⟩], .error "", .error "", .error ""⟩

/-- A leader returns while another caller waits. -/
def leadAndAnswer : List Action :=
  let r : Readings := ⟨0, 0, id⟩
  leadAndWait "a.b" ++ [.resolved 0 (.ok [.v4 ⟨1, 2, 3, 4⟩]), .run 0 r, .run 0 r]

theorem resolves_shared_answer : ∃ st l, Run (Serves some) (.init, .empty) leadAndAnswer (st, l) ∧
    ∃ st', step some st (.run 1 ⟨0, 0, id⟩) = some st' ∧
      ∃ leader result, l.leaders 0 = some (leader, "a.b") ∧ l.results leader = some result ∧
        st.callers leader = some (.done result) ∧ st'.callers 1 = some (.done result) := by
  let serve : State × Ledger → Action → Option (State × Ledger) := fun s a =>
    (step some s.1 a).map fun t => (t, s.2.record s.1 a)
  let gives : State × Ledger → Action → Bool := fun _ a => match a with
    | .resolved _ result => result = .ok [.v4 ⟨1, 2, 3, 4⟩]
    | .drop _ => false
    | _ => true
  have heval : ((leadAndAnswer.foldlM (fun s a => if gives s a then serve s a else none)
      (State.init, Ledger.empty)).bind fun s => if s.1.callers 1 = some (.wait "a.b" 0) ∧
        (step some s.1 (.run 1 ⟨0, 0, id⟩)).isSome then some s else none).isSome := by decide +kernel
  obtain ⟨s, hs⟩ := Option.isSome_iff_exists.mp heval
  obtain ⟨⟨st, l⟩, hfold, hs⟩ := Option.bind_eq_some_iff.mp hs
  obtain ⟨⟨hwait, hnext⟩, -⟩ := Option.ite_none_right_eq_some.mp hs
  obtain ⟨st', hnext⟩ := Option.isSome_iff_exists.mp hnext
  have hrun : Run (Serves some) (.init, .empty) leadAndAnswer (st, l) := by
    refine (run_of_guarded hfold).mono fun {s a t} hstep => ?_
    obtain ⟨hserve, hgives⟩ := hstep
    obtain ⟨u, hu, rfl⟩ := Option.map_eq_some_iff.mp hserve
    refine ⟨hu, rfl, (by rintro c rfl; cases hgives), ?_⟩
    rintro c result rfl
    rw [of_decide_eq_true hgives]
    rw [step] at hu
    split at hu
    · next key hc => exact ⟨oneAnswer, key, hc, rfl⟩
    · cases hu
  have hserves : Serves some (st, l) (.run 1 ⟨0, 0, id⟩) (st', l.record st (.run 1 ⟨0, 0, id⟩)) :=
    ⟨hnext, rfl, (by rintro _ ⟨⟩), (by rintro _ _ ⟨⟩)⟩
  exact ⟨st, l, hrun, st', hnext,
    (((resolves_shared hrun).2.2 _ _ _ hserves).2 1 _ rfl).1 "a.b" 0 hwait⟩

end DohResolver

end RustClash
