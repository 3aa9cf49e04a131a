import RustClash.Core.DnsNames
import RustClash.Core.FakeIpInvariant
import RustClash.Core.Targets
import RustClash.Core.Verdicts
import RustClash.Net.AddrText
import RustClash.Tun.TcpNat

/-!
# Where accepted connections go

A program asks the TUN for a name and gets a fake address for it.  When it connects to that
address, `handle_accepted` looks the name up again and judges it, as `decide_route` judges
the authority that a program hands to the HTTP inbound.  Both come to the same action.

Of `handle_accepted` this is what follows the look at the generation; connections to port 53
are not relayed at all.
-/

namespace RustClash

open Str Checked

namespace Routing

variable (idna : String → Option String)

/-! ## Queries -/

/-- What `handle_dns` and `handle_dns_tcp` answer to a message, if they answer it. -/
def handleDns (nat : TcpNat) (pool : FakeIpPool) (payload : Bytes) :
    Checked (Option Bytes × FakeIpPool) := do
  let some (id, qname, qtype) ← Dns.parseDnsQuery payload | .ok (none, pool)
  if qtype = 1 then
    let (fake, pool) := pool.lookupAvoiding idna (String.ofList qname) nat.hasDestination
    .ok (some (Dns.buildNamedAResponse idna id qname fake), pool)
  else .ok (some (Dns.buildEmptyDns idna id qname qtype), pool)

/-! ## Accepted connections -/

def dohHosts : List String :=
  ["1.1.1.1", "1.0.0.1", "8.8.8.8", "8.8.4.4", "9.9.9.9", "149.112.112.112",
    "208.67.222.222", "208.67.220.220", "94.140.14.14", "94.140.15.15",
    "1.12.12.12", "120.53.53.53", "223.5.5.5", "223.6.6.6", "76.76.21.21",
    "185.222.222.222", "45.90.28.167", "45.90.30.167"]

/-- `DohBlocklist::is_blocked`. -/
def isBlocked (ip : Ipv4Addr) : Bool := some (.v4 ip) ∈ dohHosts.map parseIpAddr

inductive Handling where
  /-- Handed to `handle_dns_tcp`. -/
  | dns
  | closed
  /-- Connected to what the resolver finds for a name. -/
  | directName (host : String) (port : UInt16)
  | directAddr (ip : Ipv4Addr) (port : UInt16)
  | proxy (target : Str)
deriving DecidableEq

/-- The action taken on a connection, unless it is no connection to relay. -/
def Handling.action : Handling → Option RuleAction
  | .dns => none
  | .closed => some .reject
  | .directName _ _ => some .direct
  | .directAddr _ _ => some .direct
  | .proxy _ => some .proxy

/-- What `dial_direct` connects to. -/
def dialDirect (host : Option String) (dst : SocketAddrV4) : Handling :=
  match host.filter fun _ => FakeIpPool.isFakeIpV4 dst.ip with
  | some host => .directName host dst.port
  | none => .directAddr dst.ip dst.port

def proxyTarget (host : Option String) (dst : SocketAddrV4) : Str :=
  ((host.map String.toList).getD dst.ip.toText) ++ ':' :: ofNat dst.port.toNat

/-- `handle_accepted`, for a connection of the current generation with this destination. -/
def handleAccepted (records : RuleRecords) (pool : FakeIpPool) (cache : TtlLru RuleAction)
    (r : RuleDb.Readings) (dst : SocketAddrV4) : Handling × FakeIpPool × TtlLru RuleAction :=
  if dst.port = 53 then (.dns, pool, cache)
  else if (dst.port = 443 ∨ dst.port = 853) ∧ isBlocked dst.ip then (.closed, pool, cache)
  else
    let (host, pool) := pool.lookback dst.ip
    if host.isNone ∧ FakeIpPool.isFakeIpV4 dst.ip then (.closed, pool, cache)
    else
      let (action, cache) := match host with
        | some h => RuleDb.matchDomain idna records cache r h
        | none => (actionForIp (.v4 dst.ip), cache)
      match action with
      | .reject => (.closed, pool, cache)
      | .direct => (dialDirect host dst, pool, cache)
      | .proxy => (.proxy (proxyTarget host dst), pool, cache)

variable (records : RuleRecords) {pool : FakeIpPool}

/-- A connection to a name's address is handled by the verdict on the name. -/
theorem handleAccepted_mapped (cache : TtlLru RuleAction) (r : RuleDb.Readings) {dst : SocketAddrV4} {host : String}
    (hhost : pool.ipToHost.lookup dst.ip = some host) (hport : dst.port ≠ 53)
    (hblocked : isBlocked dst.ip = false) :
    (handleAccepted idna records pool cache r dst).1 =
      match (RuleDb.matchDomain idna records cache r host).1 with
      | .reject => .closed
      | .direct => dialDirect (some host) dst
      | .proxy => .proxy (host.toList ++ ':' :: ofNat dst.port.toNat) := by
  rw [handleAccepted, if_neg hport, if_neg (by simp [hblocked]), FakeIpPool.lookback_eq, hhost]
  dsimp only
  rw [if_neg (by simp)]
  cases RuleDb.matchDomain idna records cache r host with
  | mk action cache' => cases action <;> rfl

theorem action_dialDirect (host : Option String) (dst : SocketAddrV4) :
    (dialDirect host dst).action = some .direct := by
  rw [dialDirect]
  split <;> rfl

/-- No fake address is one of a resolver. -/
theorem isBlocked_of_usable {ip : Ipv4Addr} (h : FakeIpPool.Usable ip) : isBlocked ip = false := by
  have hfirst : ∀ a ∈ dohHosts.map parseIpAddr, (a.bind fun ip =>
      (ip.casesOn (fun ip => some ip.a) fun _ => none : Option UInt8)) ≠ some 198 := by
    decide +kernel
  refine decide_eq_false fun hmem => hfirst _ hmem ?_
  have hfake := h.1
  rw [FakeIpPool.isFakeIpV4, FakeIpPool.isFakeIp] at hfake
  split at hfake
  · cases hfake
  · next hrange =>
      rw [not_or, not_ne_iff] at hrange
      exact congrArg some hrange.1

/-! ## The verdict on a name and on an authority -/

section

variable {h : HostName} {dots : Str}

theorem notMem_text (hdots : dots = [] ∨ dots = ['.']) {c : Char} (hldh : isLdh c = false)
    (hdot : c ≠ '.') : c ∉ h.text ++ dots := by
  intro hc
  rcases List.mem_append.mp hc with hc | hc
  · rcases h.mem_text hc with hc | hc
    · rw [hldh] at hc
      cases hc
    · exact hdot hc
  · rcases hdots with rfl | rfl
    · cases hc
    · exact hdot (List.mem_singleton.mp hc)

/-- A name is a host. -/
theorem isHost_text (hdots : dots = [] ∨ dots = ['.']) : Authority.IsHost (h.text ++ dots) :=
  .name (by simp [h.text_ne_nil]) (h.trim_text hdots) (notMem_text hdots (by decide) (by decide))
    (notMem_text hdots (by decide) (by decide)) (notMem_text hdots (by decide) (by decide))

theorem canonical_text (hdots : dots = [] ∨ dots = ['.']) (port : Str) :
    Authority.canonical (h.text ++ dots) port = h.text ++ dots ++ ':' :: port :=
  if_neg (notMem_text hdots (by decide) (by decide))

theorem isPort_ofNat (n : Nat) : Authority.IsPort (ofNat n) :=
  ⟨ofNat_ne_nil, fun _ => isDigit_of_mem_ofNat⟩

/-- A name that is read as an address is in normal form already. -/
theorem normal_of_address (hdots : dots = [] ∨ dots = ['.']) {ip : IpAddr}
    (hip : parseIpAddr (String.ofList (h.text ++ dots)) = some ip) :
    toLower h.text = h.text ++ dots := by
  obtain ⟨-, hshape⟩ := chars_of_parseIpAddr hip
  cases ip with
  | v6 ip =>
      have hcolon : ':' ∈ h.text ++ dots := List.count_pos_iff.mp (Nat.lt_of_lt_of_le (by decide) hshape)
      exact absurd hcolon (notMem_text hdots (by decide) (by decide))
  | v4 ip =>
      obtain ⟨hchars, init, c, hlast, hdigit⟩ := hshape
      have hnone : dots = [] := by
        refine hdots.resolve_right ?_
        rintro rfl
        obtain ⟨-, hc⟩ := List.append_inj' hlast rfl
        cases hc
        exact absurd hdigit (by decide)
      subst hnone
      rw [List.append_nil] at hchars ⊢
      refine (List.map_congr_left fun c hc => ?_).trans (List.map_id _)
      rcases toNat_lower c with ⟨hupper, -⟩ | ⟨-, hsame⟩
      · rcases hchars c hc with hdec | rfl
        · have := toDigit_cases hdec
          omega
        · exact absurd hupper (by decide)
      · exact hsame

variable (h) in
theorem domainToAscii_lower : domainToAscii idna (String.ofList (toLower h.text)) =
    String.ofList (toLower h.text) := by
  have hnormal := h.lower.domainToAscii_text idna (.inl rfl)
  rwa [List.append_nil, h.text_lower, toLower_toLower] at hnormal

variable (h) in
theorem verdict_lower : RuleDb.verdict idna records (String.ofList (toLower h.text)) =
    match parseIpAddr (String.ofList (toLower h.text)) with
    | some ip => actionForIp ip
    | none => RuleDb.matchDomainUncached records (toLower h.text) := by
  have hempty : (String.ofList (toLower h.text)).isEmpty = false := by
    simpa [toLower] using h.text_ne_nil
  rw [RuleDb.verdict, domainToAscii_lower idna h, hempty, if_neg Bool.false_ne_true]
  cases parseIpAddr (String.ofList (toLower h.text)) with
  | some ip => rfl
  | none => exact congrArg (RuleDb.matchDomainUncached records) String.toList_ofList

/-- The verdict on an authority is the verdict on the normal form of its name. -/
theorem routeVerdict_text (h : HostName) (hdots : dots = [] ∨ dots = ['.']) {port : Str}
    (hport : Authority.IsPort port) :
    RuleDb.routeVerdict idna records (h.text ++ dots ++ ':' :: port) =
      RuleDb.verdict idna records (String.ofList (toLower h.text)) := by
  rw [← canonical_text hdots, RuleDb.routeVerdict,
    Authority.routeHost_canonical (isHost_text hdots).plain hport]
  cases hip : parseIpAddr (String.ofList (h.text ++ dots)) with
  | none =>
      rw [RuleDb.verdict, h.domainToAscii_text idna hdots, RuleDb.verdict, domainToAscii_lower idna h]
  | some ip =>
      rw [verdict_lower idna records h, normal_of_address hdots hip, hip]

end

/-! ## The two inbounds -/

/-- What the TUN does with a connection to the address of a name, and the HTTP inbound with
the authority of the name: the same action, and dials to the same host up to the case of its
letters and a dot behind it. -/
def Agree (idna : String → Option String) (records : RuleRecords) (cache₁ cache₂ : TtlLru RuleAction)
    (r₁ r₂ : RuleDb.Readings) (pool : FakeIpPool) (fake : Ipv4Addr) (h : HostName) (dots : Str)
    (port : UInt16) : Prop :=
  let hostPort := h.text ++ dots ++ ':' :: ofNat port.toNat
  let handling := (handleAccepted idna records pool cache₂ r₂ ⟨fake, port⟩).1
  handling.action = some (RuleDb.decideRoute idna records cache₁ r₁ hostPort).1 ∧
  ∀ target, handling = .proxy target →
    dialTarget hostPort = .ok (.ok (h.text ++ dots, port)) ∧
    dialTarget target = .ok (.ok (toLower h.text, port))

theorem dialTarget_text {h : HostName} {dots : Str} (hdots : dots = [] ∨ dots = ['.']) (port : UInt16) :
    dialTarget (h.text ++ dots ++ ':' :: ofNat port.toNat) = .ok (.ok (h.text ++ dots, port)) := by
  have hport : parseU16 (ofNat port.toNat) = some port := by
    rw [parseU16, parseNat_ofNat port.toNat_lt, Option.map_some, UInt16.ofNat_toNat]
  rw [← canonical_text hdots, Authority.dialTarget_canonical (isHost_text hdots).plain (isPort_ofNat _),
    hport]

/-- A name that is mapped is handled as its authority is. -/
theorem agree_of_mapped {cache₁ cache₂ : TtlLru RuleAction} (hc₁ : RuleDb.Consistent records cache₁)
    (hc₂ : RuleDb.Consistent records cache₂) (r₁ r₂ : RuleDb.Readings) (hpool : pool.WF)
    {h : HostName} {fake : Ipv4Addr}
    (hmapped : pool.hostToIp.lookup (String.ofList (toLower h.text)) = some fake) {dots : Str}
    (hdots : dots = [] ∨ dots = ['.']) {port : UInt16} (hport : port ≠ 53) :
    Agree idna records cache₁ cache₂ r₁ r₂ pool fake h dots port := by
  have hback := hpool.lookup_iff.mp hmapped
  have hfake := hpool.range fake (FinMap.mem_of_lookup hback)
  have hhandled : (handleAccepted idna records pool cache₂ r₂ ⟨fake, port⟩).1 = _ :=
    handleAccepted_mapped idna records cache₂ r₂ hback hport (isBlocked_of_usable hfake)
  have hroute := routeVerdict_text idna records h hdots (isPort_ofNat port.toNat)
  rw [RuleDb.matchDomain_eq hc₂, ← hroute, String.toList_ofList] at hhandled
  rw [Agree, RuleDb.decideRoute_eq hc₁, hhandled]
  refine ⟨?_, fun target htarget => ⟨dialTarget_text hdots port, ?_⟩⟩
  · split
    · next heq => rw [heq]; rfl
    · next heq => rw [heq, action_dialDirect]
    · next heq => rw [heq]; rfl
  · split at htarget
    · cases htarget
    · rw [dialDirect] at htarget
      split at htarget <;> cases htarget
    · cases htarget
      have hlower := dialTarget_text (h := h.lower) (.inl rfl) port
      rwa [List.append_nil, h.text_lower] at hlower

/-- A query for a name is answered with an address.  If the pool maps the name to it then,
and still does when a connection to the address is accepted, the connection is handled as
the authority of the name is, however its letters are written and whatever the caches hold.
Only port 53 is not relayed. -/
theorem inbounds_agree {as₁ as₂ : List RuleDb.Action} {t₁ t₂ : RuleDb.State}
    (h₁ : Run (RuleDb.Fires idna records) .loaded as₁ t₁)
    (h₂ : Run (RuleDb.Fires idna records) .loaded as₂ t₂) (r₁ r₂ : RuleDb.Readings)
    {asked h : HostName} (hsame : toLower asked.text = toLower h.text)
    (hlabels : asked.labels.length ≤ 63) {id : UInt16} {payload : Bytes}
    (hasks : Dns.Asks id asked payload) (nat : TcpNat) (before after : List FakeIpPool.Call)
    {dots : Str} (hdots : dots = [] ∨ dots = ['.']) {port : UInt16} (hport : port ≠ 53) :
    let pool := (FakeIpPool.recordedRun idna before).1
    let found := pool.lookupAvoiding idna (String.ofList asked.text) nat.hasDestination
    let key := domainToAscii idna (String.ofList asked.text)
    let later := after.foldl (FakeIpPool.perform idna) found.2
    handleDns idna nat pool payload =
      .ok (some (Dns.buildNamedAResponse idna id asked.text found.1), found.2) ∧
    (found.2.hostToIp.lookup key = some found.1 → later.hostToIp.lookup key = some found.1 →
      Agree idna records t₁.cache t₂.cache r₁ r₂ later found.1 h dots port) := by
  intro pool found key later
  have hwf : pool.WF := (FakeIpPool.recordedRun_inv before).1
  have hfound : found.2.WF := hwf.lookupAvoiding idna _ _
  have hlater : later.WF := foldl_invariant (I := FakeIpPool.WF) (fun _ c hp => hp.perform c) hfound after
  have hkey : key = String.ofList (toLower h.text) := by
    have hnormal := asked.domainToAscii_text idna (.inl rfl)
    rwa [List.append_nil, hsame] at hnormal
  refine ⟨?_, fun _ hpresent => ?_⟩
  · rw [handleDns, Dns.parseDnsQuery_asks asked hasks, if_pos hlabels]
    rfl
  · rw [hkey] at hpresent
    exact agree_of_mapped idna records (RuleDb.inv_of_run h₁).consistent
      (RuleDb.inv_of_run h₂).consistent r₁ r₂ hlater hpresent hdots hport

/-- A name with a record of its own. -/
def plainName : HostName := ⟨["a".toList, "b".toList], by decide, by decide⟩

def capitalName : HostName := ⟨["A".toList, "b".toList], by decide, by decide⟩

theorem inbounds_agree_plain :
    let records : RuleRecords := AList.insert "b\x01a".toList 2 ∅
    let pool := (FakeIpPool.new.lookupAvoiding some "a.b" fun _ => false).2
    Agree some records (.new 4096) (.new 4096) ⟨0, 0, 0, id⟩ ⟨0, 0, 0, id⟩ pool ⟨198, 18, 0, 4⟩
      capitalName ['.'] 443 := by
  intro records pool
  have hstart : Run (RuleDb.Fires some records) .loaded [] .loaded := .nil
  have hall := inbounds_agree some records hstart hstart ⟨0, 0, 0, id⟩ ⟨0, 0, 0, id⟩
    (show toLower plainName.text = toLower capitalName.text by decide +kernel)
    (show plainName.labels.length ≤ 63 by decide) (Dns.asks_buildDnsQuery some plainName 1)
    (.new 0) [] [] (.inr rfl)
    (show (443 : UInt16) ≠ 53 by decide)
  exact hall.2 (by decide +kernel) (by decide +kernel)

/-- A connection to port 53 of the name's address is taken for one that asks for names. -/
theorem not_inbounds_agree_dns :
    let payload := Dns.buildDnsQuery some 1 "a.b".toList
    let pool := (FakeIpPool.new.lookupAvoiding some "a.b" fun _ => false).2
    handleDns some (.new 0) .new payload =
      .ok (some (Dns.buildNamedAResponse some 1 "a.b".toList ⟨198, 18, 0, 4⟩), pool) ∧
    pool.hostToIp.lookup "a.b" = some ⟨198, 18, 0, 4⟩ ∧
    ¬ Agree some ∅ (.new 4096) (.new 4096) ⟨0, 0, 0, id⟩ ⟨0, 0, 0, id⟩ pool ⟨198, 18, 0, 4⟩
      plainName [] 53 := by
  intro payload pool
  refine ⟨?_, by decide +kernel, fun hagree => ?_⟩
  · have hanswer := Dns.parseDnsQuery_asks _ (Dns.asks_buildDnsQuery some plainName 1)
    have hpayload : payload = Dns.buildDnsQuery some 1 plainName.text := by decide +kernel
    rw [handleDns, hpayload, hanswer]
    rfl
  · have haction := hagree.1
    rw [handleAccepted, if_pos rfl] at haction
    cases haction

end Routing

end RustClash
