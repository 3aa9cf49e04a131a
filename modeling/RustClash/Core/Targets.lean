import RustClash.Core.Outbound
import RustClash.Core.Rules
import RustClash.Core.Text
import RustClash.Net.AddrChars

/-!
# Where an authority leads

`decide_route`, `dial_async` and `DirectDial::connect_with` each take an authority apart
on their own, with fallbacks of their own.  `with_port` brings what a user wrote into one
form, an IPv6 address in brackets and a port behind the host, and of that form the three
make the same host and port.
-/

namespace RustClash

open Str Checked Authority

/-! ## What the dialers dial -/

/-- The error of `parse::<u16>` for a text it refuses. -/
def portError (s : Str) : String :=
  let digits := match s with
    | '+' :: rest => rest
    | _ => s
  let number := digits.takeWhile fun c => '0' ≤ c && c ≤ '9'
  if s.isEmpty then "cannot parse integer from empty string"
  else if 65535 < number.foldl (fun n c => n * 10 + (c.toNat - '0'.toNat)) 0 then
    "number too large to fit in target type"
  else "invalid digit found in string"

/-- The fallback of `dial_async` for what is no host with a port. -/
def dialFallback (hostPort : Str) : Checked (Str × Str) := do
  let idx := (rfind ':' hostPort).getD 0
  let host ← sliceTo hostPort idx
  let port ← sliceFrom hostPort (idx + 1)
  pure (trimBrackets host, port)

/-- The host and the port that `dial_async` takes from an authority. -/
def dialTarget (hostPort : Str) : Checked (Except OutboundError (Str × UInt16)) := do
  let (destHost, portStr) ← match trySplitHostPort hostPort with
    | some parts => pure parts
    | none => dialFallback hostPort
  pure (match parseU16 portStr with
    | some destPort => .ok (trimBrackets destHost, destPort)
    | none => .error (.anyhow (portError portStr)))

def dialAsync (crates : DialCrates) (draws : DialDraws) (doh : Str → Except String (List IpAddr))
    (current : Option ProxyNode) (hostPort : Str) :
    Checked (Script DialAct UInt8 OutboundError Unit) :=
  match current with
  | none => pure (.fail (.anyhow "No proxy node selected"))
  | some node => do
      let target ← dialTarget hostPort
      pure (match target with
        | .ok (host, port) => dialVia crates draws doh node host port
        | .error e => .fail e)

inductive DirectError where
  | invalidInput (message : String)
  | notFound (message : String)
  | lookup (message : String)
deriving DecidableEq

/-- The host and the port that `connect_with` takes from an authority. -/
def connectTarget (hostPort : Str) : Except DirectError (Str × UInt16) :=
  match trySplitHostPort hostPort <|> rsplitOnce ':' hostPort with
  | none => .error (.invalidInput "invalid host:port")
  | some (host, port) =>
      match parseU16 port with
      | none => .error (.invalidInput "invalid port")
      | some port => .ok (trimBrackets host, port)

/-- The addresses `connect_with` connects to: `via` is the resolver of the dialer, if
there is one, and `lookup` that of the system. -/
def connectTo (via : Option (Str → Except OutboundError (List IpAddr)))
    (lookup : Str → UInt16 → Except DirectError (List IpAddr)) (host : Str) (port : UInt16) :
    Except DirectError (List IpAddr × UInt16) :=
  match parseIpAddr (String.ofList host) with
  | some ip => .ok ([ip], port)
  | none =>
      match via.bind fun resolve => (resolve host).toOption.filter (!·.isEmpty) with
      | some ips => .ok (ips, port)
      | none => do
          let ips ← lookup host port
          if ips.isEmpty then .error (.notFound "host not found")
          else .ok (ips.filter isIpv4 ++ ips.filter (!isIpv4 ·), port)

/-- `DirectDial::connect_with` up to `connect_happy`. -/
def connectWith (via : Option (Str → Except OutboundError (List IpAddr)))
    (lookup : Str → UInt16 → Except DirectError (List IpAddr)) (hostPort : Str) :
    Except DirectError (List IpAddr × UInt16) := do
  let (host, port) ← connectTarget hostPort
  connectTo via lookup host port

/-! ## Authorities as they are written -/

namespace Authority

/-- A host name, or an address without brackets. -/
inductive IsHost : Str → Prop where
  | name {h : Str} : h ≠ [] → trim h = h → ':' ∉ h → '[' ∉ h → ']' ∉ h → IsHost h
  | address {h : Str} {ip : IpAddr} : parseIpAddr (String.ofList h) = some ip → IsHost h

def IsIpv6 (h : Str) : Prop := ∃ ip, parseIpAddr (String.ofList h) = some (.v6 ip)

def IsPort (p : Str) : Prop := p ≠ [] ∧ ∀ c ∈ p, '0' ≤ c ∧ c ≤ '9'

/-- An authority with its host and its port, if it has one. -/
inductive Written : (authority host : Str) → (port : Option Str) → Prop where
  | bare {h : Str} : IsHost h → Written h h none
  | bracketed {h : Str} : IsIpv6 h → Written ('[' :: (h ++ [']'])) h none
  | port {h p : Str} : IsHost h → ':' ∉ h → IsPort p → Written (h ++ ':' :: p) h (some p)
  | bracketedPort {h p : Str} : IsIpv6 h → IsPort p →
      Written ('[' :: (h ++ ']' :: ':' :: p)) h (some p)

/-- The one form of a host and a port. -/
def canonical (host port : Str) : Str :=
  if ':' ∈ host then '[' :: (host ++ ']' :: ':' :: port) else host ++ ':' :: port

/-- What all hosts have in common. -/
structure Plain (h : Str) : Prop where
  ne_nil : h ≠ []
  trimmed : trim h = h
  opening : '[' ∉ h
  closing : ']' ∉ h
  colons : ':' ∉ h ∨ 2 ≤ h.count ':'

variable {h p d : Str}

theorem Plain.of_address {ip : IpAddr} (hip : parseIpAddr (String.ofList h) = some ip) : Plain h := by
  obtain ⟨hchars, hcolons⟩ := chars_of_parseIpAddr hip
  refine ⟨?_, trim_of_visible fun c hc => (hchars c hc).1, fun hc => (hchars _ hc).2.1 rfl,
    fun hc => (hchars _ hc).2.2 rfl, ?_⟩
  · rintro rfl
    cases hip
  · cases ip with
    | v4 ip => exact .inl (notMem_colon_of_v4 hcolons.1)
    | v6 ip => exact .inr hcolons

theorem IsHost.plain (hh : IsHost h) : Plain h := by
  cases hh with
  | name hne htrim hcolon hopen hclose => exact ⟨hne, htrim, hopen, hclose, .inl hcolon⟩
  | address hip => exact .of_address hip

theorem IsIpv6.colons (hh : IsIpv6 h) : Plain h ∧ ':' ∈ h := by
  obtain ⟨ip, hip⟩ := hh
  have htwo : 2 ≤ h.count ':' := (chars_of_parseIpAddr hip).2
  exact ⟨.of_address hip, List.count_pos_iff.mp (by omega)⟩

theorem IsPort.notMem (hp : IsPort p) {c : Char} (hc : ¬ ('0' ≤ c ∧ c ≤ '9')) : c ∉ p :=
  fun hmem => hc (hp.2 c hmem)

theorem IsPort.isEmpty (hp : IsPort p) : p.isEmpty = false := by
  simpa using hp.1

/-! ## Trimming -/

/-- A text that is trimmed has no blank at its ends. -/
theorem ends_of_trim {s : Str} (h : trim s = s) : (∀ c ∈ s.head?, isWhiteSpace c = false) ∧
    ∀ c ∈ s.getLast?, isWhiteSpace c = false := by
  have hfirst : s.dropWhile isWhiteSpace = s := by
    have hsuffix : s.dropWhile isWhiteSpace <:+ s := List.dropWhile_suffix _
    refine hsuffix.eq_of_length (Nat.le_antisymm hsuffix.length_le ?_)
    have hle := (List.rdropWhile_prefix isWhiteSpace (s.dropWhile isWhiteSpace)).length_le
    rwa [show (s.dropWhile isWhiteSpace).rdropWhile isWhiteSpace = s from h] at hle
  have hlast : s.rdropWhile isWhiteSpace = s := by
    have h' : (s.dropWhile isWhiteSpace).rdropWhile isWhiteSpace = s := h
    rwa [hfirst] at h'
  constructor
  · intro c hc
    cases s with
    | nil => cases hc
    | cons x xs =>
        cases hc
        by_contra hblank
        rw [List.dropWhile_cons_of_pos (by simpa using hblank)] at hfirst
        have hle := (List.dropWhile_sublist isWhiteSpace (l := xs)).length_le
        rw [hfirst, List.length_cons] at hle
        omega
  · intro c hc
    have hne : s ≠ [] := by
      rintro rfl
      cases hc
    have hget := List.rdropWhile_eq_self_iff.mp hlast hne
    rw [List.getLast?_eq_getLast_of_ne_nil hne] at hc
    cases hc
    simpa using hget

theorem getLast?_port {s : Str} (hp : IsPort p) : ∀ c ∈ (s ++ p).getLast?, isWhiteSpace c = false := by
  intro c hc
  rw [List.getLast?_append_of_ne_nil s hp.1] at hc
  exact isWhiteSpace_digit (hp.2 c (List.mem_of_getLast? hc))

/-- Nothing is trimmed from an authority. -/
theorem Written.trimmed {a : Str} {port : Option Str} (hw : Written a h port) : trim a = a := by
  have hopen : isWhiteSpace '[' = false := by decide
  cases hw with
  | bare hh => exact hh.plain.trimmed
  | bracketed hv =>
      refine trim_of_ends (by simpa using hopen) fun c hc => ?_
      rw [← List.cons_append, List.getLast?_append_of_ne_nil _ (by simp)] at hc
      cases hc
      decide
  | @port _ p hh _ hp =>
      refine trim_of_ends ?_ ?_
      · rw [List.head?_append_of_ne_nil h hh.plain.ne_nil]
        exact (ends_of_trim hh.plain.trimmed).1
      · rw [show h ++ ':' :: p = (h ++ [':']) ++ p by simp]
        exact getLast?_port hp
  | @bracketedPort _ p _ hp =>
      refine trim_of_ends (by simpa using hopen) ?_
      rw [show '[' :: (h ++ ']' :: ':' :: p) = ('[' :: (h ++ [']', ':'])) ++ p by simp]
      exact getLast?_port hp

theorem Written.ne_nil {a : Str} {port : Option Str} (hw : Written a h port) : a ≠ [] := by
  cases hw with
  | bare hh => exact hh.plain.ne_nil
  | bracketed | port | bracketedPort => simp

/-! ## Taking apart and putting together -/

theorem count_colon_port (hp : IsPort p) (s : Str) : (s ++ ':' :: p).count ':' = s.count ':' + 1 := by
  rw [List.count_append, List.count_cons_self, List.count_eq_zero.mpr (hp.notMem (by decide))]

theorem splitOnce_bracketed (hh : Plain h) (rest : Str) :
    splitOnce ']' ('[' :: (h ++ ']' :: rest)) = some ('[' :: h, rest) := by
  refine splitOnce_append (l := '[' :: h) rest ?_
  rw [List.mem_cons, not_or]
  exact ⟨by decide, hh.closing⟩

theorem trySplit_bracketed (hh : Plain h) : trySplitHostPort ('[' :: (h ++ [']'])) = none := by
  rw [trySplitHostPort, if_pos (show startsWith '[' ('[' :: _) = true from rfl),
    splitOnce_bracketed hh]

theorem trySplit_bracketedPort (hh : Plain h) (hp : IsPort p) :
    trySplitHostPort ('[' :: (h ++ ']' :: ':' :: p)) = some (h, p) := by
  rw [trySplitHostPort, if_pos (show startsWith '[' ('[' :: _) = true from rfl),
    splitOnce_bracketed hh]
  exact if_neg (by simp [hp.isEmpty])

theorem startsWith_plain (hh : Plain h) (rest : Str) : startsWith '[' (h ++ rest) = false := by
  cases h with
  | nil => exact absurd rfl hh.ne_nil
  | cons c cs =>
      refine decide_eq_false fun hc => hh.opening ?_
      cases hc
      exact List.mem_cons_self

/-- A host and its port are found again in their one form. -/
theorem trySplit_canonical (hh : Plain h) (hp : IsPort p) :
    trySplitHostPort (canonical h p) = some (h, p) := by
  rw [canonical]
  split
  · exact trySplit_bracketedPort hh hp
  · next hcolon =>
      rw [trySplitHostPort, startsWith_plain hh, if_neg Bool.false_ne_true, count_colon_port hp,
        List.count_eq_zero.mpr hcolon, if_pos rfl, rsplitOnce_append (hp.notMem (by decide))]
      have hne : h.isEmpty = false := by simpa using hh.ne_nil
      simp [Option.filter, hne, hp.isEmpty]

theorem joinHostPort_eq (hh : Plain h) (p : Str) : joinHostPort h p = canonical h p := by
  have hcontains : contains ":".toList h ↔ ':' ∈ h := by
    rw [contains_iff]
    exact List.singleton_infix_iff _ _
  have hstart : startsWith '[' h = false := by
    have := startsWith_plain hh []
    rwa [List.append_nil] at this
  rw [joinHostPort, canonical, hstart]
  by_cases hcolon : ':' ∈ h
  · rw [if_pos ⟨hcontains.mpr hcolon, Bool.false_ne_true⟩, if_pos hcolon]
    simp
  · rw [if_neg fun hc => hcolon (hcontains.mp hc.1), if_neg hcolon]

theorem trimBrackets_plain (hh : Plain h) : trimBrackets h = h := by
  have hno : ∀ c ∈ h, ¬ (c = '[' || c = ']') = true := by
    intro c hc hbracket
    rcases Bool.or_eq_true .. ▸ hbracket with hb | hb
    · exact hh.opening (of_decide_eq_true hb ▸ hc)
    · exact hh.closing (of_decide_eq_true hb ▸ hc)
  have hfirst : (h.dropWhile fun c => c = '[' || c = ']') = h := by
    cases h with
    | nil => rfl
    | cons c cs => exact List.dropWhile_cons_of_neg (hno c List.mem_cons_self)
  rw [trimBrackets, hfirst, List.rdropWhile_eq_self_iff]
  exact fun hne => hno _ (List.getLast_mem hne)

theorem trimBrackets_bracketed (hh : Plain h) : trimBrackets ('[' :: (h ++ [']'])) = h := by
  have hplain := trimBrackets_plain hh
  have hfirst : ('[' :: (h ++ [']'])).dropWhile (fun c => c = '[' || c = ']') = h ++ [']'] := by
    rw [List.dropWhile_cons_of_pos (by decide)]
    cases h with
    | nil => exact absurd rfl hh.ne_nil
    | cons c cs =>
        refine List.dropWhile_cons_of_neg fun hbracket => ?_
        rcases Bool.or_eq_true .. ▸ hbracket with hb | hb
        · exact hh.opening (of_decide_eq_true hb ▸ List.mem_cons_self)
        · exact hh.closing (of_decide_eq_true hb ▸ List.mem_cons_self)
  have hlast : h.rdropWhile (fun c => c = '[' || c = ']') = h := by
    rw [List.rdropWhile_eq_self_iff]
    intro hne hbracket
    rcases Bool.or_eq_true .. ▸ hbracket with hb | hb
    · exact hh.opening (of_decide_eq_true hb ▸ List.getLast_mem hne)
    · exact hh.closing (of_decide_eq_true hb ▸ List.getLast_mem hne)
  rw [trimBrackets, hfirst, List.rdropWhile_concat_pos _ _ _ (by decide), hlast]

/-- `with_port` brings an authority into its one form. -/
theorem withPort_written {a : Str} {port : Option Str} (hw : Written a h port) (hplain : Plain h)
    (d : Str) : withPort a (String.ofList d) = some (canonical h (port.getD d)) := by
  have hne : a.isEmpty = false := by simpa using hw.ne_nil
  have hhost : h.isEmpty = false := by simpa using hplain.ne_nil
  rw [withPort, hw.trimmed]
  show (if a.isEmpty = true then none else _) = _
  rw [hne, if_neg Bool.false_ne_true]
  cases hw with
  | bare hh =>
      have hnone : trySplitHostPort h = none := by
        have hstart := startsWith_plain hplain []
        rw [List.append_nil] at hstart
        rw [trySplitHostPort, hstart, if_neg Bool.false_ne_true]
        refine if_neg fun hone => ?_
        rcases hplain.colons with hno | htwo
        · rw [List.count_eq_zero.mpr hno] at hone
          cases hone
        · omega
      rw [hnone]
      show (if (trimBrackets h).isEmpty = true then none else _) = _
      rw [trimBrackets_plain hplain, hhost, if_neg Bool.false_ne_true, joinHostPort_eq hplain,
        String.toList_ofList]
      rfl
  | bracketed hv =>
      rw [trySplit_bracketed hplain]
      show (if (trimBrackets _).isEmpty = true then none else _) = _
      rw [trimBrackets_bracketed hplain, hhost, if_neg Bool.false_ne_true, joinHostPort_eq hplain,
        String.toList_ofList]
      rfl
  | @port _ p hh hcolon hp =>
      have hform : h ++ ':' :: p = canonical h p := (if_neg hcolon).symm
      rw [hform, trySplit_canonical hplain hp]
      exact congrArg some (joinHostPort_eq hplain p)
  | @bracketedPort _ p hv hp =>
      have hform : '[' :: (h ++ ']' :: ':' :: p) = canonical h p := (if_pos hv.colons.2).symm
      rw [hform, trySplit_canonical hplain hp]
      exact congrArg some (joinHostPort_eq hplain p)

/-! ## The one form, by all who read it -/

theorem Written.plain {a : Str} {port : Option Str} (hw : Written a h port) : Plain h := by
  cases hw with
  | bare hh => exact hh.plain
  | bracketed hv => exact hv.colons.1
  | port hh => exact hh.plain
  | bracketedPort hv => exact hv.colons.1

/-- The port of an authority, or the default one. -/
theorem Written.isPort {a : Str} {port : Option Str} (hw : Written a h port) (hd : IsPort d) :
    IsPort (port.getD d) := by
  cases hw with
  | bare => exact hd
  | bracketed => exact hd
  | port _ _ hp => exact hp
  | bracketedPort _ hp => exact hp

/-- The one form is itself an authority of the host and the port. -/
theorem Written.canonical {a : Str} {port : Option Str} (hw : Written a h port) (hp : IsPort p) :
    Written (canonical h p) h (some p) := by
  rw [Authority.canonical]
  split
  · next hcolon =>
      refine .bracketedPort ?_ hp
      have haddress : IsHost h → IsIpv6 h := fun hh => by
        cases hh with
        | name _ _ hno => exact absurd hcolon hno
        | @address ip hip =>
            cases ip with
            | v4 ip => exact absurd hcolon (notMem_colon_of_v4 (chars_of_parseIpAddr hip).2.1)
            | v6 ip => exact ⟨ip, hip⟩
      cases hw with
      | bare hh => exact haddress hh
      | bracketed hv => exact hv
      | port hh => exact haddress hh
      | bracketedPort hv => exact hv
  · next hcolon =>
      refine .port ?_ hcolon hp
      cases hw with
      | bare hh => exact hh
      | bracketed hv => exact absurd hv.colons.2 hcolon
      | port hh => exact hh
      | bracketedPort hv => exact absurd hv.colons.2 hcolon

theorem routeHost_canonical (hh : Plain h) (hp : IsPort p) : RuleDb.routeHost (canonical h p) = h := by
  rw [RuleDb.routeHost, trySplit_canonical hh hp]
  show trimBrackets (trim h) = h
  rw [hh.trimmed, trimBrackets_plain hh]

theorem dialTarget_canonical (hh : Plain h) (hp : IsPort p) : dialTarget (canonical h p) =
    .ok (match parseU16 p with
      | some port => .ok (h, port)
      | none => .error (.anyhow (portError p))) := by
  rw [dialTarget, trySplit_canonical hh hp]
  show Except.ok _ = _
  rw [trimBrackets_plain hh]

theorem connectTarget_canonical (hh : Plain h) (hp : IsPort p) : connectTarget (canonical h p) =
    match parseU16 p with
    | some port => .ok (h, port)
    | none => .error (.invalidInput "invalid port") := by
  rw [connectTarget, trySplit_canonical hh hp]
  have hhost := trimBrackets_plain hh
  cases hport : parseU16 p with
  | none => simp [hport]
  | some port => simp [hport, hhost]

/-- What is written for a host, with or without a port, has one form with that host and its
port or the default one.  The form is kept by `with_port`, a host and a port that were
joined are split again, and the rules, the dialer and the direct connection all take that
host and, where it is a number of sixteen bits, that port from it. -/
theorem authorities_agree {a host d : Str} {port : Option Str} (hw : Written a host port)
    (hd : IsPort d) :
    withPort a (String.ofList d) = some (canonical host (port.getD d)) ∧
    (∀ other, withPort (canonical host (port.getD d)) (String.ofList other) =
      some (canonical host (port.getD d))) ∧
    (∀ p, IsPort p → trySplitHostPort (joinHostPort host p) = some (host, p)) ∧
    (∀ idna cache now, RuleDb.decide idna cache now (canonical host (port.getD d)) =
      RuleDb.judge idna cache now host) ∧
    (∀ crates draws doh node, dialAsync crates draws doh (some node) (canonical host (port.getD d)) =
      .ok (match parseU16 (port.getD d) with
        | some n => dialVia crates draws doh node host n
        | none => .fail (.anyhow (portError (port.getD d))))) ∧
    ∀ via lookup, connectWith via lookup (canonical host (port.getD d)) =
      match parseU16 (port.getD d) with
      | some n => connectTo via lookup host n
      | none => .error (.invalidInput "invalid port") := by
  have hh := hw.plain
  have hp := hw.isPort hd
  refine ⟨withPort_written hw hh d, fun other => withPort_written (hw.canonical hp) hh other,
    fun p hp => ?_, fun idna cache now => ?_, fun crates draws doh node => ?_, fun via lookup => ?_⟩
  · rw [joinHostPort_eq hh, trySplit_canonical hh hp]
  · rw [RuleDb.decide, routeHost_canonical hh hp]
  · show (dialTarget _ >>= _) = _
    rw [dialTarget_canonical hh hp]
    cases parseU16 (port.getD d) <;> rfl
  · show (connectTarget _ >>= _) = _
    rw [connectTarget_canonical hh hp]
    cases parseU16 (port.getD d) <;> rfl

/-- A bracketed address without a port. -/
theorem authorities_agree_loopback : withPort "[::1]".toList "443" = some "[::1]:443".toList := by
  have hv : IsIpv6 "::1".toList :=
    ⟨.ofGroups [0, 0, 0, 0, 0, 0, 0, 1], by decide +kernel⟩
  have hd : IsPort "443".toList := ⟨by decide, List.forall_iff_forall_mem.mp (by decide)⟩
  exact (authorities_agree (.bracketed hv) hd).1

end Authority

end RustClash
