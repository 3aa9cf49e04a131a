import RustClash.Core.DnsNames
import RustClash.Lib.Race

/-!
# Lookups over UDP

`udp_lookup` sends one question and waits 800 milliseconds for its answer.  The
datagrams that arrive until then are a list, and the end of the list is the deadline.  The
loop takes the first datagram with the id of the question, whoever sent it and whatever
it asks: `First` says which one that is, and `Genuine` which one it should be.
-/

namespace RustClash

namespace Dns

open Str Checked

/-! ## The lookup -/

structure Datagram where
  source : SocketAddrV4
  data : Bytes

inductive LookupError where
  | io
  | invalidServer
  /-- "udp DNS timeout" -/
  | timeout
  /-- "udp DNS empty for {host}" -/
  | empty (host : Str)
deriving DecidableEq

/-- The socket of a lookup, and the text of an address. -/
structure Network where
  binds : Bool
  sends : Bytes → SocketAddrV4 → Bool
  parse : Str → Option SocketAddrV4
  /-- A datagram longer than the buffer is an error, as on Windows, or else it is cut. -/
  strict : Bool

/-- `next_dns_id`: the id, and the counter after it. -/
def nextDnsId (counter : UInt16) : UInt16 × UInt16 := (max counter 1, counter + 1)

/-- `recv` into the buffer of 512 bytes. -/
def recv (strict : Bool) (d : Datagram) : Option Bytes :=
  if strict ∧ 512 < d.data.length then none else some (d.data.take 512)

/-- The loop of `udp_lookup`. -/
def receiveLoop (strict : Bool) (id : UInt16) (host : Str) :
    List Datagram → Checked (Except LookupError (List IpAddr))
  | [] => .ok (.error .timeout)
  | d :: ds =>
      match recv strict d with
      | none => .ok (.error .io)
      | some buf =>
          if buf.length < 12 then receiveLoop strict id host ds
          else do
            let rid ← be16 buf 0
            if rid ≠ id then receiveLoop strict id host ds
            else do
              let ips ← parseAAnswers buf
              .ok (if (ips.getD []).isEmpty then .error (.empty host) else .ok (ips.getD []))

variable (idna : String → Option String) (net : Network) (counter : UInt16) (server host : Str)

def udpLookup (arrivals : List Datagram) : Checked (Except LookupError (List IpAddr)) :=
  if net.binds then
    let id := (nextDnsId counter).1
    let q := buildDnsQuery idna id host
    match net.parse server with
    | none => .ok (.error .invalidServer)
    | some dest =>
        if net.sends q dest then receiveLoop net.strict id host arrivals else .ok (.error .io)
  else .ok (.error .io)

/-! ## What an answer is -/

/-- `n` questions from `off` to `stop`, wherever their names point. -/
inductive QuestionsIn (msg : Bytes) : (n off stop : Nat) → Prop where
  | nil {off : Nat} : QuestionsIn msg 0 off off
  | cons {n off next stop : Nat} : InPlace msg off next → next + 4 ≤ msg.length →
      QuestionsIn msg n (next + 4) stop → QuestionsIn msg (n + 1) off stop

/-- The addresses of `n` records from `off` on. -/
inductive RecordsIn (msg : Bytes) : (ips : List IpAddr) → (n off : Nat) → Prop where
  | nil {off : Nat} : RecordsIn msg [] 0 off
  | cons {ips : List IpAddr} {n off next : Nat} {a : Answer} : InPlace msg off next →
      a.bytes <+: msg.drop next → RecordsIn msg ips n (next + 10 + a.rdata.length) →
      RecordsIn msg (a.address.toList ++ ips) (n + 1) off

/-- The addresses of the answer section. -/
def AddressesIn (msg : Bytes) (ips : List IpAddr) : Prop :=
  ∃ (qd an : UInt16) (start : Nat), toBe16 qd.toNat <+: msg.drop 4 ∧
    toBe16 an.toNat <+: msg.drop 6 ∧ QuestionsIn msg qd.toNat 12 start ∧
      RecordsIn msg ips an.toNat start

/-- One question, and it asks for the addresses of the name with these labels. -/
def AsksOnly (labels : List Bytes) (msg : Bytes) : Prop :=
  toBe16 1 <+: msg.drop 4 ∧ ∃ k next, NameAt msg 12 k labels next ∧ [0, 1, 0, 1] <+: msg.drop next

/-- The labels of the normal form of a name. -/
def normalLabels : List Bytes :=
  (labelsOf (domainToAscii idna (String.ofList host)).toList).map bytes

/-- A datagram of the server, with the id and the question of the query. -/
structure Genuine (d : Datagram) : Prop where
  source : net.parse server = some d.source
  id : toBe16 (nextDnsId counter).1.toNat <+: d.data
  asks : AsksOnly (normalLabels idna host) d.data

/-- The lookup waits until `d` arrives, and not any longer. -/
def Ends (before : List Datagram) (d : Datagram) : Prop :=
  udpLookup idna net counter server host before = .ok (.error .timeout) ∧
    udpLookup idna net counter server host (before ++ [d]) ≠ .ok (.error .timeout)

/-- The addresses are those of a genuine answer, and nothing else ends the lookup. -/
def Trusts (arrivals : List Datagram) : Prop :=
  (∀ ips, udpLookup idna net counter server host arrivals = .ok (.ok ips) →
    ∃ d ∈ arrivals, Genuine idna net counter server host d ∧ AddressesIn d.data ips) ∧
  ∀ before d after, arrivals = before ++ d :: after →
    Ends idna net counter server host before d → Genuine idna net counter server host d

/-- The query is on its way. -/
def Asked : Prop := net.binds ∧ ∃ dest, net.parse server = some dest ∧
  net.sends (buildDnsQuery idna (nextDnsId counter).1 host) dest

/-- The loop ends at `d`: it carries the id, or it is too long to be received. -/
def Stops (strict : Bool) (id : UInt16) (d : Datagram) : Prop :=
  strict ∧ 512 < d.data.length ∨ 12 ≤ d.data.length ∧ toBe16 id.toNat <+: d.data

/-- The first datagram that the loop does not pass over. -/
def First (strict : Bool) (id : UInt16) (arrivals : List Datagram) (d : Datagram) : Prop :=
  ∃ before after, arrivals = before ++ d :: after ∧ (∀ e ∈ before, ¬ Stops strict id e) ∧
    Stops strict id d

/-! ## What is read is there -/

section Reading

variable {msg : Bytes}

/-- Ten bytes and as many as the last two of them count are a record. -/
theorem exists_answer {off : Nat} {rdlen : UInt16} (hrdlen : be16 msg (off + 8) = .ok rdlen)
    (hroom : off + 10 + rdlen.toNat ≤ msg.length) :
    ∃ a : Answer, a.bytes <+: msg.drop off ∧ a.rdata.length = rdlen.toNat := by
  obtain ⟨ty, hty⟩ := @runs_be16 msg off (by omega)
  obtain ⟨cls, hcls⟩ := @runs_be16 msg (off + 2) (by omega)
  obtain ⟨ttl, httl⟩ : ∃ ttl : UInt32, toBe 4 ttl.toNat = (msg.drop (off + 4)).take 4 := by
    have hfour : ((msg.drop (off + 4)).take 4).length = 4 := by
      rw [List.length_take, List.length_drop]
      omega
    have hlt := ofBe_lt ((msg.drop (off + 4)).take 4)
    have hback := toBe_ofBe ((msg.drop (off + 4)).take 4)
    rw [hfour] at hlt hback
    exact ⟨_, by rw [UInt32.toNat_ofNat_of_lt' hlt, hback]⟩
  let rdata := (msg.drop (off + 10)).take rdlen.toNat
  have hlen : rdata.length = rdlen.toNat := by
    rw [List.length_take, List.length_drop]
    omega
  have hshort : rdata.length < 65536 := hlen ▸ rdlen.toNat_lt
  refine ⟨⟨ty, cls, ttl, rdata, hshort⟩, ?_, hlen⟩
  refine prefix_append_drop (isPrefix_of_be16 hty) ?_
  refine prefix_append_drop (isPrefix_of_be16 hcls) ?_
  have hfirst : toBe 4 ttl.toNat <+: msg.drop (off + 4) := httl ▸ List.take_prefix _ _
  refine prefix_append_drop hfirst ?_
  refine prefix_append_drop ?_ ?_
  · rw [hlen, UInt16.ofNat_toNat, length_toBe]
    exact isPrefix_of_be16 hrdlen
  · rw [length_toBe]
    exact List.take_prefix _ _

theorem skipQuestions_stop : ∀ {n off stop : Nat}, skipQuestions msg n off = .ok (some stop) →
    QuestionsIn msg n off stop
  | 0, _, _, h => by
      cases h
      exact .nil
  | n + 1, off, stop, h => by
      rw [skipQuestions] at h
      rcases readDnsName_inPlace msg off with hnone | ⟨name, next, hread, hplace⟩
      · rw [hnone] at h
        cases h
      · rw [hread] at h
        change (if _ then _ else _) = _ at h
        split at h
        · cases h
        · next hroom => exact .cons hplace (Nat.not_lt.mp hroom) (skipQuestions_stop h)

theorem readAnswers_records : ∀ {n off : Nat} {ips out : List IpAddr},
    readAnswers msg n off ips = .ok (some out) →
    ∃ more, out = ips ++ more ∧ RecordsIn msg more n off
  | 0, _, ips, _, h => by
      cases h
      exact ⟨[], (List.append_nil ips).symm, .nil⟩
  | n + 1, off, ips, out, h => by
      have hwhole := h
      rw [readAnswers] at h
      rcases readDnsName_inPlace msg off with hnone | ⟨name, next, hread, hplace⟩
      · rw [hnone] at h
        cases h
      · rw [hread] at h
        change (if _ then _ else _) = _ at h
        split at h
        · cases h
        · obtain ⟨ty, -, h⟩ := bind_eq_ok.mp h
          obtain ⟨rdlen, hrdlen, h⟩ := bind_eq_ok.mp h
          split at h
          · cases h
          · next hroom =>
              obtain ⟨a, hbytes, -⟩ := exists_answer hrdlen (Nat.not_lt.mp hroom)
              rw [readAnswers_record hread hbytes] at hwhole
              obtain ⟨more, hout, hrecords⟩ := readAnswers_records hwhole
              exact ⟨a.address.toList ++ more, by rw [hout, List.append_assoc],
                .cons hplace hbytes hrecords⟩

theorem parseAAnswers_addresses {ips : List IpAddr} (h : parseAAnswers msg = .ok (some ips)) :
    AddressesIn msg ips := by
  rw [parseAAnswers] at h
  split at h
  · cases h
  · obtain ⟨flags, -, h⟩ := bind_eq_ok.mp h
    split at h
    · cases h
    · obtain ⟨qd, hqd, h⟩ := bind_eq_ok.mp h
      obtain ⟨an, han, h⟩ := bind_eq_ok.mp h
      obtain ⟨stop, hstop, h⟩ := bind_eq_ok.mp h
      cases stop with
      | none => cases h
      | some start =>
          obtain ⟨more, rfl, hrecords⟩ := readAnswers_records h
          exact ⟨qd, an, start, isPrefix_of_be16 hqd, isPrefix_of_be16 han,
            skipQuestions_stop hstop, hrecords⟩

/-! ## A datagram that is cut -/

variable {cut : Bytes} (hcut : cut <+: msg)

include hcut

theorem prefix_of_cut {bs : Bytes} {off : Nat} (h : bs <+: cut.drop off) : bs <+: msg.drop off := by
  obtain ⟨rest, rfl⟩ := hcut
  rw [List.drop_append]
  exact h.trans (List.prefix_append _ _)

theorem getElem?_of_cut {i : Nat} {b : UInt8} (h : cut[i]? = some b) : msg[i]? = some b := by
  obtain ⟨rest, rfl⟩ := hcut
  rwa [List.getElem?_append_left (List.getElem?_eq_some_iff.mp h).1]

theorem inPlace_of_cut {off next : Nat} (h : InPlace cut off next) : InPlace msg off next := by
  have hle := hcut.length_le
  induction h with
  | root h0 => exact .root (getElem?_of_cut hcut h0)
  | pointer hhigh hp hroom =>
      exact .pointer (getElem?_of_cut hcut hhigh) hp (Nat.le_trans hroom hle)
  | label hlen h0 hp hroom _ ih =>
      exact .label (getElem?_of_cut hcut hlen) h0 hp (Nat.le_trans hroom hle) ih

theorem questionsIn_of_cut {n off stop : Nat} (h : QuestionsIn cut n off stop) :
    QuestionsIn msg n off stop := by
  induction h with
  | nil => exact .nil
  | cons hplace hroom _ ih =>
      exact .cons (inPlace_of_cut hcut hplace) (Nat.le_trans hroom hcut.length_le) ih

theorem recordsIn_of_cut {ips : List IpAddr} {n off : Nat} (h : RecordsIn cut ips n off) :
    RecordsIn msg ips n off := by
  induction h with
  | nil => exact .nil
  | cons hplace hbytes _ ih =>
      exact .cons (inPlace_of_cut hcut hplace) (prefix_of_cut hcut hbytes) ih

/-- What a cut datagram is read as stands in the whole one. -/
theorem addressesIn_of_cut {ips : List IpAddr} (h : AddressesIn cut ips) : AddressesIn msg ips := by
  obtain ⟨qd, an, start, hqd, han, hquestions, hrecords⟩ := h
  exact ⟨qd, an, start, prefix_of_cut hcut hqd, prefix_of_cut hcut han,
    questionsIn_of_cut hcut hquestions, recordsIn_of_cut hcut hrecords⟩

end Reading

/-! ## The loop -/

section Receiving

variable {strict : Bool} {id : UInt16} {host : Str} {d : Datagram} {ds : List Datagram}

/-- The loop passes over a datagram. -/
theorem receiveLoop_skip (h : ¬ Stops strict id d) :
    receiveLoop strict id host (d :: ds) = receiveLoop strict id host ds := by
  rw [Stops, not_or] at h
  rw [receiveLoop, recv, if_neg h.1]
  dsimp only
  split
  · rfl
  · next hlen =>
      have hlong : 12 ≤ d.data.length := by
        rw [List.length_take] at hlen
        omega
      obtain ⟨rid, hrid⟩ := @runs_be16 (d.data.take 512) 0 (by omega)
      rw [hrid]
      refine if_pos fun heq => h.2 ⟨hlong, ?_⟩
      exact (heq ▸ be16_eq_iff.mp hrid).trans (List.take_prefix _ _)

/-- The loop ends at a datagram, whatever comes behind it. -/
theorem receiveLoop_stop (strict : Bool) (id : UInt16) (host : Str) (d : Datagram)
    (h : Stops strict id d) : ∃ r, r ≠ .error .timeout ∧
      (∀ ds, receiveLoop strict id host (d :: ds) = .ok r) ∧
      ∀ ips, r = .ok ips → AddressesIn d.data ips := by
  by_cases hstrict : strict ∧ 512 < d.data.length
  · refine ⟨.error .io, by simp, fun ds => ?_, fun ips hips => by cases hips⟩
    rw [receiveLoop, recv, if_pos hstrict]
  · obtain ⟨hlong, hid⟩ := h.resolve_left hstrict
    have hlen : ¬ (d.data.take 512).length < 12 := by
      rw [List.length_take]
      omega
    have hrid : be16 (d.data.take 512) 0 = .ok id :=
      be16_eq_iff.mpr (List.prefix_take_iff.mpr ⟨hid, by simp⟩)
    obtain ⟨ips, hips⟩ := runs_parseAAnswers (d.data.take 512)
    refine ⟨if (ips.getD []).isEmpty then .error (.empty host) else .ok (ips.getD []), ?_,
      fun ds => ?_, fun ips' hr => ?_⟩
    · split <;> simp
    · rw [receiveLoop, recv, if_neg hstrict]
      dsimp only
      rw [if_neg hlen, hrid]
      show (if id ≠ id then _ else _) = _
      rw [if_neg (not_not.mpr rfl), hips]
      rfl
    · split at hr
      · cases hr
      · next hne =>
          cases hr
          cases ips with
          | none => exact absurd rfl hne
          | some ips =>
              exact addressesIn_of_cut (List.take_prefix _ _) (parseAAnswers_addresses hips)

theorem receiveLoop_waits : receiveLoop strict id host ds = .ok (.error .timeout) ↔
    ∀ d ∈ ds, ¬ Stops strict id d := by
  induction ds with
  | nil => exact iff_of_true rfl (fun _ hd => by cases hd)
  | cons d ds ih =>
      rw [List.forall_mem_cons]
      by_cases h : Stops strict id d
      · obtain ⟨r, hr, hstop, -⟩ := receiveLoop_stop strict id host d h
        rw [hstop]
        exact iff_of_false (fun heq => hr (Except.ok.inj heq)) (fun hall => hall.1 h)
      · rw [receiveLoop_skip h, ih]
        exact (and_iff_right h).symm

/-- The first datagram that the loop does not pass over gives what the loop returns. -/
theorem receiveLoop_ok {ips : List IpAddr} (h : receiveLoop strict id host ds = .ok (.ok ips)) :
    ∃ d, First strict id ds d ∧ AddressesIn d.data ips := by
  induction ds with
  | nil => cases h
  | cons d ds ih =>
      by_cases hd : Stops strict id d
      · obtain ⟨r, -, hstop, haddresses⟩ := receiveLoop_stop strict id host d hd
        rw [hstop] at h
        exact ⟨d, ⟨[], ds, rfl, fun _ he => (by cases he), hd⟩, haddresses _ (Except.ok.inj h)⟩
      · rw [receiveLoop_skip hd] at h
        obtain ⟨e, ⟨before, after, hds, hbefore, he⟩, haddresses⟩ := ih h
        exact ⟨e, ⟨d :: before, after, congrArg _ hds, List.forall_mem_cons.mpr ⟨hd, hbefore⟩, he⟩,
          haddresses⟩

end Receiving

/-! ## The lookup as a whole -/

/-- Either the query is on its way and the loop runs, or the lookup fails before it. -/
theorem udpLookup_cases :
    (Asked idna net counter server host ∧ ∀ arrivals,
      udpLookup idna net counter server host arrivals =
        receiveLoop net.strict (nextDnsId counter).1 host arrivals) ∨
    ¬ Asked idna net counter server host ∧ ∃ e, e ≠ LookupError.timeout ∧
      ∀ arrivals, udpLookup idna net counter server host arrivals = .ok (.error e) := by
  simp only [Asked, udpLookup]
  by_cases hbinds : net.binds
  · simp only [hbinds, if_true, true_and]
    cases hparse : net.parse server with
    | none => exact .inr ⟨by simp, .invalidServer, by simp, fun _ => rfl⟩
    | some dest =>
        by_cases hsends : net.sends (buildDnsQuery idna (nextDnsId counter).1 host) dest
        · exact .inl ⟨⟨dest, rfl, hsends⟩, fun _ => if_pos hsends⟩
        · refine .inr ⟨?_, .io, by simp, fun _ => if_neg hsends⟩
          rintro ⟨dest', hdest, hsends'⟩
          cases hdest
          exact hsends hsends'
  · exact .inr ⟨fun hasked => hbinds hasked.1, .io, by simp, fun _ => if_neg hbinds⟩

/-- A lookup trusts only what it should, exactly if the first datagram that its loop does
not pass over is genuine. -/
theorem trusts_iff (arrivals : List Datagram) : Trusts idna net counter server host arrivals ↔
    (Asked idna net counter server host → ∀ d,
      First net.strict (nextDnsId counter).1 arrivals d →
        Genuine idna net counter server host d) := by
  rcases udpLookup_cases idna net counter server host with ⟨hasked, hloop⟩ | ⟨hnot, e, he, herror⟩
  · simp only [Trusts, Ends, hloop]
    constructor
    · rintro ⟨-, hends⟩ - d ⟨before, after, harrivals, hbefore, hd⟩
      refine hends before d after harrivals ⟨receiveLoop_waits.mpr hbefore, fun hwaits => ?_⟩
      exact receiveLoop_waits.mp hwaits d (by simp) hd
    · intro hfirst
      refine ⟨fun ips hok => ?_, ?_⟩
      · obtain ⟨d, hd, haddresses⟩ := receiveLoop_ok hok
        obtain ⟨before, after, harrivals, -⟩ := id hd
        exact ⟨d, by simp [harrivals], hfirst hasked d hd, haddresses⟩
      · rintro before d after harrivals ⟨hwaits, hends⟩
        have hbefore := receiveLoop_waits.mp hwaits
        refine hfirst hasked d ⟨before, after, harrivals, hbefore, ?_⟩
        by_contra hd
        refine hends (receiveLoop_waits.mpr fun e he => ?_)
        rcases List.mem_append.mp he with he | he
        · exact hbefore e he
        · exact List.mem_singleton.mp he ▸ hd
  · refine iff_of_true ⟨fun ips hok => ?_, ?_⟩ fun hasked => absurd hasked hnot
    · rw [herror] at hok
      cases hok
    · rintro before d after - ⟨hwaits, -⟩
      rw [herror] at hwaits
      exact absurd (Except.error.inj (Except.ok.inj hwaits)) he

/-- A network that sends everything, and reads every text as 223.5.5.5:53. -/
def openNetwork : Network := ⟨true, fun _ _ => true, fun _ => some ⟨⟨223, 5, 5, 5⟩, 53⟩, false⟩

/-- No question, and 6.6.6.6 as the address of the root, from 6.6.6.6:53. -/
def forged : Datagram := ⟨⟨⟨6, 6, 6, 6⟩, 53⟩,
  [0, 1, 0x81, 0x80, 0, 0, 0, 1, 0, 0, 0, 0, 0, 0, 1, 0, 1, 0, 0, 0, 60, 0, 4, 6, 6, 6, 6]⟩

/-- It is taken for the address of `a.b`. -/
theorem not_trusts : ¬ ∀ idna net counter server host arrivals,
    Trusts idna net counter server host arrivals := by
  intro hall
  have hok : udpLookup (fun _ => none) openNetwork 1 "223.5.5.5:53".toList "a.b".toList [forged] =
      .ok (.ok [.v4 ⟨6, 6, 6, 6⟩]) := by rfl
  obtain ⟨d, hd, hgenuine, -⟩ := (hall _ _ _ _ _ _).1 _ hok
  rw [List.mem_singleton] at hd
  subst hd
  exact absurd hgenuine.source (by decide)

/-! ## Two lookups at once -/

def udpServers : List Str := ["223.5.5.5:53".toList, "1.12.12.12:53".toList]

inductive Asking where
  | waiting
  | answered
  | failed
deriving DecidableEq

/-- What a lookup of the race has: the counter of the ids as it finds it, and the datagrams that
arrive at its socket until its deadline. -/
structure Socket where
  counter : UInt16
  arrivals : List Datagram

/-- A lookup of the race ends with addresses, which it sends, or with an error. -/
inductive Asking.Step (idna : String → Option String) (net : Network) (host : Str)
  (sockets : Nat → Socket) (now i : Nat) : Asking → Option (List IpAddr) → Asking → Prop
| answer {server : Str} {ips : List IpAddr} :
  udpServers[i]? = some server ->
  udpLookup idna net (sockets i).counter server host (sockets i).arrivals = .ok (.ok ips) ->
  Step idna net host sockets now i .waiting (some ips) .answered
| fail {server : Str} {e : LookupError} :
  udpServers[i]? = some server ->
  udpLookup idna net (sockets i).counter server host (sockets i).arrivals = .ok (.error e) ->
  Step idna net host sockets now i .waiting none .failed

/-- `udp_lookup_race`: the first list is taken if it is not empty.  Nothing is "udp DNS empty". -/
def udpLookupRace (idna : String → Option String) (net : Network) (host : Str)
    (sockets : Nat → Socket) : Race Asking (List IpAddr) Unit (Option (List IpAddr)) where
  step := Asking.Step idna net host sockets
  ended t := t ≠ .waiting
  stop t := t
  receive _ ips := .inr (if ips.isEmpty then none else some ips)
  closed _ := none
  deadline := some (900, none)

abbrev Lookups := Race.State Asking (List IpAddr) Unit (Option (List IpAddr))

def Lookups.start : Lookups := Race.start (udpServers.map fun _ => .waiting) ()

/-- The addresses stand in the first of its datagrams that the lookup at a place did not pass
over. -/
def Answered (net : Network) (sockets : Nat → Socket) (i : Nat) (ips : List IpAddr) : Prop :=
  i < udpServers.length ∧ ips ≠ [] ∧ ∃ d,
    First net.strict (nextDnsId (sockets i).counter).1 (sockets i).arrivals d ∧
      AddressesIn d.data ips

/-- The lookup at a place comes to an error with what arrives. -/
def Fails (idna : String → Option String) (net : Network) (host : Str) (sockets : Nat → Socket)
    (i : Nat) : Prop :=
  ∃ server e, udpServers[i]? = some server ∧
    udpLookup idna net (sockets i).counter server host (sockets i).arrivals = .ok (.error e)

variable {idna} {net} {host} {sockets : Nat → Socket}

theorem receiveLoop_ne_nil {strict : Bool} {id : UInt16} {arrivals : List Datagram}
    {ips : List IpAddr} (h : receiveLoop strict id host arrivals = .ok (.ok ips)) : ips ≠ [] := by
  induction arrivals with
  | nil => cases h
  | cons d ds ih =>
    rw [receiveLoop] at h
    cases hrecv : recv strict d with
    | none =>
      rw [hrecv] at h
      cases h
    | some buf =>
      simp only [hrecv] at h
      split at h
      · exact ih h
      · obtain ⟨rid, -, h⟩ := bind_eq_ok.mp h
        split at h
        · exact ih h
        · obtain ⟨found, -, h⟩ := bind_eq_ok.mp h
          split at h
          · cases h
          · next hne =>
            cases h
            exact fun hnil => hne (List.isEmpty_iff.mpr hnil)

theorem udpLookup_answered {i : Nat} {server : Str} (hserver : udpServers[i]? = some server)
    {ips : List IpAddr}
    (h : udpLookup idna net (sockets i).counter server host (sockets i).arrivals = .ok (.ok ips)) :
    Answered net sockets i ips := by
  rcases udpLookup_cases idna net (sockets i).counter server host with
    ⟨-, hloop⟩ | ⟨-, e, -, herror⟩
  · rw [hloop] at h
    obtain ⟨d, hfirst, haddresses⟩ := receiveLoop_ok h
    exact ⟨(List.getElem?_eq_some_iff.mp hserver).1, receiveLoop_ne_nil h, d, hfirst, haddresses⟩
  · rw [herror] at h
    cases h

theorem udpLookupRace_once : (udpLookupRace idna net host sockets).Once where
  ends := by
    intro now i t m t' h
    cases h
    exact Asking.noConfusion
  stays := by
    intro now i t m t' hended h
    cases h with
    | answer => exact hended rfl
    | fail => exact hended rfl
  stop := fun h => h

/-- What is true of a race of lookups at any time. -/
structure Lookups.Inv (idna : String → Option String) (net : Network) (host : Str)
    (sockets : Nat → Socket) (s : Lookups) : Prop where
  race : (udpLookupRace idna net host sockets).Inv udpServers.length () s
  answered : ∀ x ∈ s.sent, Answered net sockets x.1 x.2
  failed : ∀ i : Nat, s.tasks[i]? = some Asking.failed → Fails idna net host sockets i
  sent : ∀ i : Nat, s.tasks[i]? = some Asking.answered → ∃ x, x ∈ s.sent

theorem Lookups.inv_start : Lookups.start.Inv idna net host sockets where
  race := Race.inv_start [Asking.waiting, Asking.waiting] ()
  answered := by
    intro x hx
    cases hx
  failed := by
    intro i hi
    rw [start, Race.start, List.getElem?_map] at hi
    obtain ⟨a, -, ha⟩ := Option.map_eq_some_iff.mp hi
    cases ha
  sent := by
    intro i hi
    rw [start, Race.start, List.getElem?_map] at hi
    obtain ⟨a, -, ha⟩ := Option.map_eq_some_iff.mp hi
    cases ha

/-- A place of a list in which one was replaced. -/
theorem set_cases {l : List Asking} {i j : Nat} {t t' u : Asking} (ht : l[i]? = some t)
    (hj : (l.set i t')[j]? = some u) : i = j ∧ t' = u ∨ l[j]? = some u := by
  by_cases hij : i = j
  · subst hij
    have hlt := (List.getElem?_eq_some_iff.mp ht).1
    exact .inl ⟨rfl, Option.some.inj ((List.getElem?_set_self hlt).symm.trans hj)⟩
  · exact .inr ((List.getElem?_set_ne hij).symm.trans hj)

theorem Lookups.Inv.step {s s' : Lookups} {e : Race.Event} (h : s.Inv idna net host sockets)
    (hstep : (udpLookupRace idna net host sockets).Step s e s') : s'.Inv idna net host sockets := by
  have hrace := h.race.step udpLookupRace_once hstep
  cases hstep with
  | tick => exact ⟨hrace, h.answered, h.failed, h.sent⟩
  | @task i t t' m ht hstep =>
    have hother {u : Asking} (j : Nat) (hj : (s.tasks.set i t')[j]? = some u) :
        i = j ∧ t' = u ∨ s.tasks[j]? = some u := set_cases ht hj
    cases hstep with
    | @answer server ips hserver hlookup =>
      refine ⟨hrace, ?_, ?_,
        fun _ _ => ⟨(i, ips), List.mem_append_right _ (List.mem_singleton_self _)⟩⟩
      · intro x hx
        rcases List.mem_append.mp hx with hx | hx
        · exact h.answered x hx
        · rw [List.mem_singleton.mp hx]
          exact udpLookup_answered hserver hlookup
      · intro j hj
        rcases hother j hj with ⟨-, hfailed⟩ | hj
        · cases hfailed
        · exact h.failed j hj
    | @fail server e hserver hlookup =>
      refine ⟨hrace, fun x hx => h.answered x (by simpa using hx), ?_, ?_⟩
      · intro j hj
        rcases hother j hj with ⟨rfl, -⟩ | hj
        · exact ⟨server, e, hserver, hlookup⟩
        · exact h.failed j hj
      · intro j hj
        rcases hother j hj with ⟨-, hfailed⟩ | hj
        · cases hfailed
        · obtain ⟨x, hx⟩ := h.sent j hj
          exact ⟨x, List.mem_append_left _ hx⟩
  | receive => exact ⟨hrace, h.answered, h.failed, h.sent⟩
  | decide =>
    have htasks : s.tasks.map (udpLookupRace idna net host sockets).stop = s.tasks :=
      List.map_id s.tasks
    exact ⟨hrace, h.answered, htasks.symm ▸ h.failed, htasks.symm ▸ h.sent⟩
  | close => exact ⟨hrace, h.answered, h.failed, h.sent⟩
  | expire => exact ⟨hrace, h.answered, h.failed, h.sent⟩

/-- The first message that was taken is the first that was sent, and its list is the verdict. -/
theorem Lookups.Inv.decided {s : Lookups} (h : s.Inv idna net host sockets)
    {a : Option (List IpAddr)} (hread : (udpLookupRace idna net host sockets).read ()
      ((s.sent.take s.taken).map Prod.snd) = .inr a) :
    ∃ x, s.sent[0]? = some x ∧ a = some x.2 := by
  cases hsent : s.sent.take s.taken with
  | nil =>
    rw [hsent] at hread
    cases hread
  | cons x xs =>
    have hget : s.sent[0]? = some x := by
      have hhead := congrArg List.head? hsent
      rw [List.head?_take] at hhead
      split at hhead
      · cases hhead
      · rwa [List.head?_eq_getElem?] at hhead
    obtain ⟨-, hne, -⟩ := h.answered x (List.mem_of_getElem? hget)
    rw [hsent] at hread
    have hread := Sum.inr.inj hread
    rw [if_neg (by simpa using hne)] at hread
    exact ⟨x, hget, hread.symm⟩

/-- If nothing was sent and nobody waits, every lookup has failed. -/
theorem Lookups.Inv.fails {s : Lookups} (h : s.Inv idna net host sockets) (hnone : s.sent = [])
    (hended : ∀ t ∈ s.tasks, t ≠ .waiting) {i : Nat} (hi : i < udpServers.length) :
    Fails idna net host sockets i := by
  have hsize := h.race.size
  obtain ⟨t, ht⟩ : ∃ t, s.tasks[i]? = some t := ⟨_, List.getElem?_eq_getElem (by omega)⟩
  cases t with
  | waiting => exact absurd rfl (hended _ (List.mem_of_getElem? ht))
  | failed => exact h.failed i ht
  | answered =>
    obtain ⟨x, hx⟩ := h.sent i ht
    rw [hnone] at hx
    cases hx

/-- In every order of events, the race takes the first list that a lookup sends, and it stands in
what arrived at the socket of that lookup.  It takes none only if time is up or what arrived makes
every lookup fail. -/
theorem udpLookupRace_run {s : Lookups} {es : List Race.Event}
    (h : Run (udpLookupRace idna net host sockets).Step Lookups.start es s) :
    (∀ ips, s.receiver = .inr (some ips) →
      ∃ i, s.sent[0]? = some (i, ips) ∧ Answered net sockets i ips) ∧
      (s.receiver = .inr none → 900 ≤ s.now ∨
        ∀ i < udpServers.length, Fails idna net host sockets i) := by
  have hinv : s.Inv idna net host sockets := h.invariant (fun hi hs => hi.step hs) Lookups.inv_start
  cases hinv.race.verdict with
  | running hr =>
    rw [hr]
    exact ⟨fun _ h => (by cases h), fun h => (by cases h)⟩
  | @decided a hr hread =>
    obtain ⟨x, hget, rfl⟩ := hinv.decided hread
    rw [hr]
    refine ⟨?_, fun h => (by cases h)⟩
    intro ips h
    cases h
    exact ⟨x.1, hget, hinv.answered x (List.mem_of_getElem? hget)⟩
  | closed hr htaken hread hended =>
    rw [hr]
    refine ⟨fun _ h => (by cases h), fun _ => .inr fun i hi => ?_⟩
    cases hsent : s.sent with
    | nil => exact hinv.fails hsent hended hi
    | cons x xs =>
      rw [hsent] at hread
      cases hread
  | expired hr hdead hnow =>
    cases hdead
    rw [hr]
    exact ⟨fun _ h => (by cases h), fun _ => .inl hnow⟩

theorem udpLookupRace_run_forged :
    Answered openNetwork (fun _ => ⟨1, [forged]⟩) 1 [.v4 ⟨6, 6, 6, 6⟩] := by
  have hlookup : udpLookup (fun _ => none) openNetwork 1 "1.12.12.12:53".toList "a.b".toList
      [forged] = .ok (.ok [.v4 ⟨6, 6, 6, 6⟩]) := by rfl
  have hrun : Run (udpLookupRace (fun _ => none) openNetwork "a.b".toList
      fun _ => ⟨1, [forged]⟩).Step Lookups.start [.task 1, .receive]
        ⟨0, [.waiting, .answered], [(1, [.v4 ⟨6, 6, 6, 6⟩])], 1,
          .inr (some [.v4 ⟨6, 6, 6, 6⟩])⟩ :=
    .cons (.task (i := 1) rfl (.answer rfl hlookup)) (.single (.decide rfl rfl rfl))
  obtain ⟨i, hi, hanswered⟩ := (udpLookupRace_run hrun).1 _ rfl
  cases hi
  exact hanswered

end Dns

end RustClash
