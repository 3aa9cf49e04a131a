import RustClash.Core.FakeIpInvariant
import RustClash.Lib.Probe

/-!
# The search for a free address

`lookup_avoiding` probes the ring of the addresses from `198.18.0.4` to `198.18.255.254`
from the cursor on.  The ring has `65531` places and the loop makes `65530` rounds: the
address behind the cursor is never looked at.  A walk that finds nothing answers
`198.18.0.4`, whoever that address stands for.  `lookup_new_iff` says when the answer is
an address of the host or, where there is none, at least of no other host.
-/

namespace RustClash

namespace FakeIpPool

open Probe (probe Ring)

/-- The addresses of the range, from the first on. -/
def address (i : Nat) : Ipv4Addr := RustClash.hostToIp (first + i)

theorem address_cd {i : Nat} (h : i < 65531) :
    (address i).c.toNat * 256 + (address i).d.toNat = 4 + i := by
  simp only [address, RustClash.hostToIp, first, UInt8.toNat_ofNat']
  omega

theorem address_inj {i j : Nat} (hi : i < 65531) (hj : j < 65531) (h : address i = address j) :
    i = j := by
  have hsum := address_cd hi
  rw [h, address_cd hj] at hsum
  omega

/-- Every usable address is in the range. -/
theorem Usable.eq_address {ip : Ipv4Addr} (h : Usable ip) : ∃ i < 65531, ip = address i := by
  obtain ⟨hfake, -, hd⟩ := h
  obtain ⟨a, b, c, d⟩ := ip
  have hc := c.toNat_lt
  have hlt := d.toNat_lt
  have hd255 : d.toNat ≠ 255 := fun heq => hd (UInt8.toNat_inj.mp heq)
  simp only [isFakeIpV4, isFakeIp] at hfake
  split at hfake
  · cases hfake
  · next hab =>
      rw [not_or, not_ne_iff, not_ne_iff] at hab
      obtain ⟨rfl, rfl⟩ := hab
      have hfirst : 4 ≤ c.toNat * 256 + d.toNat := of_decide_eq_true hfake
      refine ⟨c.toNat * 256 + d.toNat - 4, by omega, ?_⟩
      rw [address, RustClash.hostToIp, show first + (c.toNat * 256 + d.toNat - 4) =
        c.toNat * 256 + d.toNat from Nat.add_sub_cancel' hfirst]
      rw [show (c.toNat * 256 + d.toNat) / 256 = c.toNat by omega, UInt8.ofNat_toNat]
      congr 1
      apply UInt8.toNat_inj.mp
      rw [UInt8.toNat_ofNat']
      omega

section

variable {next : Nat} (h : CursorOk next)
include h

theorem CursorOk.sub_lt : next - first < 65531 := by
  obtain ⟨hf, hl⟩ := h
  simp only [first, last] at *
  omega

theorem CursorOk.hostToIp_eq : RustClash.hostToIp next = address (next - first) := by
  rw [address, Nat.add_sub_cancel' h.1]

theorem CursorOk.advance_sub : advance next - first = (next - first + 1) % 65531 := by
  have hf : 4 ≤ next := h.1
  have hl : next ≤ 65534 := h.2
  rw [advance]
  split
  · next hgt =>
      have hgt : 65534 < next + 1 := hgt
      show 4 - 4 = (next - 4 + 1) % 65531
      omega
  · next hle =>
      have hle : ¬ 65534 < next + 1 := hle
      show next + 1 - 4 = (next - 4 + 1) % 65531
      omega

end

/-- The ring of the addresses. -/
def addresses : Ring RustClash.hostToIp advance address 65531 where
  Good := CursorOk
  pos next := next - first
  pos_lt := CursorOk.sub_lt
  look_eq := CursorOk.hostToIp_eq
  step_good := advance_ok
  pos_step := CursorOk.advance_sub

/-- An address that the walk passes over. -/
def Taken (ipToHost : FinMap Ipv4Addr String) (inUse : Ipv4Addr → Bool) (ip : Ipv4Addr) : Prop :=
  (ip.d = 0 ∨ ip.d = 255) ∨ ip ∈ ipToHost ∨ inUse ip

instance (ipToHost : FinMap Ipv4Addr String) (inUse : Ipv4Addr → Bool) :
    DecidablePred (Taken ipToHost inUse) := fun _ => inferInstanceAs (Decidable (_ ∨ _))

theorem walk_probe (ipToHost : FinMap Ipv4Addr String) (inUse : Ipv4Addr → Bool) :
    ∀ n next, walk ipToHost inUse n next =
      probe RustClash.hostToIp advance (Taken ipToHost inUse) n next
  | 0, _ => rfl
  | n + 1, next => by
      have hif (htaken : Taken ipToHost inUse (RustClash.hostToIp next)) :
          probe RustClash.hostToIp advance (Taken ipToHost inUse) (n + 1) next =
            probe RustClash.hostToIp advance (Taken ipToHost inUse) n (advance next) :=
        if_pos htaken
      simp only [walk, walk_probe ipToHost inUse n]
      by_cases hd : (RustClash.hostToIp next).d = 0 ∨ (RustClash.hostToIp next).d = 255
      · rw [if_pos hd, hif (Or.inl hd)]
      · by_cases hu : RustClash.hostToIp next ∈ ipToHost ∨ inUse (RustClash.hostToIp next)
        · rw [if_neg hd, if_pos hu, hif (Or.inr hu)]
        · rw [if_neg hd, if_neg hu]
          exact (if_neg (not_or.mpr ⟨hd, hu⟩)).symm

/-! ## What a lookup of a new host finds -/

/-- An address that a lookup of a new host may return: neither mapped, after the eviction that
the lookup makes, nor in use. -/
def Free (pool : FakeIpPool) (inUse : Ipv4Addr → Bool) (ip : Ipv4Addr) : Prop :=
  Usable ip ∧ ip ∉ pool.room.ipToHost ∧ inUse ip = false

/-- The address behind the cursor, the only one that is not looked at. -/
def behind (pool : FakeIpPool) : Ipv4Addr := address (addresses.behind pool.next)

variable {pool : FakeIpPool} {idna : String → Option String} {host : String}
  {inUse : Ipv4Addr → Bool}

theorem room_next (h : pool.WF) : pool.room.next = pool.next := by
  rcases h.full_or_lt with hfull | hlt
  · obtain ⟨victim, ip, -, -, he⟩ := h.room_eq_of_full hfull
    rw [he]
    rfl
  · rw [room_eq_of_lt hlt]

theorem free_address {i : Nat} (hi : i < 65531) :
    pool.Free inUse (address i) ↔ ¬ Taken pool.room.ipToHost inUse (address i) := by
  have husable : isFakeIpV4 (address i) = true :=
    isFakeIpV4_hostToIp ⟨Nat.le_add_right _ _, by simp only [first, last]; omega⟩
  simp only [Free, Usable, Taken, not_or, husable, true_and, Bool.not_eq_true]

/-- The walk finds nothing where nothing is free but, at most, the address behind the cursor. -/
theorem WF.walk_none (h : pool.WF) :
    (walk pool.room.ipToHost inUse 65530 pool.room.next).1 = none ↔
      ∀ ip, pool.Free inUse ip → ip = pool.behind := by
  rw [walk_probe, addresses.probe_short h.room.cursor rfl, room_next h]
  constructor
  · intro hall ip hfree
    obtain ⟨i, hi, rfl⟩ := hfree.1.eq_address
    by_contra hne
    exact (free_address hi).mp hfree (hall i hi fun heq => hne (by rw [behind, heq]))
  · intro hall i hi hne
    by_contra htaken
    have heq := hall _ ((free_address hi).mpr htaken)
    exact hne (address_inj hi (addresses.behind_lt (by decide) _) heq)

/-- What a lookup is to do for a new host: to map it to a free address, or to return one that
stands for no other host. -/
def Serves (pool : FakeIpPool) (idna : String → Option String) (host : String)
    (inUse : Ipv4Addr → Bool) : Prop :=
  let r := pool.lookupAvoiding idna host inUse
  ((∃ ip, pool.Free inUse ip) →
    pool.Free inUse r.1 ∧ (r.2.lookback r.1).1 = some (domainToAscii idna host)) ∧
  ((¬ ∃ ip, pool.Free inUse ip) →
    ∀ host', (r.2.lookback r.1).1 = some host' → host' = domainToAscii idna host)

theorem lookback_fst (pool : FakeIpPool) (ip : Ipv4Addr) :
    (pool.lookback ip).1 = pool.ipToHost.lookup ip := by
  rw [lookback_eq]
  cases hip : pool.ipToHost.lookup ip <;> rfl

/-- An address other than the one behind the cursor is free and gets mapped. -/
theorem WF.serves_of_free (h : pool.WF) (hk : domainToAscii idna host ∉ pool.hostToIp)
    (hfree : ∃ ip, pool.Free inUse ip ∧ ip ≠ pool.behind) : pool.Serves idna host inUse := by
  obtain ⟨ip, hfree, hne⟩ := hfree
  have hwalk := mt h.walk_none.mp fun hall => hne (hall ip hfree)
  rw [Serves, lookupAvoiding_new (AList.lookup_eq_none.mpr hk)]
  obtain ⟨-, hspec⟩ := @walk_spec pool.room.ipToHost inUse 65530 _ h.room.cursor
  rcases hr : walk pool.room.ipToHost inUse 65530 pool.room.next with ⟨_ | found, next⟩
  · exact absurd (by rw [hr]) hwalk
  · rw [hr] at hspec
    obtain ⟨hmapped, huse, husable⟩ := hspec found rfl
    refine ⟨fun _ => ⟨⟨husable, hmapped, huse⟩, ?_⟩, fun hnone => absurd ⟨ip, hfree⟩ hnone⟩
    rw [lookback_fst]
    exact AList.lookup_insert _

/-- A walk that finds nothing leaves the mappings. -/
theorem WF.lookback_exhausted (h : pool.WF) (hk : domainToAscii idna host ∉ pool.hostToIp)
    (hnone : ∀ ip, pool.Free inUse ip → ip = pool.behind) :
    (pool.lookupAvoiding idna host inUse).1 = ⟨198, 18, 0, 4⟩ ∧
      ∀ ip, ((pool.lookupAvoiding idna host inUse).2.lookback ip).1 =
        pool.room.ipToHost.lookup ip := by
  have hwalk := h.walk_none.mpr hnone
  rw [lookupAvoiding_new (AList.lookup_eq_none.mpr hk)]
  rcases hr : walk pool.room.ipToHost inUse 65530 pool.room.next with ⟨_ | found, next⟩
  · exact ⟨rfl, fun ip => lookback_fst _ ip⟩
  · rw [hr] at hwalk
    cases hwalk

/-- After any sequence of calls a lookup of a new host does what it is to do if and only if an
address is free that is not the one behind the cursor, or none is and `198.18.0.4` is mapped to
no host. -/
theorem lookup_new_iff (idna : String → Option String) (calls : List Call) (host : String)
    (inUse : Ipv4Addr → Bool)
    (hk : domainToAscii idna host ∉ (recordedRun idna calls).1.hostToIp) :
    let pool := (recordedRun idna calls).1
    pool.Serves idna host inUse ↔ (∃ ip, pool.Free inUse ip ∧ ip ≠ pool.behind) ∨
      (¬ ∃ ip, pool.Free inUse ip) ∧ (⟨198, 18, 0, 4⟩ : Ipv4Addr) ∉ pool.room.ipToHost := by
  intro pool
  have h : pool.WF := (@recordedRun_inv idna calls).1
  constructor
  · intro hserves
    by_contra hcond
    rw [not_or] at hcond
    obtain ⟨hother, hmapped⟩ := hcond
    have hnone : ∀ ip, pool.Free inUse ip → ip = pool.behind := fun ip hfree =>
      by_contra fun hne => hother ⟨ip, hfree, hne⟩
    obtain ⟨hfst, hback⟩ := h.lookback_exhausted hk hnone
    by_cases hfree : ∃ ip, pool.Free inUse ip
    · obtain ⟨hfree', hlook⟩ := hserves.1 hfree
      rw [hback] at hlook
      exact hfree'.2.1 (FinMap.mem_of_lookup hlook)
    · have hmem : (⟨198, 18, 0, 4⟩ : Ipv4Addr) ∈ pool.room.ipToHost :=
        not_not.mp fun hnot => hmapped ⟨hfree, hnot⟩
      obtain ⟨host', hhost'⟩ := FinMap.exists_lookup_of_mem hmem
      have heq := hserves.2 hfree host' (by rw [hback, hfst, hhost'])
      rw [heq] at hhost'
      exact h.notMem_room hk (FinMap.mem_of_lookup (h.room.lookup_iff.mpr hhost'))
  · rintro (hother | ⟨hnone, hmapped⟩)
    · exact h.serves_of_free hk hother
    · obtain ⟨hfst, hback⟩ := h.lookback_exhausted hk fun ip hfree => absurd ⟨ip, hfree⟩ hnone
      refine ⟨fun hfree => absurd hfree hnone, fun _ host' hlook => ?_⟩
      rw [hback, hfst] at hlook
      exact absurd (FinMap.mem_of_lookup hlook) hmapped

theorem free_new {ip : Ipv4Addr} (h : Usable ip) (hu : inUse ip = false) : new.Free inUse ip := by
  refine ⟨h, ?_, hu⟩
  rw [room_eq_of_lt (by decide)]
  exact AList.notMem_empty ip

/-- Two hosts are looked up, the second one past an address that is in use. -/
def twoHosts : List Call :=
  [.lookup "a.b", .lookupAvoiding "c.d" fun ip => ip = ⟨198, 18, 0, 5⟩, .lookback ⟨198, 18, 0, 4⟩]

/-- A third host, while the next address is in use. -/
theorem lookup_new_third : let pool := (recordedRun some twoHosts).1
    let inUse := fun ip => decide (ip = (⟨198, 18, 0, 7⟩ : Ipv4Addr))
    let r := pool.lookupAvoiding some "e.f" inUse
    pool.Free inUse r.1 ∧ (r.2.lookback r.1).1 = some (domainToAscii some "e.f") := by
  intro pool inUse r
  have hnew : domainToAscii some "e.f" ∉ pool.hostToIp := by decide +kernel
  have hfree : pool.Free inUse ⟨198, 18, 0, 5⟩ :=
    ⟨⟨by decide +kernel, by decide, by decide⟩, by decide +kernel, by decide +kernel⟩
  have hserves : pool.Serves some "e.f" inUse :=
    (lookup_new_iff some twoHosts "e.f" inUse hnew).mpr (.inl ⟨_, hfree, by decide +kernel⟩)
  exact hserves.1 ⟨_, hfree⟩

/-- Every address but `198.18.255.254` is in use, and the new pool answers `198.18.0.4`. -/
theorem not_lookup_new : let inUse := fun ip => !decide (ip = (⟨198, 18, 255, 254⟩ : Ipv4Addr))
    new.Free inUse ⟨198, 18, 255, 254⟩ ∧
      (new.lookupAvoiding some "a.b" inUse).1 = ⟨198, 18, 0, 4⟩ ∧ inUse ⟨198, 18, 0, 4⟩ = true ∧
      ¬ new.Serves some "a.b" inUse := by
  intro inUse
  have hfree : new.Free inUse ⟨198, 18, 255, 254⟩ :=
    free_new ⟨by decide +kernel, by decide, by decide⟩ (by decide +kernel)
  have honly : ∀ ip, new.Free inUse ip → ip = new.behind := by
    intro ip hip
    have heq : ip = ⟨198, 18, 255, 254⟩ := by simpa [inUse] using hip.2.2
    rw [heq]
    decide +kernel
  obtain ⟨hfst, -⟩ := @WF.lookback_exhausted new some "a.b" inUse WF.new
    (AList.notMem_empty _) honly
  refine ⟨hfree, hfst, by decide +kernel, fun hserves => ?_⟩
  have huse := (hserves.1 ⟨_, hfree⟩).1.2.2
  rw [hfst] at huse
  revert huse
  decide +kernel

end FakeIpPool

end RustClash
