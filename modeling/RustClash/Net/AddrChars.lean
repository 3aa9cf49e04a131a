import RustClash.Core.Text
import RustClash.Net.Addr

/-!
# The characters of address literals

Every reader of an address takes a piece off the front of the text, made of hexadecimal
digits, dots and colons (`Took`).  An IPv6 address has at least two colons, an IPv4
address has none.
-/

namespace RustClash

namespace AddrParser

/-- A piece of characters that meet `p`, with at least `k` colons, is read off the text. -/
def Took (p : Char → Prop) (s rest : List Char) (k : Nat) : Prop :=
  ∃ used, s = used ++ rest ∧ (∀ c ∈ used, p c) ∧ k ≤ used.count ':'

def IsV4Char (c : Char) : Prop := (toDigit 10 c).isSome ∨ c = '.'

def IsV6Char (c : Char) : Prop := (toDigit 16 c).isSome ∨ c = '.' ∨ c = ':'

variable {p : Char → Prop} {s t u : List Char} {j k : Nat}

theorem Took.refl : Took p s s 0 := ⟨[], rfl, List.forall_mem_nil _, Nat.zero_le _⟩

theorem Took.trans (h : Took p s t j) (h' : Took p t u k) : Took p s u (j + k) := by
  obtain ⟨a, rfl, ha, hj⟩ := h
  obtain ⟨b, rfl, hb, hk⟩ := h'
  refine ⟨a ++ b, (List.append_assoc ..).symm, List.forall_mem_append.mpr ⟨ha, hb⟩, ?_⟩
  rw [List.count_append]
  exact Nat.add_le_add hj hk

theorem Took.mono {q : Char → Prop} (h : Took p s t j) (hpq : ∀ c, p c → q c) (hk : k ≤ j) :
    Took q s t k := by
  obtain ⟨a, hs, ha, hj⟩ := h
  exact ⟨a, hs, fun c hc => hpq c (ha c hc), hk.trans hj⟩

theorem Took.cons {c : Char} (hc : p c) (h : Took p s t j) :
    Took p (c :: s) t (j + if c = ':' then 1 else 0) := by
  obtain ⟨a, rfl, ha, hj⟩ := h
  refine ⟨c :: a, rfl, List.forall_mem_cons.mpr ⟨hc, ha⟩, ?_⟩
  rw [List.count_cons]
  split
  · next hcolon => simpa [hcolon] using hj
  · next hne => simpa [hne] using hj

theorem isSome_toDigit_mono {radix radix' : Nat} (hr : radix ≤ radix') {c : Char}
    (h : (toDigit radix c).isSome) : (toDigit radix' c).isSome := by
  obtain ⟨d, hd⟩ := Option.isSome_iff_exists.mp h
  obtain ⟨hv, hlt⟩ := Option.filter_eq_some_iff.mp hd
  refine Option.isSome_iff_exists.mpr ⟨d, Option.filter_eq_some_iff.mpr ⟨hv, ?_⟩⟩
  exact decide_eq_true (Nat.lt_of_lt_of_le (of_decide_eq_true hlt) hr)

theorem IsV4Char.v6 {c : Char} (h : IsV4Char c) : IsV6Char c :=
  h.imp (isSome_toDigit_mono (by decide)) .inl

theorem takeDigits_eq (radix : Nat) : ∀ s : List Char, ∃ used, s = used ++ (takeDigits radix s).2 ∧
    used.length = (takeDigits radix s).1.length ∧ ∀ c ∈ used, (toDigit radix c).isSome
  | [] => ⟨[], rfl, rfl, List.forall_mem_nil _⟩
  | c :: cs => by
      rw [takeDigits]
      split
      · exact ⟨[], rfl, rfl, List.forall_mem_nil _⟩
      · next d hd =>
          obtain ⟨used, hcs, hlen, hused⟩ := takeDigits_eq radix cs
          refine ⟨c :: used, ?_, ?_, List.forall_mem_cons.mpr ⟨by rw [hd]; rfl, hused⟩⟩
          · exact congrArg (c :: ·) hcs
          · exact congrArg (· + 1) hlen

/-- A number is at least one digit. -/
theorem readNumber_eq {radix maxDigits bound v : Nat} {zeros : Bool}
    (h : readNumber radix maxDigits bound zeros s = some (v, t)) :
    ∃ used, s = used ++ t ∧ used ≠ [] ∧ ∀ c ∈ used, (toDigit radix c).isSome := by
  obtain ⟨used, hs, hlen, hused⟩ := takeDigits_eq radix s
  simp only [readNumber] at h
  split at h
  · cases h
  · next hdigits =>
      rw [not_or] at hdigits
      split at h
      · cases h
      · split at h
        · cases h
          refine ⟨used, hs, ?_, hused⟩
          rintro rfl
          exact hdigits.1 hlen.symm
        · cases h

theorem took_readNumber {radix maxDigits bound v : Nat} {zeros : Bool}
    (hp : ∀ c, (toDigit radix c).isSome → p c)
    (h : readNumber radix maxDigits bound zeros s = some (v, t)) : Took p s t 0 := by
  obtain ⟨used, hs, -, hused⟩ := readNumber_eq h
  exact ⟨used, hs, fun c hc => hp c (hused c hc), Nat.zero_le _⟩

/-- A separator before an item is a colon more, if it is one. -/
theorem took_readSeparator {α : Type} {sep : Char} {first : Bool} {a : α}
    {inner : List Char → Option (α × List Char)} (hsep : p sep)
    (hinner : ∀ {s t}, inner s = some (a, t) → Took p s t 0)
    (h : readSeparator sep first inner s = some (a, t)) :
    Took p s t (if sep = ':' ∧ first = false then 1 else 0) := by
  cases first with
  | true => simpa using hinner h
  | false =>
      cases s with
      | nil => cases h
      | cons c cs =>
          obtain ⟨rfl, hrest⟩ := Option.ite_none_right_eq_some.mp h
          exact ((hinner hrest).cons hsep).mono (fun _ => id) (by simp)

/-- An IPv4 address ends in a digit. -/
theorem took_readIpv4Addr {ip : Ipv4Addr} (h : readIpv4Addr s = some (ip, t)) :
    Took IsV4Char s t 0 ∧ ∃ init c, s = init ++ c :: t ∧ (toDigit 10 c).isSome := by
  have hoctet : ∀ {v s t}, readNumber 10 3 256 false s = some (v, t) → Took IsV4Char s t 0 :=
    took_readNumber fun _ => .inl
  have hdot : ∀ {v s t}, readSeparator '.' false (readNumber 10 3 256 false) s = some (v, t) →
      Took IsV4Char s t 0 := fun h => took_readSeparator (.inr rfl) hoctet h
  have hlast : ∀ {v s t}, readSeparator '.' false (readNumber 10 3 256 false) s = some (v, t) →
      ∃ init c, s = init ++ c :: t ∧ (toDigit 10 c).isSome := by
    intro v s t h
    cases s with
    | nil => cases h
    | cons x xs =>
        obtain ⟨rfl, hrest⟩ := Option.ite_none_right_eq_some.mp h
        obtain ⟨used, rfl, hne, hused⟩ := readNumber_eq hrest
        refine ⟨'.' :: used.dropLast, used.getLast hne, ?_, hused _ (List.getLast_mem hne)⟩
        rw [List.cons_append, List.append_cons, List.dropLast_concat_getLast]
  simp only [readIpv4Addr, Option.bind_eq_bind, Option.bind_eq_some_iff] at h
  obtain ⟨⟨a, s₁⟩, ha, ⟨b, s₂⟩, hb, ⟨c, s₃⟩, hc, ⟨d, s₄⟩, hd, heq⟩ := h
  cases heq
  have hthree := ((hoctet ha).trans (hdot hb)).trans (hdot hc)
  refine ⟨hthree.trans (hdot hd), ?_⟩
  obtain ⟨used, hs, -, -⟩ := hthree
  obtain ⟨init, x, hx, hdigit⟩ := hlast hd
  have hx : s₃ = init ++ x :: s₄ := hx
  exact ⟨used ++ init, x, by rw [hs, hx, List.append_assoc], hdigit⟩

/-- Groups are separated by colons, and an embedded IPv4 address stands for two of them. -/
theorem took_readGroups : ∀ (left : Nat) (first : Bool) (s : List Char), ∃ k,
    Took IsV6Char s (readGroups left first s).2.2 k ∧
    (readGroups left first s).1.length ≤ k + (if first then 1 else 0) +
      if (readGroups left first s).2.1 then 1 else 0
  | 0, _, _ => ⟨0, .refl, Nat.zero_le _⟩
  | left + 1, first, s => by
      have hcolon : IsV6Char ':' := .inr (.inr rfl)
      have hgroup : ∀ {g s t}, readNumber 16 4 65536 true s = some (g, t) → Took IsV6Char s t 0 :=
        took_readNumber fun _ => .inl
      have hembedded : ∀ {ip s t}, readIpv4Addr s = some (ip, t) → Took IsV6Char s t 0 :=
        fun h => (took_readIpv4Addr h).1.mono (fun _ => IsV4Char.v6) (Nat.le_refl _)
      rw [readGroups]
      dsimp only
      split
      · next ip t hip =>
          obtain ⟨-, hip⟩ := Option.ite_none_right_eq_some.mp hip
          refine ⟨_, took_readSeparator hcolon hembedded hip, ?_⟩
          cases first <;> simp
      · split
        · exact ⟨0, .refl, Nat.zero_le _⟩
        · next g t hg =>
            obtain ⟨k, hk, hle⟩ := took_readGroups left false t
            refine ⟨_, (took_readSeparator hcolon hgroup hg).trans hk, ?_⟩
            show (readGroups left false t).1.length + 1 ≤ (if ':' = ':' ∧ first = false then 1 else 0) +
              k + (if first = true then 1 else 0) + if (readGroups left false t).2.1 then 1 else 0
            have hone : (if ':' = ':' ∧ first = false then 1 else 0) +
                (if first = true then 1 else 0) = 1 := by cases first <;> rfl
            rw [if_neg Bool.false_ne_true] at hle
            omega

theorem took_readIpv6Addr {ip : Ipv6Addr} (h : readIpv6Addr s = some (ip, t)) :
    Took IsV6Char s t 2 := by
  obtain ⟨k, hk, hle⟩ := took_readGroups 8 true s
  rw [readIpv6Addr] at h
  generalize readGroups 8 true s = r at h hk hle
  obtain ⟨head, embedded, rest⟩ := r
  dsimp only at h hk hle
  split at h
  · next hlen =>
      cases h
      refine hk.mono (fun _ => id) ?_
      rw [hlen] at hle
      cases embedded <;> simp at hle <;> omega
  · split at h
    · cases h
    · split at h
      · next rest =>
          cases h
          obtain ⟨m, hm, -⟩ := took_readGroups (7 - head.length) true rest
          have hcolon : IsV6Char ':' := .inr (.inr rfl)
          exact (hk.trans ((hm.cons hcolon).cons hcolon)).mono (fun _ => id) (by simp; omega)
      · cases h

/-! ## Lengths -/

theorem length_readNumber {radix maxDigits bound v : Nat} {zeros : Bool}
    (h : readNumber radix maxDigits bound zeros s = some (v, t)) :
    s.length ≤ t.length + maxDigits := by
  obtain ⟨used, hs, hlen, -⟩ := takeDigits_eq radix s
  have hs := congrArg List.length hs
  rw [List.length_append, hlen] at hs
  simp only [readNumber] at h
  split at h
  · cases h
  · next hdigits =>
      split at h
      · cases h
      · split at h
        · cases h
          omega
        · cases h

theorem length_readSeparator {α : Type} {sep : Char} {first : Bool} {a : α} {n : Nat}
    {inner : List Char → Option (α × List Char)}
    (hinner : ∀ {s t}, inner s = some (a, t) → s.length ≤ t.length + n)
    (h : readSeparator sep first inner s = some (a, t)) : s.length ≤ t.length + (n + 1) := by
  cases first with
  | true => exact (hinner h).trans (by omega)
  | false =>
      cases s with
      | nil => cases h
      | cons c cs =>
          obtain ⟨-, hrest⟩ := Option.ite_none_right_eq_some.mp h
          have hcs := hinner hrest
          rw [List.length_cons]
          omega

theorem length_readIpv4Addr {ip : Ipv4Addr} (h : readIpv4Addr s = some (ip, t)) :
    s.length ≤ t.length + 15 := by
  simp only [readIpv4Addr, Option.bind_eq_bind, Option.bind_eq_some_iff] at h
  obtain ⟨⟨a, s₁⟩, ha, ⟨b, s₂⟩, hb, ⟨c, s₃⟩, hc, ⟨d, s₄⟩, hd, heq⟩ := h
  cases heq
  have ha := length_readNumber ha
  have hb := length_readSeparator length_readNumber hb
  have hc := length_readSeparator length_readNumber hc
  have hd := length_readSeparator length_readNumber hd
  dsimp only at ha hb hc hd ⊢
  omega

/-- An embedded IPv4 address is the longest group. -/
theorem length_readGroups : ∀ (left : Nat) (first : Bool) (s : List Char),
    s.length ≤ (readGroups left first s).2.2.length + 16 * left
  | 0, _, _ => Nat.le_refl _
  | left + 1, first, s => by
      rw [readGroups]
      dsimp only
      split
      · next ip t hip =>
          obtain ⟨-, hip⟩ := Option.ite_none_right_eq_some.mp hip
          have hip := length_readSeparator length_readIpv4Addr hip
          dsimp only at hip ⊢
          omega
      · split
        · exact Nat.le_add_right _ _
        · next g t hg =>
            have hg := length_readSeparator length_readNumber hg
            have hrest := length_readGroups left false t
            show s.length ≤ (readGroups left false t).2.2.length + 16 * (left + 1)
            omega

theorem length_readIpv6Addr {ip : Ipv6Addr} (h : readIpv6Addr s = some (ip, t)) :
    s.length ≤ t.length + 242 := by
  have hhead := length_readGroups 8 true s
  rw [readIpv6Addr] at h
  generalize readGroups 8 true s = r at h hhead
  obtain ⟨head, embedded, rest⟩ := r
  dsimp only at h hhead
  split at h
  · cases h
    omega
  · split at h
    · cases h
    · split at h
      · next rest =>
          cases h
          have htail := length_readGroups (7 - head.length) true rest
          rw [List.length_cons, List.length_cons] at hhead
          show s.length ≤ (readGroups (7 - head.length) true rest).2.2.length + 242
          omega
      · cases h

end AddrParser

open AddrParser

/-! ## Whole texts -/

/-- A digit is a decimal digit, or a letter if the radix has more of them. -/
theorem toDigit_cases {radix : Nat} {c : Char} (h : (toDigit radix c).isSome) :
    (48 ≤ c.toNat ∧ c.toNat ≤ 57) ∨
      (10 < radix ∧ ((97 ≤ c.toNat ∧ c.toNat ≤ 102) ∨ (65 ≤ c.toNat ∧ c.toNat ≤ 70))) := by
  obtain ⟨d, hd⟩ := Option.isSome_iff_exists.mp h
  obtain ⟨hv, hlt⟩ := Option.filter_eq_some_iff.mp hd
  have hlt : d < radix := of_decide_eq_true hlt
  simp only [Str.char_le_iff] at hv
  split at hv
  · next h => exact .inl h
  · split at hv
    · next h =>
        cases hv
        exact .inr ⟨by omega, .inl h⟩
    · split at hv
      · next h =>
          cases hv
          exact .inr ⟨by omega, .inr h⟩
      · cases hv

theorem isV6Char_visible {c : Char} (h : IsV6Char c) : isWhiteSpace c = false ∧ c ≠ '[' ∧ c ≠ ']' := by
  rcases h with hdigit | rfl | rfl
  · have hbounds := toDigit_cases hdigit
    refine ⟨?_, ?_, ?_⟩
    · simp only [isWhiteSpace, Bool.or_eq_false_iff, Bool.and_eq_false_iff,
        decide_eq_false_iff_not, beq_eq_false_iff_ne]
      omega
    · rintro rfl
      exact absurd hbounds (by decide)
    · rintro rfl
      exact absurd hbounds (by decide)
  · decide
  · decide

/-- An IPv4 address is made of decimal digits and dots and ends in a digit, an IPv6 address
has at least two colons. -/
def Shape (host : List Char) : IpAddr → Prop
  | .v4 _ => (∀ c ∈ host, IsV4Char c) ∧ ∃ init c, host = init ++ [c] ∧ (toDigit 10 c).isSome
  | .v6 _ => 2 ≤ host.count ':'

theorem took_of_parseIpAddr {host : List Char} {ip : IpAddr}
    (h : parseIpAddr (String.ofList host) = some ip) :
    (∀ c ∈ host, IsV6Char c) ∧ host.length ≤ 242 ∧ Shape host ip := by
  rw [parseIpAddr, String.toList_ofList] at h
  split at h
  · next ip4 rest hread =>
      obtain ⟨hempty, heq⟩ := Option.ite_none_right_eq_some.mp h
      cases heq
      rw [List.isEmpty_iff.mp hempty] at hread
      obtain ⟨⟨used, hhost, hused, -⟩, hlast⟩ := took_readIpv4Addr hread
      have hlen := length_readIpv4Addr hread
      rw [List.append_nil] at hhost
      subst hhost
      exact ⟨fun c hc => (hused c hc).v6, hlen.trans (by decide), hused, hlast⟩
  · split at h
    · next ip6 rest hread =>
        obtain ⟨hempty, heq⟩ := Option.ite_none_right_eq_some.mp h
        cases heq
        rw [List.isEmpty_iff.mp hempty] at hread
        obtain ⟨used, hhost, hused, hcount⟩ := took_readIpv6Addr hread
        have hlen := length_readIpv6Addr hread
        rw [List.append_nil] at hhost
        subst hhost
        exact ⟨hused, hlen.trans (by decide), hcount⟩
    · cases h

theorem chars_of_parseIpAddr {host : List Char} {ip : IpAddr}
    (h : parseIpAddr (String.ofList host) = some ip) :
    (∀ c ∈ host, isWhiteSpace c = false ∧ c ≠ '[' ∧ c ≠ ']') ∧ Shape host ip :=
  ⟨fun c hc => isV6Char_visible ((took_of_parseIpAddr h).1 c hc), (took_of_parseIpAddr h).2.2⟩

theorem isV6Char_ascii {c : Char} (h : IsV6Char c) : c.toNat < 128 := by
  rcases h with hdigit | rfl | rfl
  · have hbounds := toDigit_cases hdigit
    omega
  · decide
  · decide

theorem notMem_colon_of_v4 {host : List Char} (h : ∀ c ∈ host, IsV4Char c) : ':' ∉ host := by
  intro hcolon
  rcases h _ hcolon with hdigit | hdot
  · exact absurd hdigit (by decide)
  · cases hdot

end RustClash
