import Mathlib.Data.Nat.Digits.Defs
import RustClash.Net.Addr

/-!
# Printing addresses

`IpAddr::to_string` of the standard library: a dotted IPv4 address, or an IPv6 address
of hexadecimal groups with the first longest run of more than one zero written `::`.
An IPv4-mapped address ends in the dotted form.
-/

namespace RustClash

def Ipv4Addr.toText (ip : Ipv4Addr) : List Char :=
  List.intercalate ['.'] (ip.octets.map fun b => Nat.toDigits 10 b.toNat)

/-- `Ipv6Addr::segments`. -/
def Ipv6Addr.segments (ip : Ipv6Addr) : List Nat :=
  (List.range 8).map fun i => 256 * (ip.octets.getD (2 * i) 0).toNat +
    (ip.octets.getD (2 * i + 1) 0).toNat

/-- Start and length of the first longest run of zeros. -/
def longestZeros (segments : List Nat) : Nat × Nat :=
  (segments.zipIdx.foldl (fun (longest, current) (segment, i) =>
    if segment ≠ 0 then (longest, (0, 0))
    else
      let current := if current.2 = 0 then (i, 1) else (current.1, current.2 + 1)
      (if longest.2 < current.2 then current else longest, current))
    (((0, 0), (0, 0)) : (Nat × Nat) × (Nat × Nat))).1

def hexGroups (segments : List Nat) : List Char :=
  List.intercalate [':'] (segments.map (Nat.toDigits 16))

def Ipv6Addr.toText (ip : Ipv6Addr) : List Char :=
  let segments := ip.segments
  let (start, len) := longestZeros segments
  if ip.octets.take 12 = List.replicate 10 0 ++ [255, 255] then
    "::ffff:".toList ++ Ipv4Addr.toText ⟨ip.octets.getD 12 0, ip.octets.getD 13 0,
      ip.octets.getD 14 0, ip.octets.getD 15 0⟩
  else if 1 < len then
    hexGroups (segments.take start) ++ "::".toList ++ hexGroups (segments.drop (start + len))
  else hexGroups segments

/-- `IpAddr::to_string`. -/
def IpAddr.toText : IpAddr → List Char
  | .v4 ip => ip.toText
  | .v6 ip => ip.toText

example : (parseIpAddr "1:0:0:2::a").map IpAddr.toText = some "1:0:0:2::a".toList := by decide

/-! ## What a text is made of -/

/-- A text of at most `n` characters, all of them ASCII. -/
structure AsciiText (n : Nat) (s : List Char) : Prop where
  ascii : ∀ c ∈ s, c.toNat < 128
  length : s.length ≤ n

theorem AsciiText.of_all {n : Nat} {s : List Char} (h : s.all (·.toNat < 128) = true)
    (hlen : s.length ≤ n) : AsciiText n s :=
  ⟨fun c hc => of_decide_eq_true (List.all_eq_true.mp h c hc), hlen⟩

theorem ascii_ite {c : Prop} [Decidable c] {a b : Char} (ha : a.toNat < 128) (hb : b.toNat < 128) :
    (if c then a else b).toNat < 128 := by
  split
  · exact ha
  · exact hb

theorem digitChar_ascii (n : Nat) : (Nat.digitChar n).toNat < 128 := by
  unfold Nat.digitChar
  repeat refine ascii_ite (by decide) ?_
  decide

theorem ascii_toDigitsCore (b : Nat) : ∀ (fuel n : Nat) (ds : List Char),
    (∀ c ∈ ds, c.toNat < 128) → ∀ c ∈ Nat.toDigitsCore b fuel n ds, c.toNat < 128
  | 0, _, _, h => h
  | fuel + 1, n, ds, h => by
      have hcons : ∀ c ∈ Nat.digitChar (n % b) :: ds, c.toNat < 128 :=
        List.forall_mem_cons.mpr ⟨digitChar_ascii _, h⟩
      rw [Nat.toDigitsCore]
      split
      · exact hcons
      · exact ascii_toDigitsCore b fuel _ _ hcons

theorem AsciiText.toDigits {b n k : Nat} (hk : 0 < k) (h : n < b ^ k) :
    AsciiText k (Nat.toDigits b n) :=
  ⟨ascii_toDigitsCore b _ n [] (List.forall_mem_nil _), Nat.toDigits_length b n k hk h⟩

theorem AsciiText.append {n m : Nat} {s t : List Char} (hs : AsciiText n s) (ht : AsciiText m t) :
    AsciiText (n + m) (s ++ t) := by
  refine ⟨fun c hc => ?_, ?_⟩
  · rcases List.mem_append.mp hc with hc | hc
    · exact hs.ascii c hc
    · exact ht.ascii c hc
  · rw [List.length_append]
    exact Nat.add_le_add hs.length ht.length

theorem AsciiText.mono {n m : Nat} {s : List Char} (hs : AsciiText n s) (h : n ≤ m) : AsciiText m s :=
  ⟨hs.ascii, hs.length.trans h⟩

theorem AsciiText.intercalate {k : Nat} {c : Char} (hc : c.toNat < 128) :
    ∀ {parts : List (List Char)}, (∀ s ∈ parts, AsciiText k s) →
      AsciiText (parts.length * (k + 1)) (List.intercalate [c] parts)
  | [], _ => ⟨List.forall_mem_nil _, Nat.zero_le _⟩
  | [s], h => by
      have hs := h s List.mem_cons_self
      rw [List.intercalate, List.intersperse_singleton, List.flatten_singleton]
      exact hs.mono (by simp)
  | s :: t :: rest, h => by
      obtain ⟨hs, hrest⟩ := List.forall_mem_cons.mp h
      have hsep : AsciiText 1 [c] := ⟨by simpa using hc, Nat.le_refl _⟩
      have ih := AsciiText.intercalate hc hrest
      rw [List.intercalate, List.intersperse_cons_cons, List.flatten_cons, List.flatten_cons]
      exact (hs.append (hsep.append ih)).mono (by simp only [List.length_cons]; ring_nf; omega)

theorem intercalate_ne_nil {c : Char} : ∀ {parts : List (List Char)}, 1 < parts.length →
    List.intercalate [c] parts ≠ []
  | s :: t :: rest, _ => by
      rw [List.intercalate, List.intersperse_cons_cons, List.flatten_cons, List.flatten_cons]
      simp

theorem Ipv4Addr.asciiText (ip : Ipv4Addr) : AsciiText 16 ip.toText := by
  have hparts : ∀ s ∈ ip.octets.map fun b => Nat.toDigits 10 b.toNat, AsciiText 3 s := by
    intro s hs
    obtain ⟨b, -, rfl⟩ := List.mem_map.mp hs
    exact .toDigits (by decide) (Nat.lt_trans b.toNat_lt (by decide))
  exact AsciiText.intercalate (c := '.') (by decide) hparts

theorem asciiText_hexGroups {g : List Nat} (h : ∀ n ∈ g, n < 65536) :
    AsciiText (g.length * 5) (hexGroups g) := by
  have hparts : ∀ s ∈ g.map (Nat.toDigits 16), AsciiText 4 s := by
    intro s hs
    obtain ⟨n, hn, rfl⟩ := List.mem_map.mp hs
    exact .toDigits (by decide) (h n hn)
  have hgroups := AsciiText.intercalate (c := ':') (by decide) hparts
  rwa [List.length_map] at hgroups

theorem Ipv6Addr.segments_lt (ip : Ipv6Addr) : ∀ n ∈ ip.segments, n < 65536 := by
  intro n hn
  obtain ⟨i, -, rfl⟩ := List.mem_map.mp hn
  have h1 := (ip.octets.getD (2 * i) 0).toNat_lt
  have h2 := (ip.octets.getD (2 * i + 1) 0).toNat_lt
  omega

theorem Ipv6Addr.asciiText (ip : Ipv6Addr) : AsciiText 82 ip.toText := by
  have hlen : ip.segments.length = 8 := by simp [segments]
  have hlt := ip.segments_lt
  simp only [toText]
  split
  · have hmapped : AsciiText 7 "::ffff:".toList := .of_all rfl (by decide)
    exact (hmapped.append (Ipv4Addr.asciiText _)).mono (by decide)
  · split
    · have hleft := asciiText_hexGroups (g := ip.segments.take (longestZeros ip.segments).1)
        fun n hn => hlt n (List.mem_of_mem_take hn)
      have hright := asciiText_hexGroups (g := ip.segments.drop
        ((longestZeros ip.segments).1 + (longestZeros ip.segments).2))
        fun n hn => hlt n (List.mem_of_mem_drop hn)
      have hzeros : AsciiText 2 "::".toList := .of_all rfl (by decide)
      refine ((hleft.append hzeros).append hright).mono ?_
      rw [List.length_take, List.length_drop, hlen]
      omega
    · exact (asciiText_hexGroups hlt).mono (by rw [hlen]; decide)

theorem IpAddr.asciiText (ip : IpAddr) : AsciiText 82 ip.toText := by
  cases ip with
  | v4 ip => exact ip.asciiText.mono (by decide)
  | v6 ip => exact ip.asciiText

theorem IpAddr.toText_ne_nil (ip : IpAddr) : ip.toText ≠ [] := by
  cases ip with
  | v4 ip => exact intercalate_ne_nil (by simp [Ipv4Addr.octets])
  | v6 ip =>
      simp only [IpAddr.toText, Ipv6Addr.toText]
      split
      · exact List.append_ne_nil_of_left_ne_nil (by decide) _
      · split
        · exact List.append_ne_nil_of_left_ne_nil
            (List.append_ne_nil_of_right_ne_nil _ (by decide)) _
        · exact intercalate_ne_nil (by simp [Ipv6Addr.segments])

end RustClash
