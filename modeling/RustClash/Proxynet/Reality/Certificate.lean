import RustClash.Lib.Tlv
import RustClash.Proxynet.Reality.Auth

/-!
# The certificate of a REALITY server

A reader of DER that keeps what is left to read.  It takes length octets that
are longer than they have to be, and leaves what stands behind the fields that it
asks for: `readEd25519Cert_sound` says what it accepts.
-/

namespace RustClash

namespace Reality

namespace Der

/-- A length at `i`, and how many octets it takes; a `usize` has room for the value. -/
def readLenAt (data : Bytes) (i : Nat) : Option (Nat × Nat) :=
  match data[i]? with
  | none => none
  | some b =>
      if b < 0x80 then some (b.toNat, 1)
      else
        let n := (b &&& 0x7F).toNat
        if n = 0 ∨ 4 < n ∨ data.length ≤ i + n then none
        else some (ofBe ((data.drop (i + 1)).take n), 1 + n)

def takeTlv (data : Bytes) : Option ((UInt8 × Bytes) × Bytes) :=
  match data with
  | [] => none
  | tag :: _ =>
      match readLenAt data 1 with
      | none => none
      | some (len, llen) =>
          let start := 1 + llen
          if data.length < start + len then none
          else some ((tag, (data.drop start).take len), data.drop (start + len))

/-- The contents of a value that has to be of one type. -/
def readTagged (expected : UInt8) (data : Bytes) : Option (Bytes × Bytes) :=
  match takeTlv data with
  | none => none
  | some ((tag, body), rest) => if tag = expected then some (body, rest) else none

def readSeq (data : Bytes) : Option (Bytes × Bytes) := readTagged 0x30 data

def readOid (data : Bytes) : Option (Bytes × Bytes) := readTagged 0x06 data

def skipValue (data : Bytes) : Option Bytes := (takeTlv data).map (·.2)

/-- The number of unused bits is left out. -/
def readBitstring (data : Bytes) : Option (Bytes × Bytes) :=
  match readTagged 0x03 data with
  | some (_ :: bits, rest) => some (bits, rest)
  | _ => none

def skipVersion (data : Bytes) : Option Bytes :=
  if data.head? = some 0xA0 then skipValue data else some data

end Der

open Der

/-- `1.3.101.112`. -/
def oidEd25519 : Bytes := [0x2B, 0x65, 0x70]

def readEd25519Cert (der : Bytes) : Option (Bytes × Bytes) := do
  let (cert, _) ← readSeq der
  let (tbs, c) ← readSeq cert
  let t ← skipVersion tbs
  let t ← skipValue t -- serial
  let t ← skipValue t -- sigalg
  let t ← skipValue t -- issuer
  let t ← skipValue t -- validity
  let t ← skipValue t -- subject
  let (spki, _) ← readSeq t
  let (alg, s) ← readSeq spki
  let (oid, _) ← readOid alg
  if oid ≠ oidEd25519 then none
  else
    let (pk, _) ← readBitstring s
    let c ← skipValue c -- signatureAlgorithm
    let (sig, _) ← readBitstring c
    if pk.length ≠ 32 then none else some (pk, sig)

/-! ## What the reader accepts -/

/-- An Ed25519 certificate over the key `pk` with the signature `sig`; the fields that
are not read are values of any type. -/
inductive Ed25519Certificate (r : EncodingRules) : (der pk sig : Bytes) → Prop
| intro :
  r.Tlv 0x06 oidEd25519 oid ->
  r.Sequence oid alg ->
  r.Tlv 0x03 (pkUnused :: pk) pkBits ->
  r.Sequence (alg ++ pkBits) spki ->
  version = [] ∨ (∃ body, r.Tlv 0xA0 body version) ->
  r.Value serial ->
  r.Value sigalg ->
  r.Value issuer ->
  r.Value validity ->
  r.Value subject ->
  r.Tlv 0x30 (version ++ serial ++ sigalg ++ issuer ++ validity ++ subject ++ spki ++ more) tbs ->
  r.Value signatureAlgorithm ->
  r.Tlv 0x03 (sigUnused :: sig) sigBits ->
  r.Sequence (tbs ++ signatureAlgorithm ++ sigBits) cert ->
  r.behind rest ->
  Ed25519Certificate r (cert ++ rest) pk sig

namespace Der

theorem long_octet {b : UInt8} (h : ¬ b < 0x80) :
    b = UInt8.ofNat (128 + (b &&& 0x7F).toNat) := by
  have hlow : (b &&& 0x7F).toNat = b.toNat % 128 := Nat.and_two_pow_sub_one_eq_mod b.toNat 7
  have hge : 128 ≤ b.toNat := Nat.not_lt.mp h
  have hlt := b.toNat_lt
  rw [hlow, show 128 + b.toNat % 128 = b.toNat by omega, UInt8.ofNat_toNat]

theorem readLenAt_sound {data : Bytes} {i len llen : Nat}
    (h : readLenAt data i = some (len, llen)) :
    ∃ octets, LengthOctets len octets ∧ octets.length = llen ∧
      ∃ rest, data.drop i = octets ++ rest := by
  simp only [readLenAt] at h
  split at h
  · cases h
  · next b hb =>
    obtain ⟨hi, rfl⟩ := List.getElem?_eq_some_iff.mp hb
    have hdrop := List.drop_eq_getElem_cons hi
    generalize data[i] = b at h hdrop
    split at h
    · next hshort =>
      cases h
      refine ⟨[b], ?_, rfl, _, hdrop⟩
      have hoctet : LengthOctets b.toNat [UInt8.ofNat b.toNat] := .short hshort
      rwa [UInt8.ofNat_toNat] at hoctet
    · next hlong =>
      split at h
      · cases h
      · next hn =>
        cases h
        simp only [not_or, Nat.not_lt, Nat.not_le] at hn
        generalize hk : (b &&& 0x7F).toNat = n at hn
        have hlen : ((data.drop (i + 1)).take n).length = n := by
          rw [List.length_take, List.length_drop]
          omega
        refine ⟨b :: (data.drop (i + 1)).take n, ?_, ?_, (data.drop (i + 1)).drop n, ?_⟩
        · have hoctets : LengthOctets _ (UInt8.ofNat (128 + ((data.drop (i + 1)).take n).length) ::
              (data.drop (i + 1)).take n) :=
            .long (List.ne_nil_of_length_pos (by omega)) (by omega)
          have hb := long_octet hlong
          rw [hk] at hb
          rwa [hlen, ← hb] at hoctets
        · rw [List.length_cons, hlen]
          exact Nat.add_comm _ _
        · rw [hdrop, List.cons_append, List.take_append_drop]

theorem takeTlv_sound {data body rest : Bytes} {tag : UInt8}
    (h : takeTlv data = some ((tag, body), rest)) :
    ∃ tlv, EncodingRules.lax.Tlv tag body tlv ∧ data = tlv ++ rest := by
  rcases data with _ | ⟨t, data⟩
  · cases h
  · simp only [takeTlv] at h
    split at h
    · cases h
    · next len llen hlen =>
      split at h
      · cases h
      · next hshort =>
        cases h
        obtain ⟨octets, hoctets, hsize, more, hdata⟩ := readLenAt_sound hlen
        rw [List.drop_succ_cons, List.drop_zero] at hdata
        have hstart : (tag :: data).drop (1 + llen) = more := by
          rw [Nat.add_comm, List.drop_succ_cons, hdata, List.drop_left' hsize]
        have hbody : (more.take len).length = len := by
          rw [List.length_take]
          rw [hdata] at hshort
          simp only [List.length_cons, List.length_append] at hshort
          omega
        rw [hstart, ← List.drop_drop, hstart]
        refine ⟨tag :: octets ++ more.take len, ⟨octets, ?_, rfl⟩, ?_⟩
        · rwa [hbody]
        · rw [List.append_assoc, List.take_append_drop, hdata]
          rfl

theorem readTagged_sound {expected : UInt8} {data body rest : Bytes}
    (h : readTagged expected data = some (body, rest)) :
    ∃ tlv, EncodingRules.lax.Tlv expected body tlv ∧ data = tlv ++ rest := by
  simp only [readTagged] at h
  split at h
  · cases h
  · next tag body' rest' htake =>
    split at h
    · next htag =>
      cases h
      exact htag ▸ takeTlv_sound htake
    · cases h

theorem skipValue_sound {data rest : Bytes} (h : skipValue data = some rest) :
    ∃ value, EncodingRules.lax.Value value ∧ data = value ++ rest := by
  simp only [skipValue] at h
  obtain ⟨⟨⟨tag, body⟩, rest'⟩, htake, rfl⟩ := Option.map_eq_some_iff.mp h
  obtain ⟨tlv, htlv, hdata⟩ := takeTlv_sound htake
  exact ⟨tlv, ⟨tag, body, htlv⟩, hdata⟩

theorem readBitstring_sound {data bits rest : Bytes} (h : readBitstring data = some (bits, rest)) :
    ∃ unused tlv, EncodingRules.lax.Tlv 0x03 (unused :: bits) tlv ∧ data = tlv ++ rest := by
  simp only [readBitstring] at h
  split at h
  · next unused bits' rest' hread =>
    cases h
    obtain ⟨tlv, htlv, hdata⟩ := readTagged_sound hread
    exact ⟨unused, tlv, htlv, hdata⟩
  · cases h

theorem skipVersion_sound {data rest : Bytes} (h : skipVersion data = some rest) :
    ∃ version, (version = [] ∨ ∃ body, EncodingRules.lax.Tlv 0xA0 body version) ∧
      data = version ++ rest := by
  simp only [skipVersion] at h
  split at h
  · next htag =>
    simp only [skipValue] at h
    obtain ⟨⟨⟨tag, body⟩, rest'⟩, htake, rfl⟩ := Option.map_eq_some_iff.mp h
    obtain ⟨tlv, htlv, hdata⟩ := takeTlv_sound htake
    obtain ⟨len, hlen, rfl⟩ := htlv
    rw [hdata] at htag
    obtain rfl : tag = 0xA0 := Option.some.inj htag
    exact ⟨_, Or.inr ⟨body, len, hlen, rfl⟩, hdata⟩
  · cases h
    exact ⟨[], Or.inl rfl, rfl⟩

end Der

/-- What is accepted is a certificate in the outline. -/
theorem readEd25519Cert_sound {der pk sig : Bytes} (h : readEd25519Cert der = some (pk, sig)) :
    Ed25519Certificate .lax der pk sig ∧ pk.length = 32 := by
  simp only [readEd25519Cert, Option.bind_eq_bind, Option.bind_eq_some_iff, Prod.exists] at h
  obtain ⟨cert, rest, rcert, tbs, c, rtbs, t₀, rversion, t₁, rserial, t₂, rsigalg, t₃, rissuer,
    t₄, rvalidity, t₅, rsubject, spki, more, rspki, alg, s, ralg, oid, params, roid, h⟩ := h
  split at h
  · cases h
  · next hed =>
    rw [not_not] at hed
    simp only [Option.bind_eq_some_iff, Prod.exists] at h
    obtain ⟨pk', pkRest, rpk, c', rsa, sig', sigRest, rsig, h⟩ := h
    split at h
    · cases h
    · next hlen =>
      cases h
      obtain ⟨certTlv, hcert, rfl⟩ := readTagged_sound rcert
      obtain ⟨tbsTlv, htbs, rfl⟩ := readTagged_sound rtbs
      obtain ⟨version, hversion, rfl⟩ := skipVersion_sound rversion
      obtain ⟨serial, hserial, rfl⟩ := skipValue_sound rserial
      obtain ⟨sigalg, hsigalg, rfl⟩ := skipValue_sound rsigalg
      obtain ⟨issuer, hissuer, rfl⟩ := skipValue_sound rissuer
      obtain ⟨validity, hvalidity, rfl⟩ := skipValue_sound rvalidity
      obtain ⟨subject, hsubject, rfl⟩ := skipValue_sound rsubject
      obtain ⟨spkiTlv, hspki, rfl⟩ := readTagged_sound rspki
      obtain ⟨algTlv, halg, rfl⟩ := readTagged_sound ralg
      obtain ⟨oidTlv, hoid, rfl⟩ := readTagged_sound roid
      obtain ⟨pkUnused, pkTlv, hpk, rfl⟩ := readBitstring_sound rpk
      obtain ⟨sa, hsa, rfl⟩ := skipValue_sound rsa
      obtain ⟨sigUnused, sigTlv, hsig, rfl⟩ := readBitstring_sound rsig
      rw [hed] at hoid
      have hspki : EncodingRules.lax.Sequence (algTlv ++ pkTlv) spkiTlv :=
        ⟨pkRest, trivial, by rwa [List.append_assoc]⟩
      have htbs : EncodingRules.lax.Tlv 0x30 (version ++ serial ++ sigalg ++ issuer ++ validity ++
          subject ++ spkiTlv ++ more) tbsTlv := by
        simpa only [List.append_assoc] using htbs
      have hcert : EncodingRules.lax.Sequence (tbsTlv ++ sa ++ sigTlv) certTlv :=
        ⟨sigRest, trivial, by simpa only [List.append_assoc] using hcert⟩
      exact ⟨.intro hoid ⟨params, trivial, halg⟩ hpk hspki hversion hserial hsigalg hissuer
        hvalidity hsubject htbs hsa hsig hcert trivial, not_not.mp hlen⟩

end Reality

end RustClash
