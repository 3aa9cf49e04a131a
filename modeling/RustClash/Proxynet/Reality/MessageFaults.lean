import RustClash.Lib.CheckedLoop
import RustClash.Proxynet.Reality.Certificate
import RustClash.Proxynet.Reality.ServerMessages

/-!
# What a message of the server can do to its reader

The readers of a ServerHello, of a certificate message and of a certificate once more, with
every index and slice checked.  Each of them is the reader without checks: no length field of
the server leads out of range.
-/

namespace RustClash

namespace Reality

open Checked

/-! ## The certificate -/

namespace Der

/-- The loop over the octets of a length, from the `j`-th on. -/
def lenOctetsChecked (data : Bytes) (i : Nat) : (n j len : Nat) → Checked Nat
  | 0, _, len => pure len
  | n + 1, j, len => do
      let b ← get data (i + 1 + j)
      lenOctetsChecked data i n (j + 1) (len * 256 + b.toNat)

def readLenAtChecked (data : Bytes) (i : Nat) : OptionT Checked (Nat × Nat) :=
  match data[i]? with
  | none => failure
  | some b =>
      if b < 0x80 then pure (b.toNat, 1)
      else
        let n := (b &&& 0x7F).toNat
        if n = 0 ∨ 4 < n ∨ data.length ≤ i + n then failure
        else do
          let len ← OptionT.lift (lenOctetsChecked data i n 0 0)
          pure (len, 1 + n)

def takeTlvChecked (data : Bytes) : OptionT Checked ((UInt8 × Bytes) × Bytes) :=
  match data.head? with
  | none => failure
  | some tag => do
      let (len, llen) ← readLenAtChecked data 1
      let start := 1 + llen
      if data.length < start + len then failure
      else
        let body ← OptionT.lift (slice data start (start + len))
        let rest ← OptionT.lift (slice data (start + len) data.length)
        pure ((tag, body), rest)

def readTaggedChecked (expected : UInt8) (data : Bytes) : OptionT Checked (Bytes × Bytes) := do
  let ((tag, body), rest) ← takeTlvChecked data
  if tag = expected then pure (body, rest) else failure

def skipValueChecked (data : Bytes) : OptionT Checked Bytes := do
  let (_, rest) ← takeTlvChecked data
  pure rest

def readBitstringChecked (data : Bytes) : OptionT Checked (Bytes × Bytes) := do
  let (body, rest) ← readTaggedChecked 0x03 data
  if body.isEmpty then failure
  else
    let bits ← OptionT.lift (slice body 1 body.length)
    pure (bits, rest)

def skipVersionChecked (data : Bytes) : OptionT Checked Bytes :=
  if data.head? = some 0xA0 then skipValueChecked data else pure data

theorem lenOctetsChecked_eq {data : Bytes} {i : Nat} : ∀ {n j len : Nat},
    i + 1 + j + n ≤ data.length →
    lenOctetsChecked data i n j len =
      .ok (len * 256 ^ n + ofBe ((data.drop (i + 1 + j)).take n))
  | 0, j, len, _ => by
      rw [List.take_zero, Nat.pow_zero, Nat.mul_one]
      rfl
  | n + 1, j, len, h => by
      have hlt : i + 1 + j < data.length := by omega
      have hsplit : (data.drop (i + 1 + j)).take (n + 1) =
          [data.getD (i + 1 + j) 0] ++ (data.drop (i + 1 + (j + 1))).take n := by
        rw [List.drop_eq_getElem_cons hlt, List.take_succ_cons, List.getD_eq_getElem?_getD,
          List.getElem?_eq_getElem hlt]
        rfl
      have hlen : ((data.drop (i + 1 + (j + 1))).take n).length = n := by
        rw [List.length_take, List.length_drop]
        omega
      have hone : ofBe [data.getD (i + 1 + j) 0] = (data.getD (i + 1 + j) 0).toNat :=
        Nat.zero_add _
      rw [lenOctetsChecked, get_ok hlt 0, ok_bind, lenOctetsChecked_eq (by omega), hsplit,
        ofBe_append, hlen, hone, Nat.add_mul, Nat.pow_succ', ← Nat.mul_assoc, Nat.add_assoc]

theorem readLenAtChecked_eq (data : Bytes) (i : Nat) :
    (readLenAtChecked data i).run = .ok (readLenAt data i) := by
  rw [readLenAtChecked, readLenAt]
  cases data[i]? with
  | none => rfl
  | some b =>
    dsimp only
    split
    · rfl
    · split
      · rfl
      · next hn =>
        rw [not_or, not_or] at hn
        have hroom : i + 1 + 0 + (b &&& 0x7F).toNat ≤ data.length := by
          have := hn.2.2
          omega
        rw [lenOctetsChecked_eq hroom, Nat.zero_mul, Nat.zero_add]
        rfl

/-- A value ends where its length says, which is not behind the data. -/
theorem takeTlvChecked_eq (data : Bytes) : (takeTlvChecked data).run = .ok (takeTlv data) := by
  cases data with
  | nil => rfl
  | cons tag rest =>
    generalize hdata : tag :: rest = data
    have htag : data.head? = some tag := by rw [← hdata]; rfl
    have hpure : takeTlv data = (readLenAt data 1).bind fun r =>
        if data.length < 1 + r.2 + r.1 then none
        else some ((tag, (data.drop (1 + r.2)).take r.1), data.drop (1 + r.2 + r.1)) := by
      rw [← hdata, takeTlv]
      cases readLenAt (tag :: rest) 1 <;> rfl
    rw [hpure, takeTlvChecked, htag]
    refine optionT_bind (readLenAtChecked_eq data 1) fun r => ?_
    obtain ⟨len, llen⟩ := r
    dsimp only
    split
    · rfl
    · next hlen =>
      rw [slice_ok (Nat.le_add_right _ _) (Nat.not_lt.mp hlen),
        slice_ok (Nat.not_lt.mp hlen) (Nat.le_refl _), List.take_length, List.drop_take,
        Nat.add_sub_cancel_left]
      rfl

theorem readTaggedChecked_eq (expected : UInt8) (data : Bytes) :
    (readTaggedChecked expected data).run = .ok (readTagged expected data) := by
  have hpure : readTagged expected data =
      (takeTlv data).bind fun r => if r.1.1 = expected then some (r.1.2, r.2) else none := by
    rw [readTagged]
    cases takeTlv data <;> rfl
  rw [hpure]
  refine optionT_bind (takeTlvChecked_eq data) fun r => ?_
  obtain ⟨⟨tag, body⟩, rest⟩ := r
  dsimp only
  split <;> rfl

theorem skipValueChecked_eq (data : Bytes) :
    (skipValueChecked data).run = .ok (skipValue data) := by
  have hpure : skipValue data = (takeTlv data).bind fun r => some r.2 := by
    rw [skipValue]
    cases takeTlv data <;> rfl
  rw [hpure]
  exact optionT_bind (takeTlvChecked_eq data) fun _ => rfl

theorem readBitstringChecked_eq (data : Bytes) :
    (readBitstringChecked data).run = .ok (readBitstring data) := by
  have hpure : readBitstring data = (readTagged 0x03 data).bind fun r =>
      if r.1.isEmpty then none else some (r.1.drop 1, r.2) := by
    rw [readBitstring]
    rcases readTagged 0x03 data with _ | ⟨_ | ⟨b, bits⟩, rest⟩ <;> rfl
  rw [hpure]
  refine optionT_bind (readTaggedChecked_eq 0x03 data) fun r => ?_
  obtain ⟨body, rest⟩ := r
  dsimp only
  split
  · rfl
  · next hbody =>
    have hpos : 1 ≤ body.length := by
      rw [Nat.succ_le_iff, List.length_pos_iff]
      exact fun hnil => hbody (List.isEmpty_iff.mpr hnil)
    rw [slice_ok hpos (Nat.le_refl _), List.take_length]
    rfl

theorem skipVersionChecked_eq (data : Bytes) :
    (skipVersionChecked data).run = .ok (skipVersion data) := by
  rw [skipVersionChecked, skipVersion]
  split
  · exact skipValueChecked_eq data
  · rfl

end Der

open Der

def readEd25519CertChecked (der : Bytes) : OptionT Checked (Bytes × Bytes) := do
  let (cert, _) ← readTaggedChecked 0x30 der
  let (tbs, c) ← readTaggedChecked 0x30 cert
  let t ← skipVersionChecked tbs
  let t ← skipValueChecked t -- serial
  let t ← skipValueChecked t -- sigalg
  let t ← skipValueChecked t -- issuer
  let t ← skipValueChecked t -- validity
  let t ← skipValueChecked t -- subject
  let (spki, _) ← readTaggedChecked 0x30 t
  let (alg, s) ← readTaggedChecked 0x30 spki
  let (oid, _) ← readTaggedChecked 0x06 alg
  if oid ≠ oidEd25519 then failure
  else
    let (pk, _) ← readBitstringChecked s
    let c ← skipValueChecked c -- signatureAlgorithm
    let (sig, _) ← readBitstringChecked c
    if pk.length ≠ 32 then failure else pure (pk, sig)

theorem readEd25519CertChecked_eq (der : Bytes) :
    (readEd25519CertChecked der).run = .ok (readEd25519Cert der) := by
  refine optionT_bind (readTaggedChecked_eq _ _) ?_
  rintro ⟨cert, _⟩
  refine optionT_bind (readTaggedChecked_eq _ _) ?_
  rintro ⟨tbs, c⟩
  refine optionT_bind (skipVersionChecked_eq _) fun t => ?_
  refine optionT_bind (skipValueChecked_eq _) fun t => ?_
  refine optionT_bind (skipValueChecked_eq _) fun t => ?_
  refine optionT_bind (skipValueChecked_eq _) fun t => ?_
  refine optionT_bind (skipValueChecked_eq _) fun t => ?_
  refine optionT_bind (skipValueChecked_eq _) fun t => ?_
  refine optionT_bind (readTaggedChecked_eq _ _) ?_
  rintro ⟨spki, _⟩
  refine optionT_bind (readTaggedChecked_eq _ _) ?_
  rintro ⟨alg, s⟩
  refine optionT_bind (readTaggedChecked_eq _ _) ?_
  rintro ⟨oid, _⟩
  dsimp only
  split
  · rfl
  · refine optionT_bind (readBitstringChecked_eq _) ?_
    rintro ⟨pk, _⟩
    refine optionT_bind (skipValueChecked_eq _) fun c => ?_
    refine optionT_bind (readBitstringChecked_eq _) ?_
    rintro ⟨sig, _⟩
    dsimp only
    split <;> rfl

/-! ## The messages -/

open CheckedSession (lift)

/-- `split_at`, behind the test of the length. -/
def takeChecked (n : Nat) (what : String) : CheckedSession Bytes ProxyError Bytes := fun src =>
  let had := src.length
  if had < n then
    .ok (.error (hsErr
      s!"The peer's message ended before {what}: needed {n} more bytes, had {had}."), src)
  else do
    let a ← slice src 0 n
    let b ← slice src n src.length
    pure (.ok a, b)

def takeU8Checked (what : String) : CheckedSession Bytes ProxyError UInt8 := do
  let field ← takeChecked 1 what
  lift (get field 0)

def takeU16Checked (what : String) : CheckedSession Bytes ProxyError Nat := do
  let field ← takeChecked 2 what
  let field ← lift (array 2 field)
  pure (ofBe16 (field.getD 0 0) (field.getD 1 0))

/-- `read_u24`. -/
def readU24Checked (s : Bytes) : Checked Nat := do
  let b0 ← get s 0
  let b1 ← get s 1
  let b2 ← get s 2
  pure (ofBe [b0, b1, b2])

def takeU24Checked (what : String) : CheckedSession Bytes ProxyError Nat := do
  let field ← takeChecked 3 what
  lift (readU24Checked field)

/-- An array of `n` filled with a slice of the data. -/
def octetsOf (n : Nat) (data : Bytes) (i : Nat) : Checked (Octets n) := do
  let part ← slice data i (i + n)
  if h : part.length = n then .ok ⟨part, h⟩ else .error .copy

def Extensions.readChecked (found : Extensions) (extension : Nat × Bytes) : Checked Extensions := do
  let (ty, data) := extension
  if ty = 43 ∧ data = [0x03, 0x04] then pure { found with tls13 := true }
  else if ty = 51 ∧ 4 ≤ data.length then
    let d0 ← get data 0
    let d1 ← get data 1
    let d2 ← get data 2
    let d3 ← get data 3
    let group := ofBe16 d0 d1
    let sl := ofBe16 d2 d3
    if group = 0x001D ∧ sl = 32 ∧ 4 + sl ≤ data.length then
      let ks ← octetsOf 32 data 4
      pure { found with keyShare := some ks }
    else pure found
  else pure found

def takeExtensionChecked : CheckedSession Bytes ProxyError (Nat × Bytes) := do
  let ty ← takeU16Checked "an extension type"
  let len ← takeU16Checked "an extension length"
  let data ← takeChecked len "extension"
  pure (ty, data)

theorem takeChecked_is (n : Nat) (what : String) : (takeChecked n what).Is (take n what) := by
  intro src
  rw [takeChecked, take]
  split
  · rfl
  · next h =>
    rw [slice_ok (Nat.zero_le _) (Nat.not_lt.mp h), ok_bind,
      slice_ok (Nat.not_lt.mp h) (Nat.le_refl _), ok_bind, List.drop_zero, List.take_length]
    rfl

theorem takeU8Checked_is (what : String) : (takeU8Checked what).Is (takeU8 what) := by
  refine (takeChecked_is 1 what).bind_of fun src field rest h => ?_
  have hlen := (take_ok.mp h).1
  rw [lift, get_ok (by omega) 0]
  rfl

theorem takeU16Checked_is (what : String) : (takeU16Checked what).Is (takeU16 what) := by
  refine (takeChecked_is 2 what).bind_of fun src field rest h => ?_
  rw [array_ok (take_ok.mp h).1]
  rfl

theorem readU24Checked_eq {s : Bytes} (h : s.length = 3) : readU24Checked s = .ok (ofBe s) := by
  obtain ⟨a, b, c, rfl⟩ := List.length_eq_three.mp h
  rfl

theorem takeU24Checked_is (what : String) : (takeU24Checked what).Is (takeU24 what) := by
  refine (takeChecked_is 3 what).bind_of fun src field rest h => ?_
  rw [readU24Checked_eq (take_ok.mp h).1]
  rfl

theorem octetsOf_eq {n i : Nat} {data : Bytes} (h : i + n ≤ data.length) :
    octetsOf n data i =
      .ok ⟨(data.drop i).take n, by rw [List.length_take, List.length_drop]; omega⟩ := by
  have hpart : slice data i (i + n) = .ok ((data.drop i).take n) := by
    rw [slice_ok (Nat.le_add_right _ _) h, List.drop_take, Nat.add_sub_cancel_left]
  rw [octetsOf, hpart, ok_bind, dif_pos]

theorem Extensions.readChecked_eq (found : Extensions) (extension : Nat × Bytes) :
    found.readChecked extension = .ok (found.read extension) := by
  obtain ⟨ty, data⟩ := extension
  simp only [readChecked, read]
  split
  · rfl
  · split
    · next h =>
      have hfour := h.2
      rw [get_ok (by omega) 0, ok_bind, get_ok (by omega) 0, ok_bind, get_ok (by omega) 0, ok_bind,
        get_ok (by omega) 0, ok_bind]
      split
      · next hshare =>
        have hlen : 4 + 32 ≤ data.length := hshare.2.1 ▸ hshare.2.2
        rw [octetsOf_eq hlen, dif_pos ⟨hshare.1, hshare.2.1, hlen⟩]
        rfl
      · next hshare =>
        rw [dif_neg]
        · rfl
        · rintro ⟨hgroup, hsl, hlen⟩
          exact hshare ⟨hgroup, hsl, by rw [hsl]; exact hlen⟩
    · rfl

theorem takeExtensionChecked_is : takeExtensionChecked.Is takeExtension := by
  refine (takeU16Checked_is _).bind fun ty => ?_
  refine (takeU16Checked_is _).bind fun len => ?_
  exact (takeChecked_is _ _).bind fun data => .pure _

def extensionPassChecked (st : Bytes × Extensions) :
    Checked ((Bytes × Extensions) ⊕ Except ProxyError Extensions) :=
  if st.1.isEmpty then pure (.inr (.ok st.2))
  else do
    match ← takeExtensionChecked st.1 with
    | (.error e, _) => pure (.inr (.error e))
    | (.ok extension, exts) =>
        let found ← st.2.readChecked extension
        pure (.inl (exts, found))

theorem extensionPassChecked_eq (st : Bytes × Extensions) :
    extensionPassChecked st = .ok (extensionLoop.body st) := by
  simp only [extensionPassChecked, extensionLoop]
  split
  · rfl
  · rw [takeExtensionChecked_is, ok_bind]
    rcases takeExtension st.1 with ⟨e | extension, exts⟩
    · rfl
    · dsimp only
      rw [Extensions.readChecked_eq]
      rfl

theorem extensionPassChecked_same (st : Bytes × Extensions)
    (r : (Bytes × Extensions) ⊕ Except ProxyError Extensions)
    (h : extensionPassChecked st = .ok r) : extensionLoop.body st = r := by
  rw [extensionPassChecked_eq] at h
  exact Except.ok.inj h

/-- The loop over the extensions. -/
def readExtensionsChecked (exts : Bytes) : Checked (Except ProxyError Extensions) :=
  (extensionLoop.checked extensionPassChecked extensionPassChecked_same).run (exts, ⟨none, false⟩)

theorem readExtensionsChecked_eq (exts : Bytes) :
    readExtensionsChecked exts = .ok (extensionLoop.run (exts, ⟨none, false⟩)) :=
  Loop.checked_runs (I := fun _ => True) (fun st _ => ⟨_, extensionPassChecked_eq st⟩)
    (fun _ _ _ _ => trivial) trivial

open CheckedSession (ofSession)

def readServerHelloChecked (clientHello : Bytes) : CheckedSession Bytes ProxyError ServerHello := do
  let vr ← takeChecked 34 "the version and random"
  let random ← lift (slice vr 2 vr.length)
  ofSession <| Session.failIf (random = hrr)
    (hsErr "The server sent a HelloRetryRequest, which this client does not implement.")
  let sidLen ← takeU8Checked "the session id length"
  let echo ← takeChecked sidLen.toNat "the session id"
  let sent ← lift (slice clientHello sessionIdOffset (sessionIdOffset + sessionIdSize))
  ofSession <| Session.failIf (echo ≠ sent)
    (hsErr
      "The server echoed a different session id than we sent. The ClientHello was altered in flight.")
  let suiteId ← takeU16Checked "the cipher suite"
  let compression ← takeU8Checked "the compression method"
  ofSession <| Session.failIf (compression ≠ 0)
    (hsErr "The server selected a compression method; TLS 1.3 has none.")
  let suite ← ofSession <| Session.ofExcept <|
    match CipherSuite.fromId suiteId with
    | some suite => .ok suite
    | none =>
        let id := hex4 suiteId
        .error (hsErr s!"The server chose cipher suite 0x{id}, which we did not offer.")
  let extLen ← takeU16Checked "the extensions length"
  let exts ← takeChecked extLen "the extensions"
  let found ← lift (readExtensionsChecked exts)
  let found ← ofSession (Session.ofExcept found)
  ofSession <| Session.failIf (found.tls13 = false) (hsErr "The server did not select TLS 1.3.")
  match found.keyShare with
  | some keyShare => pure ⟨suite, keyShare⟩
  | none =>
      ofSession <| Session.ofExcept <|
        .error (hsErr "The server's key_share is missing or is not X25519.")

def parseServerHelloChecked (raw clientHello : Bytes) : Checked (Except ProxyError ServerHello) :=
  if raw.length < 4 then pure (.error (hsErr "short ServerHello"))
  else do
    let body ← slice raw 4 raw.length
    let (r, _) ← readServerHelloChecked clientHello body
    pure r

/-- The session id is where it is looked for in a ClientHello that is long enough. -/
theorem readServerHelloChecked_is {clientHello : Bytes}
    (h : sessionIdOffset + sessionIdSize ≤ clientHello.length) :
    (readServerHelloChecked clientHello).Is (readServerHello clientHello) := by
  have hsent : slice clientHello sessionIdOffset (sessionIdOffset + sessionIdSize) =
      .ok (sessionIdOf clientHello) := by
    rw [slice_ok (Nat.le_add_right _ _) h, List.drop_take, Nat.add_sub_cancel_left]
    rfl
  have htail (suite : CipherSuite) (found : Extensions) :
      @CheckedSession.Is Bytes ProxyError ServerHello
        (match found.keyShare with
          | some keyShare => pure ⟨suite, keyShare⟩
          | none => ofSession <| Session.ofExcept <|
              .error (hsErr "The server's key_share is missing or is not X25519."))
        (match found.keyShare with
          | some keyShare => pure (⟨suite, keyShare⟩ : ServerHello)
          | none => Session.ofExcept <|
              .error (hsErr "The server's key_share is missing or is not X25519.")) := by
    cases found.keyShare with
    | none => exact .ofSession _
    | some keyShare => exact .pure _
  refine (takeChecked_is _ _).bind_of fun src vr rest htake => ?_
  have hlen := (take_ok.mp htake).1
  rw [slice_ok (by omega) (Nat.le_refl _), List.take_length, CheckedSession.lift_bind]
  refine CheckedSession.Is.bind (.ofSession _) (fun _ => ?_) rest
  refine (takeU8Checked_is _).bind fun sidLen => ?_
  refine (takeChecked_is _ _).bind fun echo => ?_
  rw [hsent, CheckedSession.lift_bind]
  refine CheckedSession.Is.bind (.ofSession _) fun _ => ?_
  refine (takeU16Checked_is _).bind fun suiteId => ?_
  refine (takeU8Checked_is _).bind fun compression => ?_
  refine CheckedSession.Is.bind (.ofSession _) fun _ => ?_
  refine CheckedSession.Is.bind (.ofSession _) fun suite => ?_
  refine (takeU16Checked_is _).bind fun extLen => ?_
  refine (takeChecked_is _ _).bind fun exts => ?_
  rw [readExtensionsChecked_eq, CheckedSession.lift_bind]
  refine CheckedSession.Is.bind (.ofSession _) fun found => ?_
  refine CheckedSession.Is.bind (.ofSession _) fun _ => ?_
  exact htail suite found

theorem parseServerHelloChecked_eq {clientHello : Bytes}
    (h : sessionIdOffset + sessionIdSize ≤ clientHello.length) (raw : Bytes) :
    parseServerHelloChecked raw clientHello = .ok (parseServerHello raw clientHello) := by
  rw [parseServerHelloChecked, parseServerHello]
  split
  · rfl
  · next hlen =>
    rw [slice_ok (Nat.not_lt.mp hlen) (Nat.le_refl _), ok_bind, List.take_length,
      readServerHelloChecked_is h]
    rfl

def takeFirstChecked : CheckedSession Bytes ProxyError Bytes := do
  let certLen ← takeU24Checked "the leaf certificate length"
  takeChecked certLen "the leaf certificate"

def readLeafChecked : CheckedSession Bytes ProxyError Bytes := do
  let ctxLen ← takeU8Checked "the certificate request context length"
  let _ ← takeChecked ctxLen.toNat "the certificate request context"
  let listLen ← takeU24Checked "the certificate list length"
  let list ← takeChecked listLen "the certificate list"
  ofSession <| Session.failIf (list.isEmpty = true)
    (hsErr "The server sent an empty certificate list.")
  let (cert, _) ← lift (takeFirstChecked list)
  ofSession (Session.ofExcept cert)

def extractLeafChecked (body : Bytes) : Checked (Except ProxyError Bytes) := do
  let (r, _) ← readLeafChecked body
  pure r

theorem takeFirstChecked_is : takeFirstChecked.Is takeFirst :=
  (takeU24Checked_is _).bind fun _ => takeChecked_is _ _

theorem readLeafChecked_is : readLeafChecked.Is readLeaf := by
  refine (takeU8Checked_is _).bind fun ctxLen => ?_
  refine (takeChecked_is _ _).bind fun _ => ?_
  refine (takeU24Checked_is _).bind fun listLen => ?_
  refine (takeChecked_is _ _).bind fun list => ?_
  refine CheckedSession.Is.bind (.ofSession _) fun _ => ?_
  rw [takeFirstChecked_is]
  exact .ofSession _

theorem extractLeafChecked_eq (body : Bytes) :
    extractLeafChecked body = .ok (extractLeaf body) := by
  rw [extractLeafChecked, readLeafChecked_is]
  rfl

end Reality

end RustClash
