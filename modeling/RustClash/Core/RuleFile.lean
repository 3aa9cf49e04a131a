import RustClash.Core.Rules
import RustClash.Core.Utf8
import RustClash.Lib.ByteOrder
import RustClash.Lib.Checked

/-!
# The file of the rules

`RuleDb::load_bytes` reads a table of records, each a key with the length before it and a
flag, and takes it only if it gives four known hosts the actions they must have.  Out of
range is a `Fault`.  The map reserves room for as many records as the file announces before
one of them is read: where there is no room for so many, the program stops.
-/

namespace RustClash

open Str Checked

def RuleAction.debug : RuleAction → String
  | .reject => "Reject"
  | .direct => "Direct"
  | .proxy => "Proxy"

namespace RuleDb

/-! ## Checking -/

def check (records : RuleRecords) (host : String) (want : RuleAction) : Except String Unit :=
  let got := matchDomainUncached records host.toList
  if got ≠ want then
    let got := got.debug
    let want := want.debug
    .error s!"rules self-check: {host} got {got} want {want}"
  else .ok ()

def selfCheck (records : RuleRecords) : Except String Unit := do
  check records "www.baidu.com" .direct
  check records "www.google.com" .proxy
  check records "www.gstatic.com" .proxy
  check records "fonts.gstatic.com" .proxy

/-! ## Loading -/

/-- The loop over the records, `n` of which are left. -/
def readRecords (raw : Bytes) : (n : Nat) → (off : Nat) → RuleRecords →
    Checked (Except String RuleRecords)
  | 0, _, records => .ok (.ok records)
  | n + 1, off, records =>
      if raw.length < off + 2 then .ok (.error "rules.bin truncated")
      else do
        let keyLen := ofLe (← slice raw off (off + 2))
        let off := off + 2
        if raw.length < off + keyLen + 1 then .ok (.error "rules.bin truncated key")
        else do
          let key ← slice raw off (off + keyLen)
          let off := off + keyLen
          let flag ← get raw off
          readRecords raw n (off + 1) (records.insert (fromUtf8Lossy key) flag)

/-- The table, and a new cache.  `available` are the capacities that a map can have. -/
def loadBytes (available : Nat → Bool) (raw : Bytes) :
    Checked (Except String (RuleRecords × TtlLru RuleAction)) :=
  if raw.length < 9 then .ok (.error "rules.bin: bad magic")
  else do
    let magic ← slice raw 0 4
    let version ← get raw 4
    if magic ≠ [67, 70, 87, 82] ∨ version ≠ 1 then .ok (.error "rules.bin: bad magic")
    else do
      let count := ofLe (← slice raw 5 9)
      -- `HashMap::with_capacity(count)`
      reserve available count
      let records ← readRecords raw count 9 ∅
      .ok do
        let records ← records
        selfCheck records
        return (records, .new 4096)

/-! ## The format -/

/-- A record of the file. -/
structure RuleRecord where
  key : Bytes
  flag : UInt8
  key_lt : key.length < 256 ^ 2

def RuleRecord.encode (r : RuleRecord) : Bytes := toLe 2 r.key.length ++ (r.key ++ [r.flag])

/-- The file begins as one of so many records does: the magic, the version, their number. -/
def Announces (raw : Bytes) (count : Nat) : Prop :=
  count < 256 ^ 4 ∧ ∃ rest, raw = [67, 70, 87, 82, 1] ++ (toLe 4 count ++ rest)

/-- The file holds the records: the magic, the version, their number, and the records, with anything
behind them. -/
def Holds (raw : Bytes) (records : List RuleRecord) : Prop :=
  records.length < 256 ^ 4 ∧ ∃ rest, raw =
    [67, 70, 87, 82, 1] ++ (toLe 4 records.length ++ (records.flatMap RuleRecord.encode ++ rest))

/-- The flag of the last record with a key. -/
def lastFlag (records : List RuleRecord) (key : Str) : Option UInt8 :=
  (records.reverse.find? fun r => fromUtf8Lossy r.key = key).map (·.flag)

/-- The records in a table, each over those before it. -/
def insertAll (records : List RuleRecord) (table : RuleRecords) : RuleRecords :=
  records.foldl (fun table r => table.insert (fromUtf8Lossy r.key) r.flag) table

def tableOf (records : List RuleRecord) : RuleRecords := insertAll records ∅

theorem lookup_tableOf (records : List RuleRecord) (key : Str) :
    (tableOf records).lookup key = lastFlag records key := by
  induction records using List.reverseRecOn with
  | nil => rfl
  | append_singleton records r ih =>
      have hinsert : tableOf (records ++ [r]) =
          (tableOf records).insert (fromUtf8Lossy r.key) r.flag := List.foldl_append
      rw [hinsert, FinMap.lookup_insert_eq, lastFlag, List.reverse_append, List.reverse_singleton,
        List.singleton_append, List.find?_cons]
      by_cases hkey : fromUtf8Lossy r.key = key
      · rw [if_pos hkey.symm]
        simp [hkey]
      · rw [if_neg (Ne.symm hkey), ih]
        simp [hkey, lastFlag]

/-- The verdicts of the self-check. -/
structure Verified (records : RuleRecords) : Prop where
  baidu : matchDomainUncached records "www.baidu.com".toList = .direct
  google : matchDomainUncached records "www.google.com".toList = .proxy
  gstatic : matchDomainUncached records "www.gstatic.com".toList = .proxy
  fonts : matchDomainUncached records "fonts.gstatic.com".toList = .proxy

theorem check_eq_ok {records : RuleRecords} {host : String} {want : RuleAction} :
    check records host want = .ok () ↔ matchDomainUncached records host.toList = want := by
  rw [check]
  dsimp only
  split
  · next hne => exact iff_of_false (by intro h; cases h) hne
  · next heq => exact iff_of_true rfl (not_not.mp heq)

theorem selfCheck_eq_ok {records : RuleRecords} :
    selfCheck records = .ok () ↔ Verified records := by
  rw [selfCheck]
  constructor
  · intro h
    obtain ⟨_, hbaidu, h⟩ := bind_eq_ok.mp h
    obtain ⟨_, hgoogle, h⟩ := bind_eq_ok.mp h
    obtain ⟨_, hgstatic, hfonts⟩ := bind_eq_ok.mp h
    exact ⟨check_eq_ok.mp hbaidu, check_eq_ok.mp hgoogle, check_eq_ok.mp hgstatic,
      check_eq_ok.mp hfonts⟩
  · intro h
    exact bind_eq_ok.mpr ⟨(), check_eq_ok.mpr h.baidu, bind_eq_ok.mpr ⟨(), check_eq_ok.mpr h.google,
      bind_eq_ok.mpr ⟨(), check_eq_ok.mpr h.gstatic, check_eq_ok.mpr h.fonts⟩⟩⟩

/-! ## Reading the records -/

section

variable {raw : Bytes} {off : Nat}

theorem length_encode (r : RuleRecord) : r.encode.length = 2 + (r.key.length + 1) := by
  rw [RuleRecord.encode, List.length_append, length_toLe, List.length_append,
    List.length_singleton]

/-- A record that stands at the offset is read. -/
theorem readRecords_encode {r : RuleRecord} {more : Bytes} (h : raw.drop off = r.encode ++ more)
    (n : Nat) (table : RuleRecords) : readRecords raw (n + 1) off table =
      readRecords raw n (off + r.encode.length) (table.insert (fromUtf8Lossy r.key) r.flag) := by
  have hlen := congrArg List.length h
  rw [List.length_drop, List.length_append, length_encode] at hlen
  have hsize : (raw.take (off + 2)).drop off = toLe 2 r.key.length := by
    rw [List.drop_take, h, Nat.add_sub_cancel_left, RuleRecord.encode, List.append_assoc,
      List.take_left' (length_toLe _ _)]
  have hbehind : raw.drop (off + 2) = r.key ++ ([r.flag] ++ more) := by
    rw [← List.drop_drop, h, RuleRecord.encode, List.append_assoc, List.append_assoc,
      List.drop_left' (length_toLe _ _)]
  have hkey : (raw.take (off + 2 + r.key.length)).drop (off + 2) = r.key := by
    rw [List.drop_take, hbehind, Nat.add_sub_cancel_left, List.take_left]
  have hflag : raw.getD (off + 2 + r.key.length) 0 = r.flag := by
    have hat : (raw.drop (off + 2 + r.key.length))[0]? = some r.flag := by
      rw [← List.drop_drop, hbehind, List.drop_left]
      rfl
    rw [List.getElem?_drop, Nat.add_zero] at hat
    rw [List.getD_eq_getElem?_getD, hat]
    rfl
  rw [readRecords, if_neg (by omega), slice_ok (by omega) (by omega), ok_bind, hsize,
    ofLe_toLe r.key_lt]
  dsimp only
  rw [if_neg (by omega), slice_ok (by omega) (by omega), ok_bind, hkey, get_ok (by omega) 0, ok_bind,
    hflag, length_encode]
  simp only [Nat.add_assoc]

/-- Where no record stands, none is read. -/
theorem readRecords_short (h : ¬ ∃ (r : RuleRecord) (more : Bytes), raw.drop off = r.encode ++ more)
    (n : Nat) (table : RuleRecords) :
    ∃ e, readRecords raw (n + 1) off table = .ok (.error e) := by
  rw [readRecords]
  split
  · exact ⟨_, rfl⟩
  next hsize =>
  rw [slice_ok (by omega) (by omega), ok_bind]
  dsimp only
  split
  · exact ⟨_, rfl⟩
  next hkey =>
  have hlen : ((raw.take (off + 2)).drop off).length = 2 := by
    rw [List.length_drop, List.length_take]
    omega
  have hdrop : raw.drop off = (raw.take (off + 2)).drop off ++ raw.drop (off + 2) := by
    rw [← List.drop_drop, List.drop_take, Nat.add_sub_cancel_left, List.take_append_drop]
  generalize (raw.take (off + 2)).drop off = size at hlen hdrop hkey
  have hlt : ofLe size < 256 ^ 2 := hlen ▸ ofLe_lt size
  have hat : off + 2 + ofLe size < raw.length := by omega
  have hkeyLen : ((raw.drop (off + 2)).take (ofLe size)).length = ofLe size := by
    rw [List.length_take, List.length_drop]
    omega
  refine absurd ⟨⟨(raw.drop (off + 2)).take (ofLe size), raw[off + 2 + ofLe size],
    hkeyLen.symm ▸ hlt⟩, raw.drop (off + 2 + ofLe size + 1), ?_⟩ h
  have hsize : toLe 2 (ofLe size) = size := hlen ▸ toLe_ofLe size
  have hflag := List.drop_eq_getElem_cons hat
  rw [RuleRecord.encode]
  dsimp only
  have hbehind := List.take_append_drop (ofLe size) (raw.drop (off + 2))
  rw [List.drop_drop] at hbehind
  rw [hkeyLen, hsize, List.append_assoc, List.append_assoc, List.singleton_append, ← hflag, hbehind]
  exact hdrop

/-- All the records that stand at the offset are put into the table. -/
theorem readRecords_flatMap {records : List RuleRecord} {rest : Bytes} (table : RuleRecords)
    (h : raw.drop off = records.flatMap RuleRecord.encode ++ rest) :
    readRecords raw records.length off table = .ok (.ok (insertAll records table)) := by
  induction records generalizing off table with
  | nil => rfl
  | cons r records ih =>
      rw [List.flatMap_cons, List.append_assoc] at h
      have hnext : raw.drop (off + r.encode.length) = records.flatMap RuleRecord.encode ++ rest := by
        rw [← List.drop_drop, h, List.drop_left]
      rw [List.length_cons, readRecords_encode h, ih _ hnext]
      rfl

/-- A table that is read is that of records that stand there. -/
theorem readRecords_ok (n : Nat) (table : RuleRecords) :
    ∃ r, readRecords raw n off table = .ok r ∧ ∀ t, r = .ok t →
      ∃ (records : List RuleRecord) (rest : Bytes), records.length = n ∧
        raw.drop off = records.flatMap RuleRecord.encode ++ rest := by
  induction n generalizing off table with
  | zero => exact ⟨.ok table, rfl, fun _ _ => ⟨[], raw.drop off, rfl, rfl⟩⟩
  | succ n ih =>
      by_cases hex : ∃ (r : RuleRecord) (more : Bytes), raw.drop off = r.encode ++ more
      · obtain ⟨r, more, hr⟩ := hex
        obtain ⟨res, hres, hread⟩ := @ih (off + r.encode.length)
          (table.insert (fromUtf8Lossy r.key) r.flag)
        have hmore : raw.drop (off + r.encode.length) = more := by
          rw [← List.drop_drop, hr, List.drop_left]
        refine ⟨res, (readRecords_encode hr n table).trans hres, fun t ht => ?_⟩
        obtain ⟨records, rest, hlen, hdrop⟩ := hread t ht
        refine ⟨r :: records, rest, by rw [List.length_cons, hlen], ?_⟩
        rw [hr, ← hmore, hdrop, List.flatMap_cons, List.append_assoc]
      · obtain ⟨e, he⟩ := readRecords_short hex n table
        exact ⟨.error e, he, fun t h => (by cases h)⟩

end

/-- What a file begins with that announces so many records. -/
theorem announces_iff {raw : Bytes} {count : Nat} : Announces raw count ↔
    9 ≤ raw.length ∧ (raw.take 4).drop 0 = [67, 70, 87, 82] ∧ raw.getD 4 0 = 1 ∧
      count = ofLe ((raw.take 9).drop 5) := by
  constructor
  · rintro ⟨hlt, rest, rfl⟩
    have hcount : (toLe 4 count).length = 4 := length_toLe 4 _
    have hvalue := ofLe_toLe hlt
    generalize toLe 4 count = size at hcount hvalue
    have hhead : ([67, 70, 87, 82, 1] ++ size).length = 9 := by
      rw [List.length_append, hcount]
      rfl
    rw [← List.append_assoc]
    refine ⟨?_, ?_, ?_, ?_⟩
    · rw [List.length_append, hhead]
      exact Nat.le_add_right 9 _
    · rfl
    · rfl
    · rw [List.take_left' hhead]
      exact hvalue.symm
  · rintro ⟨hlen, hmagic, hversion, rfl⟩
    have hsize : ((raw.take 9).drop 5).length = 4 := by
      rw [List.length_drop, List.length_take]
      omega
    have hlt := ofLe_lt ((raw.take 9).drop 5)
    have hbytes := toLe_ofLe ((raw.take 9).drop 5)
    rw [hsize] at hlt hbytes
    refine ⟨hlt, raw.drop 9, ?_⟩
    have hone : raw[4] = 1 := by
      rwa [List.getD_eq_getElem?_getD, List.getElem?_eq_getElem (by omega)] at hversion
    have hdrop : (raw.take 9).drop 5 ++ raw.drop 9 = raw.drop 5 := by
      have hcut := List.take_append_drop (9 - 5) (raw.drop 5)
      rwa [← List.drop_take, List.drop_drop] at hcut
    have hall := List.take_append_drop 4 raw
    rw [List.drop_zero] at hmagic
    rw [hmagic, List.drop_eq_getElem_cons (by omega), hone] at hall
    rw [hbytes, hdrop]
    exact hall.symm

/-- A file that holds records announces their number, and the records stand behind that. -/
theorem holds_iff {raw : Bytes} {records : List RuleRecord} : Holds raw records ↔
    Announces raw records.length ∧
      ∃ rest, raw.drop 9 = records.flatMap RuleRecord.encode ++ rest := by
  have hhead : ([67, 70, 87, 82, 1] ++ toLe 4 records.length).length = 9 := by
    rw [List.length_append, length_toLe]
    rfl
  constructor
  · rintro ⟨hlt, rest, rfl⟩
    rw [← List.append_assoc]
    exact ⟨⟨hlt, _, List.append_assoc _ _ _⟩, rest, List.drop_left' hhead⟩
  · rintro ⟨⟨hlt, behind, rfl⟩, rest, hrest⟩
    rw [← List.append_assoc, List.drop_left' hhead] at hrest
    exact ⟨hlt, rest, by rw [hrest]⟩

/-- The file is loaded, without a fault, exactly if it holds records whose table passes the
self-check, and then it is that table, in which each key has the flag of its last record. -/
def Loads (available : Nat → Bool) (raw : Bytes) : Prop :=
  ∃ r, loadBytes available raw = .ok r ∧
    (∀ db, r = .ok db ↔ ∃ records, Holds raw records ∧ Verified (tableOf records) ∧
      db = (tableOf records, .new 4096)) ∧
    ∀ records key, (tableOf records).lookup key = lastFlag records key

section

variable {available : Nat → Bool} {raw : Bytes}

/-- A file that announces no number of records is refused. -/
theorem loadBytes_bad (h : ∀ count, ¬ Announces raw count) :
    loadBytes available raw = .ok (.error "rules.bin: bad magic") := by
  rw [loadBytes]
  split
  · rfl
  next hlong =>
  rw [slice_ok (by omega) (by omega), ok_bind, get_ok (by omega) 0, ok_bind]
  refine if_pos (Decidable.byContradiction fun hmagic => ?_)
  rw [not_or, not_not, not_not] at hmagic
  exact h _ (announces_iff.mpr ⟨Nat.not_lt.mp hlong, hmagic.1, hmagic.2, rfl⟩)

/-- For the records that a file announces room is made before they are read. -/
theorem loadBytes_announced {count : Nat} (h : Announces raw count) :
    loadBytes available raw = (do
      reserve available count
      let records ← readRecords raw count 9 ∅
      .ok do
        let records ← records
        selfCheck records
        return (records, .new 4096)) := by
  obtain ⟨hlen, hmagic, hversion, rfl⟩ := announces_iff.mp h
  rw [loadBytes, if_neg (Nat.not_lt.mpr hlen), slice_ok (by omega) (by omega), ok_bind,
    get_ok (by omega) 0, ok_bind, if_neg (not_or.mpr ⟨not_not.mpr hmagic, not_not.mpr hversion⟩),
    slice_ok (by omega) (by omega), ok_bind]

end

/-- For every byte string the loading does what the format says exactly where there is room for as
many records as the file announces, if it announces any. -/
theorem loads_iff (available : Nat → Bool) (raw : Bytes) :
    Loads available raw ↔ ∀ count, Announces raw count → available count := by
  constructor
  · rintro ⟨r, hr, -⟩ count hcount
    rw [loadBytes_announced hcount] at hr
    obtain ⟨_, hroom, -⟩ := bind_eq_ok.mp hr
    by_contra hnone
    rw [reserve, if_neg hnone] at hroom
    cases hroom
  intro hroom
  suffices h : ∃ r, loadBytes available raw = .ok r ∧ ∀ db, r = .ok db ↔ ∃ records,
      Holds raw records ∧ Verified (tableOf records) ∧ db = (tableOf records, .new 4096) by
    obtain ⟨r, hr, hiff⟩ := h
    exact ⟨r, hr, hiff, lookup_tableOf⟩
  by_cases hannounced : ∃ count, Announces raw count
  · obtain ⟨count, hcount⟩ := hannounced
    rw [loadBytes_announced hcount, reserve_ok (hroom count hcount), ok_bind]
    obtain ⟨res, hres, hread⟩ := @readRecords_ok raw 9 count ∅
    rw [hres, ok_bind]
    refine ⟨_, rfl, fun db => ?_⟩
    rw [bind_eq_ok]
    constructor
    · rintro ⟨table, htable, hrest⟩
      obtain ⟨_, hcheck, hdb⟩ := bind_eq_ok.mp hrest
      obtain ⟨records, rest, hlen, hdrop⟩ := hread table htable
      have hall := readRecords_flatMap ∅ hdrop
      rw [hlen, hres, htable] at hall
      cases hall
      cases hdb
      exact ⟨records, holds_iff.mpr ⟨hlen.symm ▸ hcount, rest, hdrop⟩, selfCheck_eq_ok.mp hcheck, rfl⟩
    · rintro ⟨records, hholds, hverified, rfl⟩
      obtain ⟨hlen, rest, hdrop⟩ := holds_iff.mp hholds
      have hsame : records.length = count :=
        (announces_iff.mp hlen).2.2.2.trans (announces_iff.mp hcount).2.2.2.symm
      have hall := readRecords_flatMap ∅ hdrop
      rw [hsame, hres] at hall
      cases hall
      exact ⟨_, rfl, bind_eq_ok.mpr ⟨(), selfCheck_eq_ok.mpr hverified, rfl⟩⟩
  · refine ⟨_, loadBytes_bad fun count hcount => hannounced ⟨count, hcount⟩, fun db => ?_⟩
    refine iff_of_false (fun h => by cases h) ?_
    rintro ⟨records, hholds, -⟩
    exact hannounced ⟨_, (holds_iff.mp hholds).1⟩

/-- Nine bytes announce four thousand million records. -/
theorem not_loads : ¬ Loads (· < 2 ^ 30) [67, 70, 87, 82, 1, 255, 255, 255, 255] := by
  rintro ⟨r, hr, -⟩
  have hstop : loadBytes (· < 2 ^ 30) [67, 70, 87, 82, 1, 255, 255, 255, 255] = .error .alloc := rfl
  rw [hstop] at hr
  cases hr

end RuleDb

end RustClash
