import RustClash.Core.Str
import RustClash.Lib.FinMap

/-!
# Profiles

`ProfileStore` keeps the profiles in a list, and the name of the one that is the
default.  Their contents are files of the data directory: `ContentStore` names each by
its hash, so that two profiles with one content share a file.
-/

namespace RustClash

namespace Config

open Str

inductive ProfileKind where
  | cloud
  | local
deriving DecidableEq, Repr

structure ProfileEntry where
  name : Str
  hash : Str
  kind : ProfileKind
  url : Option Str := none
  usedBytes : Option Int64 := none
  totalBytes : Option Int64 := none
  expireUnix : Option Int64 := none
deriving DecidableEq

structure SubscriptionUserInfo where
  upload : Option Int64 := none
  download : Option Int64 := none
  total : Option Int64 := none
  expireUnix : Option Int64 := none

/-- The files of the data directory by their names. -/
abbrev DataDir := FinMap Str Bytes

/-- `Sha256::digest`. -/
abbrev Sha256 := Bytes → Octets 32

/-! ## Contents -/

/-- `hex::encode`. -/
def hexEncode (bs : Bytes) : Str :=
  bs.flatMap fun b => [Nat.digitChar (b.toNat / 16), Nat.digitChar (b.toNat % 16)]

namespace ContentStore

def sha256Hex (sha : Sha256) (data : Bytes) : Str := hexEncode (sha data).bytes

/-- The hash, and the directory with the file. -/
def save (sha : Sha256) (data : Bytes) (dir : DataDir) : Str × DataDir :=
  let hash := sha256Hex sha data
  (hash, if hash ∈ dir then dir else dir.insert hash data)

def isAsciiHexdigit (c : Char) : Bool :=
  ('0' ≤ c && c ≤ '9') || ('a' ≤ c && c ≤ 'f') || ('A' ≤ c && c ≤ 'F')

def isSafe (hash : Str) : Bool :=
  byteLen hash = 64 && !contains "..".toList hash && !contains "/".toList hash &&
    !contains "\\".toList hash && !contains ":".toList hash && hash.all isAsciiHexdigit

/-- A file with a safe name has its place below the directory. -/
def tryRead (hash : Str) (dir : DataDir) : Option Bytes :=
  if !isSafe hash then none else dir.lookup hash

def deleteIfUnreferenced (hash : Str) (referenced : List Str) (dir : DataDir) : DataDir :=
  if !isSafe hash then dir
  else if referenced.any fun h => eqIgnoreCase h hash then dir
  else dir.erase hash

end ContentStore

/-! ## The store -/

structure ProfileStore where
  profiles : List ProfileEntry
  defaultName : Option Str

namespace ProfileStore

def new : ProfileStore := ⟨[], none⟩

def active (st : ProfileStore) : Option ProfileEntry :=
  (st.defaultName.bind fun n => st.profiles.find? (·.name = n)) <|> st.profiles.head?

def nameExists (st : ProfileStore) (name : Str) : Bool := st.profiles.any (·.name = name)

def setDefault (st : ProfileStore) (name : Str) : ProfileStore :=
  if st.nameExists name then { st with defaultName := some name } else st

def numbered (base : Str) (i : Nat) : Str := base ++ '#' :: Nat.toDigits 10 i

/-- `uuid` is the one that is drawn when all numbers are taken. -/
def allocateUniqueName (st : ProfileStore) (uuid : Str) (preferred : Option Str) : Str :=
  let base := ((preferred.map trim).filter (!·.isEmpty)).getD "Proxy".toList
  if !st.nameExists base then base
  else
    match (List.range' 1 9999).find? fun i => !st.nameExists (numbered base i) with
    | some i => numbered base i
    | none => base ++ '#' :: uuid

/-- The first profile with a name, and where it is in the list. -/
def position (st : ProfileStore) (name : Str) : Option (Nat × ProfileEntry) := do
  let i ← st.profiles.findIdx? (·.name = name)
  let p ← st.profiles[i]?
  return (i, p)

end ProfileStore

/-- The sums wrap around, as in a release build. -/
def applyUserInfo (entry : ProfileEntry) : Option SubscriptionUserInfo → ProfileEntry
  | none => entry
  | some info => { entry with
      usedBytes :=
        if info.upload.isSome ∨ info.download.isSome then
          some (info.upload.getD 0 + info.download.getD 0)
        else entry.usedBytes
      totalBytes := info.total <|> entry.totalBytes
      expireUnix := info.expireUnix <|> entry.expireUnix }

/-- A store with the directory that it keeps the contents in. -/
structure Stored where
  store : ProfileStore
  dir : DataDir

namespace Stored

def new : Stored := ⟨.new, ∅⟩

/-- A profile at the end of the list is the default one. -/
def push (st : Stored) (entry : ProfileEntry) (dir : DataDir) : Stored :=
  ⟨⟨st.store.profiles ++ [entry], some entry.name⟩, dir⟩

def addLocal (sha : Sha256) (st : Stored) (uuid : Str) (name : Option Str) (content : Bytes) :
    ProfileEntry × Stored :=
  let name := st.store.allocateUniqueName uuid name
  let (hash, dir) := ContentStore.save sha content st.dir
  let entry := { name, hash, kind := .local }
  (entry, st.push entry dir)

def addCloud (sha : Sha256) (st : Stored) (uuid : Str) (name : Option Str) (url : Str)
    (content : Bytes) (info : Option SubscriptionUserInfo) : Except String ProfileEntry × Stored :=
  if (trim url).isEmpty then (.error "订阅地址不能为空", st)
  else
    let name := st.store.allocateUniqueName uuid name
    let (hash, dir) := ContentStore.save sha content st.dir
    let entry := applyUserInfo { name, hash, kind := .cloud, url := some (trim url) } info
    (.ok entry, st.push entry dir)

/-- What both `update_cloud` and `remove` end with. -/
def cleanUp (old : Str) (st : Stored) : Stored :=
  { st with dir := ContentStore.deleteIfUnreferenced old (st.store.profiles.map (·.hash)) st.dir }

def updateCloud (sha : Sha256) (st : Stored) (name : Str) (content : Bytes)
    (info : Option SubscriptionUserInfo) : Except String Unit × Stored :=
  match st.store.position name with
  | none => (.error "not found", st)
  | some (i, p) =>
      if p.kind ≠ .cloud then (.error "本地订阅不支持更新", st)
      else
        let (hash, dir) := ContentStore.save sha content st.dir
        let profiles := st.store.profiles.set i (applyUserInfo { p with hash } info)
        (.ok (), cleanUp p.hash ⟨{ st.store with profiles }, dir⟩)

/-- The default name after the profile at `i` is gone from `profiles`. -/
def defaultAfter (profiles : List ProfileEntry) (i : Nat) (name : Str) (old : Option Str) :
    Option Str :=
  if profiles.isEmpty then none
  else if old = some name ∨ old.all fun d => profiles.all (·.name ≠ d) then
    if i < profiles.length then profiles[i]?.map (·.name) else profiles[0]?.map (·.name)
  else old

def remove (st : Stored) (name : Str) : Bool × Stored :=
  match st.store.position name with
  | none => (false, st)
  | some (i, p) =>
      let profiles := st.store.profiles.eraseIdx i
      let defaultName := defaultAfter profiles i name st.store.defaultName
      (true, cleanUp p.hash ⟨⟨profiles, defaultName⟩, st.dir⟩)

end Stored

/-! ## Operations -/

/-- A call; the two that may need one come with the UUID that is drawn. -/
inductive ProfileOp where
  | addLocal (uuid : Str) (name : Option Str) (content : Bytes)
  | addCloud (uuid : Str) (name : Option Str) (url : Str) (content : Bytes)
      (info : Option SubscriptionUserInfo)
  | updateCloud (name : Str) (content : Bytes) (info : Option SubscriptionUserInfo)
  | setDefault (name : Str)
  | remove (name : Str)

/-- What a call answers. -/
inductive Outcome where
  | failed
  | done
  | added (entry : ProfileEntry)

def Stored.perform (sha : Sha256) (st : Stored) : ProfileOp → Outcome × Stored
  | .addLocal uuid name content =>
      let (entry, st) := st.addLocal sha uuid name content
      (.added entry, st)
  | .addCloud uuid name url content info =>
      match st.addCloud sha uuid name url content info with
      | (.ok entry, st) => (.added entry, st)
      | (.error _, st) => (.failed, st)
  | .updateCloud name content info =>
      match st.updateCloud sha name content info with
      | (.ok (), st) => (.done, st)
      | (.error _, st) => (.failed, st)
  | .setDefault name =>
      (if st.store.nameExists name then .done else .failed, { st with store := st.store.setDefault name })
  | .remove name =>
      let (found, st) := st.remove name
      (if found then .done else .failed, st)

end Config

end RustClash
