/-
Compressed payloads and the objects they become in the bucket.  Tensors are
symbolic: a factor remembers the dispatch, path and version it was computed
for, and a uuid tensor is its words.
-/
import CatKV.ObjectName
import CatKV.Transition
import Mathlib.Logic.Function.Basic

namespace CatKV

inductive TensorName where
  | uQuantized
  | uMeta
  | keySvQuantized
  | keySvMeta
  | keyResidualSv
  | valueSvQuantized
  | valueSvMeta
  | valueResidualSv
  | uuid
deriving Repr, DecidableEq

/-- The compression a factor came from.  One dispatch has one key basis. -/
structure Origin where
  dispatch : Nat
  path : Bytes
  version : Nat
deriving Repr, DecidableEq

inductive TensorValue where
  | factor (origin : Origin)
  | words (uuid : Uuid)
deriving Repr, DecidableEq

abbrev TensorDict := List (TensorName × TensorValue)

def TensorDict.count (dict : TensorDict) (name : TensorName) : Bool := (dict.lookup name).isSome

/-- The words of the entry named uuid, when the dictionary has one. -/
def TensorDict.uuidWords (dict : TensorDict) : Option Uuid :=
  match dict.lookup .uuid with
  | some (.words uuid) => some uuid
  | _ => none

/-- `unordered_map::insert` of a range: existing keys keep their value. -/
def TensorDict.insertAll (dict more : TensorDict) : TensorDict :=
  dict ++ more.filter fun entry => !dict.count entry.1

/-! Compression. -/

/-- What the compressor returns for one chunk: its own u and value factors, the
key factors of `keySource`, and the uuid. -/
def compressedDict (own keySource : Origin) (uuid : Uuid) : TensorDict :=
  [(.uQuantized, .factor own), (.uMeta, .factor own),
    (.keySvQuantized, .factor keySource), (.keySvMeta, .factor keySource),
    (.valueSvQuantized, .factor own), (.valueSvMeta, .factor own),
    (.keyResidualSv, .factor keySource), (.valueResidualSv, .factor own),
    (.uuid, .words uuid)]

/-- The first index of the largest rank, as `use_largest_rank_key_sv` scans. -/
def largestRankIndex (ranks : List Nat) : Nat :=
  (ranks.zipIdx.foldl (fun best item =>
    if item.1 > best.1 then item else best) (ranks.headD 0, 0)).2

structure CompressedPayload where
  isSplit : Bool
  fullPayload : TensorDict
  keySvPayload : TensorDict
  otherPayload : TensorDict
deriving Repr, DecidableEq

def isSplitCompressedTensorDict (dict : TensorDict) : Bool :=
  dict.count .keySvQuantized && dict.count .keySvMeta &&
    dict.count .valueSvQuantized && dict.count .valueSvMeta

def extractTensorSubset (dict : TensorDict) (keys : List TensorName) : TensorDict :=
  keys.filterMap fun key => (dict.lookup key).map fun value => (key, value)

def withUuid (dict : TensorDict) : Option Uuid → TensorDict
  | none => dict
  | some uuid => dict ++ [(.uuid, .words uuid)]

def buildCompressedPayload (dict : TensorDict) : CompressedPayload :=
  if !isSplitCompressedTensorDict dict then ⟨false, dict, [], []⟩
  else
    ⟨true, [], withUuid (extractTensorSubset dict
        [.keySvQuantized, .keySvMeta, .keyResidualSv]) dict.uuidWords,
      withUuid (extractTensorSubset dict [.uQuantized, .uMeta, .valueSvQuantized, .valueSvMeta,
          .valueResidualSv]) dict.uuidWords⟩

/-- The key half of a compressed chunk. -/
def keySvHalf (keySource : Origin) (uuid : Uuid) : TensorDict :=
  [(.keySvQuantized, .factor keySource), (.keySvMeta, .factor keySource),
    (.keyResidualSv, .factor keySource), (.uuid, .words uuid)]

/-- The other half of a compressed chunk. -/
def otherHalf (own : Origin) (uuid : Uuid) : TensorDict :=
  [(.uQuantized, .factor own), (.uMeta, .factor own),
    (.valueSvQuantized, .factor own), (.valueSvMeta, .factor own),
    (.valueResidualSv, .factor own), (.uuid, .words uuid)]

theorem buildCompressedPayload_compressedDict (own keySource : Origin) (uuid : Uuid) :
    buildCompressedPayload (compressedDict own keySource uuid) =
      ⟨true, [], keySvHalf keySource uuid, otherHalf own uuid⟩ := rfl

/-! The bucket. -/

/-- S3 as a map from object name to payload. -/
abbrev Bucket := Bytes → Option TensorDict

/-- The name of the key_sv object that belongs to `path`; no name when
`ParseLayerIdx` throws. -/
def keySvObject (path : Bytes) (uuid : Option Uuid) : Option Bytes :=
  match parseLayerIdx path with
  | none => none
  | some layer =>
    match uuid with
    | some words =>
      if layer > 2 then some (sharedKeySvPath words layer path)
      else some (keySvPath path)
    | none => some (keySvPath path)

/-- `RemoteStorageManager::Load`: the object named by the path itself, or else
both halves. -/
def Bucket.load (bucket : Bucket) (path : Bytes) : Option TensorDict :=
  match bucket path with
  | some payload => some payload
  | none =>
    match bucket (otherPath path) with
    | none => none
    | some otherPayload =>
      match keySvObject path otherPayload.uuidWords with
      | none => none
      | some name =>
        match bucket name with
        | none => none
        | some keySvPayload => some (otherPayload.insertAll keySvPayload)

theorem Bucket.load_congr {bucket bucket' : Bucket} {path : Bytes}
    (hfull : bucket' path = bucket path)
    (hother : bucket' (otherPath path) = bucket (otherPath path))
    (hkeySv : ∀ otherPayload name, bucket (otherPath path) = some otherPayload →
      keySvObject path otherPayload.uuidWords = some name →
      bucket' name = bucket name) : bucket'.load path = bucket.load path := by
  unfold Bucket.load
  rw [hfull, hother]
  cases bucket path with
  | some payload => rfl
  | none =>
    cases hpayload : bucket (otherPath path) with
    | none => rfl
    | some otherPayload =>
      cases hname : keySvObject path otherPayload.uuidWords with
      | none => simp only [hname]
      | some name =>
        simp only [hname, hkeySv otherPayload name hpayload hname]

theorem Bucket.load_halves {bucket : Bucket} {path name : Bytes}
    {own keySource : Origin} {uuid keyUuid : Uuid} (hfull : bucket path = none)
    (hother : bucket (otherPath path) = some (otherHalf own uuid))
    (hname : keySvObject path (some uuid) = some name)
    (hkeySv : bucket name = some (keySvHalf keySource keyUuid)) :
    bucket.load path = some ((otherHalf own uuid).insertAll (keySvHalf keySource keyUuid)) := by
  have hwords : (otherHalf own uuid).uuidWords = some uuid := rfl
  simp only [Bucket.load, hfull, hother, hwords, hname, hkeySv]

/-! Names of the two halves never coincide. -/

theorem keySvObject_suffix {path name : Bytes} {uuid : Option Uuid}
    (hname : keySvObject path uuid = some name) : ∃ before, name = before ++ keySvSuffix := by
  unfold keySvObject at hname
  split at hname
  · cases hname
  · split at hname
    · split at hname
      · cases hname
        exact ⟨_, rfl⟩
      · cases hname
        exact ⟨path, rfl⟩
    · cases hname
      exact ⟨path, rfl⟩

theorem otherPath_ne_keySvObject {path other name : Bytes} {uuid : Option Uuid}
    (hname : keySvObject other uuid = some name) : otherPath path ≠ name := by
  obtain ⟨before, rfl⟩ := keySvObject_suffix hname
  exact otherPath_ne_append_keySvSuffix path before

end CatKV
