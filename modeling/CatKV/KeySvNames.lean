/-
Names of the shared key_sv objects on both sides of the bucket.  The writer
names the object of a layer after the uuid stored in that layer's payload; the
reader names it after the uuid it saw in the layer-1 payload, or after the
position of the chunk when that payload came from the CPU store and has none.
-/
import Mathlib.Data.List.Induction
import CatKV.Pipeline
import CatKV.PrefetchPlan
import CatKV.RequestEffect

namespace CatKV

open List

section Reader

def CompressType.name : CompressType → Bytes
  | .none => ascii "NONE"
  | .ours => ascii "OURS"

/-- `store_kvcache_dir` joined with the compress type. -/
def kvcacheDir (compressType : CompressType) : Bytes := ascii "vllm/kvcache/" ++ compressType.name

def getKvcacheFilename (compressType : CompressType) (device : Nat)
    (hash : Bytes) (layer : Nat) : Bytes :=
  kvcacheDir compressType ++ [charByte '/'] ++
    (hash ++ ascii "-layer_" ++ decimal layer ++ ascii "-device_cuda:" ++
      decimal device ++ ascii ".bin")

/-- `get_shared_key_sv_filename` with a uuid that is already a path id. -/
def getSharedKeySvFilename (pathId : Bytes) (layer : Nat) (baseKey : Bytes) : Bytes :=
  directoryOf baseKey ++ pathId ++ ascii "_layer_" ++ decimal layer ++ ascii "_key_sv"

def baseReusePaths (compressType : CompressType) (device layer : Nat)
    (active : List Chunk) : List Bytes :=
  active.map fun chunk => getKvcacheFilename compressType device chunk.hash layer

/-- The loop over the representatives; an entry without a path id or a base
path is left out. -/
def KeySvGroups.sharedKeySvPaths (groups : KeySvGroups) (layer : Nat)
    (basePaths : List Bytes) : List Bytes :=
  groups.keySvFilterIdx.zipIdx.filterMap fun entry =>
    match groups.keySvUuidPathIds[entry.2]?, basePaths[entry.1]? with
    | some pathId, some base => some (getSharedKeySvFilename pathId layer base)
    | _, _ => none

def ContextManager.getCatkvOpsKeySvDedupGroups (manager : ContextManager)
    (layer : Nat) (basePaths : List Bytes) : Option DedupGroups :=
  if layer ≤ 2 then none
  else manager.keySv.map fun groups =>
    ⟨groups.keySvIdx, groups.sharedKeySvPaths layer basePaths⟩

/-- The key_sv object that `prefetch_chunk_kv` of a layer requests for the
active chunk at this position. -/
def ContextManager.keySvRequested (manager : ContextManager)
    (compressType : CompressType) (device layer : Nat) (cpuHits : List Bool)
    (idx : Nat) : Option Bytes :=
  let basePaths := baseReusePaths compressType device layer manager.active
  (buildSplitPrefetchPlan basePaths cpuHits
    (manager.getCatkvOpsKeySvDedupGroups layer basePaths)).keySvObject idx

end Reader

section Writer

/-- The group id that `offload_layer_data` passes on. -/
def offloadGroup (groupUuid : Option Bytes) (key : Bytes) : Bytes :=
  match groupUuid with
  | none => key
  | some group => if group = [] then key else group

/-- The uuid in the payload stored for a key that was offloaded with this
`group_uuid`. -/
def storedUuid (groupUuid : Option Bytes) (key : Bytes) : Uuid :=
  uuidStringToTensor (offloadGroup groupUuid key)

end Writer

section Snoc

variable {α : Type*} {items : List α}

theorem getElem?_append_self {count : Nat} (hlength : items.length = count)
    (item : α) : (items ++ [item])[count]? = some item := by
  subst hlength
  simp

theorem getElem?_append_of_some {idx : Nat} {item : α} (hitem : items[idx]? = some item)
    (more : List α) : (items ++ more)[idx]? = some item := by
  obtain ⟨hlt, -⟩ := List.getElem?_eq_some_iff.mp hitem
  rw [List.getElem?_append_left hlt, hitem]

theorem getElem?_snoc_cases {idx : Nat} {item last : α}
    (hitem : (items ++ [last])[idx]? = some item) :
    items[idx]? = some item ∨ (idx = items.length ∧ item = last) := by
  rcases Nat.lt_trichotomy idx items.length with hlt | heq | hgt
  · rw [getElem?_append_left hlt] at hitem
    exact Or.inl hitem
  · rw [getElem?_append_self heq.symm, Option.some.injEq] at hitem
    exact Or.inr ⟨heq, hitem.symm⟩
  · rw [getElem?_eq_none (by simp; omega)] at hitem
    cases hitem

end Snoc

section Groups

/-- The id a payload's group goes by in file names. -/
def groupPathId (idx : Nat) (payload : ReusePayload) : Bytes :=
  match payload.found.uuid with
  | none => decimal idx
  | some uuid => uuidTensorToPathId uuid

/-- The groups built from a list without empty payloads. -/
structure Grouped (payloads : List ReusePayload) (groups : KeySvGroups) : Prop where
  idx_length : groups.keySvIdx.length = payloads.length
  filter_length : groups.keySvFilterIdx.length = groups.uuidList.length
  path_length : groups.keySvUuidPathIds.length = groups.uuidList.length
  representative : ∀ idx ∈ groups.keySvFilterIdx, idx < payloads.length
  path_of_uuid : ∀ (group : Nat) (uuid : Uuid), groups.uuidList[group]? = some (some uuid) →
    groups.keySvUuidPathIds[group]? = some (uuidTensorToPathId uuid)
  path_of_payload : ∀ (idx : Nat) (payload : ReusePayload),
    payloads[idx]? = some payload → ∃ group : Nat, groups.keySvIdx[idx]? = some (group : Int) ∧
        groups.keySvUuidPathIds[group]? = some (groupPathId idx payload)

variable {payloads : List ReusePayload} {groups : KeySvGroups} {payload : ReusePayload}

section

variable (hgroups : Grouped payloads groups)

include hgroups

theorem Grouped.addGroup (pathId : Bytes) (uuid : Option Uuid)
    (hpath : pathId = groupPathId payloads.length payload) (huuid : ∀ value, uuid = some value →
      pathId = uuidTensorToPathId value) :
    Grouped (payloads ++ [payload]) (groups.addGroup payloads.length pathId uuid) := by
  refine ⟨?_, ?_, ?_, ?_, ?_, ?_⟩
  · simp [KeySvGroups.addGroup, hgroups.idx_length]
  · simp [KeySvGroups.addGroup, hgroups.filter_length]
  · simp [KeySvGroups.addGroup, hgroups.path_length]
  · intro idx hidx
    simp only [KeySvGroups.addGroup, mem_append, mem_singleton] at hidx
    rw [length_append, length_singleton]
    rcases hidx with hold | rfl
    · exact Nat.lt_succ_of_lt (hgroups.representative idx hold)
    · exact Nat.lt_succ_self _
  · intro group value hvalue
    rcases getElem?_snoc_cases hvalue with hold | ⟨rfl, hnew⟩
    · exact getElem?_append_of_some (hgroups.path_of_uuid group value hold) _
    · rw [← huuid value hnew.symm]
      exact getElem?_append_self hgroups.path_length _
  · intro idx other hother
    rcases getElem?_snoc_cases hother with hold | ⟨rfl, rfl⟩
    · obtain ⟨group, hgroup, hid⟩ := hgroups.path_of_payload idx other hold
      exact ⟨group, getElem?_append_of_some hgroup _, getElem?_append_of_some hid _⟩
    · refine ⟨groups.uuidList.length, getElem?_append_self hgroups.idx_length _, ?_⟩
      rw [← hpath]
      exact getElem?_append_self hgroups.path_length _

theorem Grouped.join {existing : Nat} (hpath : groups.keySvUuidPathIds[existing]? =
      some (groupPathId payloads.length payload)) :
    Grouped (payloads ++ [payload])
      { groups with keySvIdx := groups.keySvIdx ++ [(existing : Int)] } := by
  refine ⟨?_, hgroups.filter_length, hgroups.path_length, ?_, hgroups.path_of_uuid, ?_⟩
  · simp [hgroups.idx_length]
  · intro idx hidx
    rw [length_append, length_singleton]
    exact Nat.lt_succ_of_lt (hgroups.representative idx hidx)
  · intro idx other hother
    rcases getElem?_snoc_cases hother with hold | ⟨rfl, rfl⟩
    · obtain ⟨group, hgroup, hid⟩ := hgroups.path_of_payload idx other hold
      exact ⟨group, getElem?_append_of_some hgroup _, hid⟩
    · exact ⟨existing, getElem?_append_self hgroups.idx_length _, hpath⟩

theorem Grouped.addPayload (hhit : payload.isEmptyReusePayload = false) :
    Grouped (payloads ++ [payload]) (groups.addPayload payloads.length payload) := by
  unfold KeySvGroups.addPayload
  rw [hhit]
  simp only [Bool.false_eq_true, ↓reduceIte]
  cases huuid : payload.found.uuid with
  | none =>
    exact hgroups.addGroup _ none (by simp [groupPathId, huuid]) (by simp)
  | some uuid =>
    dsimp only
    cases hexisting : groups.uuidList.idxOf? (some uuid) with
    | none =>
      refine hgroups.addGroup _ (some uuid) (by simp [groupPathId, huuid]) ?_
      rintro value ⟨⟩
      rfl
    | some existing =>
      refine hgroups.join ?_
      rw [groupPathId, huuid]
      obtain ⟨hlt, heq, -⟩ := idxOf?_eq_some_iff.mp hexisting
      exact hgroups.path_of_uuid existing uuid (List.getElem?_eq_some_iff.mpr ⟨hlt, heq⟩)

omit hgroups in
theorem grouped_buildKeySvDedupGroups (payloads : List ReusePayload)
    (hfull : ∀ payload ∈ payloads, payload.isEmptyReusePayload = false) :
    Grouped payloads (buildKeySvDedupGroups payloads) := by
  induction payloads using List.reverseRecOn with
  | nil => exact ⟨rfl, rfl, rfl, by simp [buildKeySvDedupGroups],
      by simp [buildKeySvDedupGroups], by simp⟩
  | append_singleton payloads payload ih =>
    have hsnoc : buildKeySvDedupGroups (payloads ++ [payload]) =
        (buildKeySvDedupGroups payloads).addPayload payloads.length payload := by
      simp [buildKeySvDedupGroups, zipIdx_append]
    rw [hsnoc]
    refine (ih fun other hother => ?_).addPayload ?_
    · exact hfull other (mem_append_left _ hother)
    · exact hfull payload (by simp)

theorem Grouped.sharedKeySvPaths_eq (layer : Nat) {basePaths : List Bytes}
    (hlength : basePaths.length = payloads.length) :
    groups.sharedKeySvPaths layer basePaths = groups.keySvFilterIdx.zipIdx.map fun entry =>
        getSharedKeySvFilename (groups.keySvUuidPathIds.getD entry.2 []) layer
          (basePaths.getD entry.1 []) := by
  rw [KeySvGroups.sharedKeySvPaths, ← filterMap_eq_map]
  refine filterMap_congr fun entry hentry => ?_
  have hgroup : entry.2 < groups.keySvUuidPathIds.length := by
    rw [hgroups.path_length, ← hgroups.filter_length]
    simpa using snd_lt_of_mem_zipIdx hentry
  have hbase : entry.1 < basePaths.length := by
    rw [hlength]
    exact hgroups.representative _ (fst_mem_of_mem_zipIdx hentry)
  simp [getElem?_eq_getElem hgroup, getElem?_eq_getElem hbase]

theorem Grouped.sharedKeySvPath (layer : Nat) {basePaths : List Bytes}
    (hlength : basePaths.length = payloads.length) {group : Nat}
    {pathId : Bytes} (hpath : groups.keySvUuidPathIds[group]? = some pathId) :
    ∃ base ∈ basePaths, (groups.sharedKeySvPaths layer basePaths)[group]? =
      some (getSharedKeySvFilename pathId layer base) := by
  obtain ⟨hlt, hid⟩ := List.getElem?_eq_some_iff.mp hpath
  have hfilter : group < groups.keySvFilterIdx.length := by
    rw [hgroups.filter_length, ← hgroups.path_length]
    exact hlt
  have hbase : groups.keySvFilterIdx[group] < basePaths.length := by
    rw [hlength]
    exact hgroups.representative _ (getElem_mem hfilter)
  refine ⟨basePaths[groups.keySvFilterIdx[group]], getElem_mem hbase, ?_⟩
  rw [hgroups.sharedKeySvPaths_eq layer hlength]
  simp [getElem?_eq_getElem hfilter, getElem?_eq_getElem hlt, hid, getElem?_eq_getElem hbase]

end

end Groups

section Names

theorem slash_not_mem_decimal (value : Nat) : charByte '/' ∉ decimal value := by
  intro hmem
  have := isDigitByte_of_mem_decimal hmem
  revert this
  decide

theorem directoryOf_getKvcacheFilename (compressType : CompressType)
    (device layer : Nat) {hash : Bytes} (hslash : charByte '/' ∉ hash) :
    directoryOf (getKvcacheFilename compressType device hash layer) =
      kvcacheDir compressType ++ [charByte '/'] := by
  refine directoryOf_append_of_not_mem _ _ ?_
  simp only [mem_append, not_or]
  exact ⟨⟨⟨⟨⟨hslash, by decide⟩, slash_not_mem_decimal _⟩, by decide⟩,
    slash_not_mem_decimal _⟩, by decide⟩

theorem getSharedKeySvFilename_eq_iff {base path pathId : Bytes} {uuid : Uuid}
    {layer : Nat} (hdirectory : directoryOf base = directoryOf path) :
    getSharedKeySvFilename pathId layer base = sharedKeySvPath uuid (layer : Int) path ↔
      pathId = uuidTensorToPathId uuid := by
  have hlayer : decimalInt (layer : Int) = decimal layer := rfl
  rw [getSharedKeySvFilename, sharedKeySvPath, hdirectory, hlayer, keySvSuffix]
  simp only [append_assoc, append_cancel_left_eq, append_cancel_right_eq]

/-- The id of a group is the id of its uuid, where a payload without a uuid
counts as one word. -/
theorem groupPathId_eq (idx : Nat) (payload : ReusePayload) : groupPathId idx payload =
    uuidTensorToPathId (payload.found.uuid.getD [(idx : Int)]) := by
  unfold groupPathId
  cases payload.found.uuid with
  | none => rfl
  | some uuid => rfl

theorem groupPathId_eq_iff {idx : Nat} {payload : ReusePayload}
    {groupUuid : Option Bytes} {key : Bytes} :
    groupPathId idx payload = uuidTensorToPathId (storedUuid groupUuid key) ↔
      payload.found.uuid = some (storedUuid groupUuid key) := by
  rw [groupPathId_eq, uuidTensorToPathId_injective.eq_iff]
  cases payload.found.uuid with
  | none => simp [storedUuid, uuidStringToTensor]
  | some uuid => simp

end Names

section Requests

/-- A native OURS request over chunks that were offloaded earlier: `groupUuid`
is the argument each key was offloaded with, and a layer-1 payload is a pair
from the CPU store, without a uuid, or what the bucket has for the key. -/
structure NativeRequest extends ReuseRequest where
  ours : compressType = .ours
  native : catkvOps = true
  device : Nat
  groupUuid : Bytes → Option Bytes
  hashes : ∀ chunk ∈ chunks, charByte '/' ∉ chunk.hash
  firstFound : ∀ (position : Nat) (chunk : Chunk), chunks[position]? = some chunk →
    found 1 position = .absent ∨ (∃ length, found 1 position = .raw length) ∨
      found 1 position = .split (some (storedUuid
        (groupUuid (getKvcacheFilename .ours device chunk.hash 1))
        (getKvcacheFilename .ours device chunk.hash 1))) true

def NativeRequest.path (request : NativeRequest) (chunk : Chunk) (layer : Nat) : Bytes :=
  getKvcacheFilename .ours request.device chunk.hash layer

/-- The uuid in the payload stored for the chunk at this layer. -/
def NativeRequest.uuid (request : NativeRequest) (chunk : Chunk) (layer : Nat) : Uuid :=
  storedUuid (request.groupUuid (request.path chunk layer)) (request.path chunk layer)

variable {chunk : Chunk}

variable {payload : ReusePayload}

theorem splitHits_position {chunks : List Chunk} {payloads : List ReusePayload}
    {idx : Nat} (hchunk : (splitHits chunks payloads).kept[idx]? = some chunk)
    (hpayload : (splitHits chunks payloads).keptPayloads[idx]? = some payload) :
    ∃ position : Nat, chunks[position]? = some chunk ∧ payloads[position]? = some payload := by
  induction chunks generalizing payloads idx with
  | nil => simp [splitHits] at hchunk
  | cons head chunks ih =>
    cases payloads with
    | nil => simp [splitHits] at hchunk
    | cons first payloads =>
      cases hempty : first.isEmptyReusePayload with
      | true =>
        rw [splitHits_cons_empty hempty] at hchunk hpayload
        obtain ⟨position, hposition⟩ := ih hchunk hpayload
        exact ⟨position + 1, hposition⟩
      | false =>
        rw [splitHits_cons_hit hempty] at hchunk hpayload
        cases idx with
        | zero => exact ⟨0, hchunk, hpayload⟩
        | succ idx =>
          obtain ⟨position, hposition⟩ := ih hchunk hpayload
          exact ⟨position + 1, hposition⟩

theorem NativeRequest.uuid_of_kept (request : NativeRequest) {idx : Nat}
    (hchunk : request.hits.kept[idx]? = some chunk)
    (hpayload : request.hits.keptPayloads[idx]? = some payload) :
    (∃ length, payload.found = .raw length) ∨
      payload.found = .split (some (request.uuid chunk 1)) true := by
  obtain ⟨position, hposition, hload⟩ := splitHits_position hchunk hpayload
  have hfound : payload.found = request.found 1 position := by
    rw [retrieve, getElem?_mapIdx, hposition, Option.map_some, Option.some.injEq] at hload
    rw [← hload]
  rw [hfound]
  rcases request.firstFound position chunk hposition with habsent | hrest
  · have hhit := request.hits_nonempty payload (mem_of_getElem? hpayload)
    rw [ReusePayload.isEmptyReusePayload, hfound, habsent] at hhit
    cases hhit
  · exact hrest

variable {manager : ContextManager}

theorem keySv_step {request : ReuseRequest} {next : ContextManager} {action : RequestStep}
    (hinv : ReuseInv request manager) (hfollows : action.Follows request)
    (heffect : RequestEffect request manager action next) : next.keySv = manager.keySv := by
  cases heffect with
  | prefetchesFirst => exact absurd rfl hfollows.1
  | compacts hreuse hpayloads =>
    obtain ⟨rfl, -⟩ := hinv.materialize_one (hfollows.2 rfl) hreuse hpayloads
    rw [compactReuseHits_hits hinv.active (hinv.reuse hreuse).2]
    rfl
  | skips | prefetches | idles | materializes | copies | selects | blends
  | prefills => rfl

theorem keySv_of_run {request : ReuseRequest} {previous : ContextManager} {layers : Nat}
    (hours : request.compressType = .ours) (hnative : request.catkvOps = true)
    (hlayers : 1 < request.layerNum) (hpos : 0 < layers)
    (hrun : runFrom (ContextManager.step request) previous.reset
      (computeLayer layers) = some manager) (hactive : manager.active ≠ []) :
    ReuseInv request manager ∧ manager.keySv =
      some (buildKeySvDedupGroups request.hits.keptPayloads) := by
  rw [← append_nil (computeLayer layers)] at hrun
  obtain ⟨rest, hrest, hrun⟩ := run_from_first hpos (by simp) hrun
  have hstart := firstPrefetched previous.reset hlayers
  have hstep : ∀ state action next,
      (ReuseInv request state ∧ (request.hits.kept ≠ [] → state.keySv =
        some (buildKeySvDedupGroups request.hits.keptPayloads))) →
      action.Follows request →
      ContextManager.step request state action = some next →
      (ReuseInv request next ∧ (request.hits.kept ≠ [] → next.keySv =
        some (buildKeySvDedupGroups request.hits.keptPayloads))) := by
    rintro state action next ⟨hinv, hgroups⟩ hfollows hstep
    have heffect := ContextManager.effect_of_step hstep
    refine ⟨hinv.step heffect hfollows, fun hkept => ?_⟩
    rw [keySv_step hinv hfollows heffect, hgroups hkept]
  obtain ⟨hinv, hgroups⟩ := run_invariant hstep ⟨hstart.inv, hstart.keySv hours⟩
    (meets_of_forall_mem fun action haction => ⟨(hrest action haction).1, fun _ hempties =>
      absurd (hnative.symm.trans hempties.2.2.1) nofun⟩) hrun
  exact ⟨hinv, hgroups (hinv.active ▸ hactive)⟩

theorem NativeRequest.keySvRequested_eq (request : NativeRequest)
    {layer idx : Nat} {cpuHits : List Bool}
    (hinv : ReuseInv request.toReuseRequest manager) (hgroups : manager.keySv =
      some (buildKeySvDedupGroups request.hits.keptPayloads))
    (hlayer : 2 < layer) (hchunk : manager.active[idx]? = some chunk)
    (hpayload : request.hits.keptPayloads[idx]? = some payload)
    (hmiss : cpuHits[idx]? = some false) :
    ∃ base, directoryOf base = directoryOf (request.path chunk layer) ∧
      manager.keySvRequested .ours request.device layer cpuHits idx =
        some (getSharedKeySvFilename (groupPathId idx payload) layer base) := by
  have hgrouped := grouped_buildKeySvDedupGroups request.hits.keptPayloads request.hits_nonempty
  have hlength : (baseReusePaths .ours request.device layer
      manager.active).length = request.hits.keptPayloads.length := by
    rw [baseReusePaths, length_map, hinv.active, request.hits_aligned.length_eq]
  obtain ⟨group, hgroup, hid⟩ := hgrouped.path_of_payload idx payload hpayload
  obtain ⟨base, hbase, hshared⟩ := hgrouped.sharedKeySvPath layer hlength hid
  have hslash : ∀ other ∈ manager.active, charByte '/' ∉ other.hash := by
    intro other hother
    rw [hinv.active] at hother
    exact request.hashes other ((splitHits_kept_sublist _ _).subset hother)
  refine ⟨base, ?_, ?_⟩
  · obtain ⟨other, hother, rfl⟩ := mem_map.mp hbase
    rw [directoryOf_getKvcacheFilename _ _ _ (hslash other hother), NativeRequest.path,
      directoryOf_getKvcacheFilename _ _ _ (hslash chunk (mem_of_getElem? hchunk))]
  · have hlt : idx < (baseReusePaths .ours request.device layer manager.active).length := by
      rw [baseReusePaths, length_map]
      exact (List.getElem?_eq_some_iff.mp hchunk).1
    have hdedup : manager.getCatkvOpsKeySvDedupGroups layer
        (baseReusePaths .ours request.device layer manager.active) =
        some ⟨(buildKeySvDedupGroups request.hits.keptPayloads).keySvIdx,
          (buildKeySvDedupGroups request.hits.keptPayloads).sharedKeySvPaths
            layer (baseReusePaths .ours request.device layer manager.active)⟩ := by
      simp [ContextManager.getCatkvOpsKeySvDedupGroups, hgroups, Nat.not_le.mpr hlayer]
    rw [ContextManager.keySvRequested, hdedup]
    exact keySvObject_buildSplitPrefetchPlan hlt hmiss hgroup hshared

/-- The layer-1 payload of the active chunk at this position came from the
bucket, and the chunk was stored under one uuid at both layers. -/
def NativeRequest.SameUuid (request : NativeRequest) (idx : Nat)
    (chunk : Chunk) (layer : Nat) : Prop :=
  (∀ length, (request.hits.keptPayloads[idx]?.map ReusePayload.found) ≠ some (.raw length)) ∧
    request.uuid chunk 1 = request.uuid chunk layer

/-- For a chunk that is no longer in the CPU store the reader asks for the
object the writer created exactly when layer 1 showed it the right uuid. -/
theorem keySvRequested_iff (request : NativeRequest) (previous : ContextManager)
    {manager : ContextManager} {layer idx : Nat} {cpuHits : List Bool} {chunk : Chunk}
    (hlayer : 2 < layer) (hbound : layer < request.layerNum)
    (hrun : runFrom (ContextManager.step request.toReuseRequest)
      previous.reset (computeLayer (layer - 1)) = some manager)
    (hchunk : manager.active[idx]? = some chunk) (hmiss : cpuHits[idx]? = some false) :
    manager.keySvRequested .ours request.device layer cpuHits idx =
        some (sharedKeySvPath (request.uuid chunk layer) (layer : Int) (request.path chunk layer)) ↔
      request.SameUuid idx chunk layer := by
  have hactive : manager.active ≠ [] := ne_nil_of_mem (mem_of_getElem? hchunk)
  obtain ⟨hinv, hgroups⟩ := keySv_of_run request.ours request.native (by omega) (by omega) hrun hactive
  have hkept : request.hits.kept[idx]? = some chunk := hinv.active ▸ hchunk
  obtain ⟨payload, hpayload⟩ : ∃ payload, request.hits.keptPayloads[idx]? = some payload := by
    have hlt := (List.getElem?_eq_some_iff.mp hkept).1
    rw [← request.hits_aligned.length_eq] at hlt
    exact ⟨_, getElem?_eq_getElem hlt⟩
  obtain ⟨base, hbase, hname⟩ := request.keySvRequested_eq hinv hgroups hlayer hchunk hpayload hmiss
  rw [hname, Option.some.injEq, getSharedKeySvFilename_eq_iff hbase, NativeRequest.uuid,
    groupPathId_eq_iff, NativeRequest.SameUuid, hpayload, Option.map_some]
  rcases request.uuid_of_kept hkept hpayload with ⟨length, hraw⟩ | hsplit
  · simp [hraw, Found.uuid]
  · simp [hsplit, Found.uuid, NativeRequest.uuid]

def chunkA : Chunk := ⟨ascii "a", 0, 2⟩

def chunkB : Chunk := ⟨ascii "b", 2, 4⟩

/-- Layer 1 finds the first chunk in the CPU store and the second one in the
bucket. -/
def cpuAndBucket (groupUuid : Bytes → Option Bytes) : NativeRequest where
  layerNum := 4
  compressType := .ours
  catkvOps := true
  blendFlag := true
  inputLen := 4
  chunks := [chunkA, chunkB]
  found := fun layer position =>
    if layer = 1 ∧ position = 0 then .raw 2
    else .split (some (storedUuid (groupUuid (getKvcacheFilename .ours 0 (ascii "b") layer))
      (getKvcacheFilename .ours 0 (ascii "b") layer))) true
  retries := fun _ => []
  picked := []
  ours := rfl
  native := rfl
  device := 0
  groupUuid := groupUuid
  hashes := by decide
  firstFound := by
    intro position chunk hchunk
    match position with
    | 0 => exact Or.inr (Or.inl ⟨2, rfl⟩)
    | 1 =>
      cases hchunk
      exact Or.inr (Or.inr rfl)
    | position + 2 => cases hchunk

/-- With one request id for all layers the chunk from the bucket is found. -/
theorem keySvRequested_bucket : ∃ manager, runFrom (ContextManager.step
      (cpuAndBucket fun _ => some (ascii "req")).toReuseRequest)
      ContextManager.initial.reset (computeLayer 2) = some manager ∧
    manager.keySvRequested .ours 0 3 [false, false] 1 = some (sharedKeySvPath
        ((cpuAndBucket fun _ => some (ascii "req")).uuid chunkB 3) 3
        ((cpuAndBucket fun _ => some (ascii "req")).path chunkB 3)) := by
  have hactive : (runFrom (ContextManager.step
      (cpuAndBucket fun _ => some (ascii "req")).toReuseRequest)
      ContextManager.initial.reset (computeLayer 2)).map
        ContextManager.active = some [chunkA, chunkB] := by
    decide +kernel
  obtain ⟨manager, hrun, hchunks⟩ := Option.map_eq_some_iff.mp hactive
  refine ⟨manager, hrun, ?_⟩
  refine (keySvRequested_iff (cpuAndBucket fun _ => some (ascii "req"))
    ContextManager.initial (by decide) (by decide) hrun
    (by rw [hchunks]; rfl) rfl).mpr ⟨?_, rfl⟩
  intro length
  simp [ReuseRequest.hits, cpuAndBucket, retrieve, splitHits,
    ReusePayload.isEmptyReusePayload, Found.isEmpty]

/-- The chunk from the CPU store is looked up under its position, and without a
request id the chunk from the bucket under the uuid of its layer-1 key. -/
theorem keySvRequested_ne : (∃ manager, runFrom (ContextManager.step
        (cpuAndBucket fun _ => some (ascii "req")).toReuseRequest)
        ContextManager.initial.reset (computeLayer 2) = some manager ∧
      manager.active[0]? = some chunkA ∧
      manager.keySvRequested .ours 0 3 [false, false] 0 ≠ some (sharedKeySvPath
          ((cpuAndBucket fun _ => some (ascii "req")).uuid chunkA 3) 3
          ((cpuAndBucket fun _ => some (ascii "req")).path chunkA 3))) ∧
    (∃ manager, runFrom (ContextManager.step (cpuAndBucket fun _ => none).toReuseRequest)
        ContextManager.initial.reset (computeLayer 2) = some manager ∧
      manager.active[1]? = some chunkB ∧
      manager.keySvRequested .ours 0 3 [false, false] 1 ≠
        some (sharedKeySvPath ((cpuAndBucket fun _ => none).uuid chunkB 3) 3
          ((cpuAndBucket fun _ => none).path chunkB 3))) := by
  have hcpu : (runFrom (ContextManager.step
      (cpuAndBucket fun _ => some (ascii "req")).toReuseRequest)
      ContextManager.initial.reset (computeLayer 2)).map (fun manager => (manager.active[0]?,
          decide (manager.keySvRequested .ours 0 3 [false, false] 0 = some (sharedKeySvPath
              ((cpuAndBucket fun _ => some (ascii "req")).uuid chunkA 3) 3
              ((cpuAndBucket fun _ => some (ascii "req")).path chunkA 3))))) =
      some (some chunkA, false) := by
    decide +kernel
  have hbucket : (runFrom (ContextManager.step (cpuAndBucket fun _ => none).toReuseRequest)
      ContextManager.initial.reset (computeLayer 2)).map (fun manager => (manager.active[1]?,
          decide (manager.keySvRequested .ours 0 3 [false, false] 1 =
            some (sharedKeySvPath ((cpuAndBucket fun _ => none).uuid chunkB 3) 3
              ((cpuAndBucket fun _ => none).path chunkB 3))))) =
      some (some chunkB, false) := by
    decide +kernel
  obtain ⟨first, hfirst, hfirstName⟩ := Option.map_eq_some_iff.mp hcpu
  obtain ⟨second, hsecond, hsecondName⟩ := Option.map_eq_some_iff.mp hbucket
  simp only [Prod.mk.injEq, decide_eq_false_iff_not] at hfirstName hsecondName
  exact ⟨⟨first, hfirst, hfirstName⟩, ⟨second, hsecond, hsecondName⟩⟩

end Requests

end CatKV
