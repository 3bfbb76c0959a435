/-
`prefetch_remote` and `get_prefetch_result`.  The objects of the missing chunks
are requested as one batch in the order of the plan, and the answer is put back
together from offsets, running counters and group numbers.
-/
import CatKV.PrefetchPlan
import Mathlib.Logic.Function.Basic

namespace CatKV

variable {α : Type}

/-- Tensors by name. -/
abbrev NamedTensors (α : Type) := List (Bytes × α)

def NamedTensors.has (tensors : NamedTensors α) (name : String) : Bool :=
  (tensors.lookup (ascii name)).isSome

/-! Merging the halves. -/

def requiredKeySvKeys : List String := ["key_sv_quantized", "key_sv_meta", "key_residual_sv"]

def requiredOtherKeys : List String :=
  ["u_quantized", "u_meta", "value_sv_quantized", "value_sv_meta", "value_residual_sv"]

/-- `dict.update`. -/
def NamedTensors.update (tensors more : NamedTensors α) : NamedTensors α :=
  tensors.map (fun entry => (entry.1, (more.lookup entry.1).getD entry.2)) ++
    more.filter fun entry => (tensors.lookup entry.1).isNone

def mergeSplitPayload (keySvPayload otherPayload : Option (NamedTensors α)) : NamedTensors α :=
  match keySvPayload, otherPayload with
  | some keySv, some other =>
    if keySv.isEmpty || other.isEmpty then []
    else if !requiredKeySvKeys.all keySv.has || !requiredOtherKeys.all other.has then []
    else other.update keySv
  | _, _ => []

def mergeSplitPayloads (result : List (Option (NamedTensors α)))
    (logicalPathCount : Nat) : List (Option (NamedTensors α)) :=
  if result.length = logicalPathCount then result
  else
    (List.range logicalPathCount).map fun idx =>
      if result.length ≤ idx * 2 + 1 then some []
      else some (mergeSplitPayload (result.getD (idx * 2) none) (result.getD (idx * 2 + 1) none))

/-- The missing groups are different from each other, so the first entry of a
group in the dictionary is its only one. -/
def mergeSplitPayloadsWithPlan (result : List (Option (NamedTensors α))) :
    SplitPrefetchPlan → List (Option (NamedTensors α))
  | .paired _ misses => mergeSplitPayloads result misses.length
  | .dedupKeySv _ _ misses missingGroups chunkToGroup =>
    let keySvByGroup := missingGroups.zip result
    let otherPayloads := result.drop missingGroups.length
    misses.zipIdx.map fun (originalIdx, otherOffset) =>
      match chunkToGroup[originalIdx]?, otherPayloads[otherOffset]? with
      | some group, some otherPayload =>
        some (mergeSplitPayload (keySvByGroup.lookup group).join otherPayload)
      | _, _ => some []

def preferGpuResults (cpuResults : List (Option (NamedTensors α)))
    (gpuResults : List (NamedTensors α)) : List (Option (NamedTensors α)) :=
  List.zipWith (fun cpuResult gpuResult =>
      if gpuResult.isEmpty then cpuResult else some gpuResult)
    cpuResults gpuResults ++
  (gpuResults.drop cpuResults.length).map some ++
  cpuResults.drop gpuResults.length

/-! The scheduler. -/

/-- The loads that were submitted and not fetched; an id not given out yet has
none. -/
structure LoadScheduler where
  nextTaskId : Nat
  loadFutures : Nat → Option (List Bytes)
  unissued : ∀ id, nextTaskId ≤ id → loadFutures id = none

def LoadScheduler.start : LoadScheduler := ⟨0, fun _ => none, fun _ _ => rfl⟩

/-- `submit_batch_load_to_gpu`. -/
def LoadScheduler.submit (scheduler : LoadScheduler) (keys : List Bytes) : LoadScheduler where
  nextTaskId := scheduler.nextTaskId + 1
  loadFutures := Function.update scheduler.loadFutures scheduler.nextTaskId (some keys)
  unissued id hid := by
    rw [Function.update_of_ne (by omega)]
    exact scheduler.unissued id (by omega)

/-- `get_batch_load_to_gpu_result` takes the future out. -/
def LoadScheduler.take (scheduler : LoadScheduler) (id : Nat) : LoadScheduler where
  nextTaskId := scheduler.nextTaskId
  loadFutures := Function.update scheduler.loadFutures id none
  unissued other hother := by
    rw [Function.update_apply]
    split
    · rfl
    · exact scheduler.unissued other hother

/-- What a batch load returns for a bucket: the objects, and their copies on the
device when there is one. -/
def batchLoad (bucket : Bytes → Option (NamedTensors α)) (onDevice : Bool) (keys : List Bytes) :
    List (Option (NamedTensors α)) × List (NamedTensors α) :=
  (keys.map bucket, keys.map fun key => if onDevice then (bucket key).getD [] else [])

/-! The adapter. -/

/-- An id is the scheduler's number or the first path of the request. -/
inductive PrefetchId where
  | task (id : Nat)
  | path (first : Bytes)
deriving Repr, DecidableEq

def SplitPrefetchPlan.remotePaths : SplitPrefetchPlan → List Bytes
  | .paired remotePaths _ => remotePaths
  | .dedupKeySv keySvPaths otherPaths _ _ _ => keySvPaths ++ otherPaths

/-- The dictionaries `key`, with the flag that a load was submitted, and
`_split_prefetch_tasks`. -/
structure PrefetchAdapter (α : Type) where
  key : PrefetchId → Option (List (NamedTensors α) × Bool)
  splitPrefetchTasks : PrefetchId → Option SplitPrefetchPlan
  scheduler : LoadScheduler

def PrefetchAdapter.start : PrefetchAdapter α := ⟨fun _ => none, fun _ => none, .start⟩

/-- The plan `prefetch_remote` makes from what the CPU store returned. -/
def prefetchPlan (paths : List Bytes) (cpuData : List (NamedTensors α))
    (dedupKeySvGroups : Option DedupGroups) : SplitPrefetchPlan :=
  buildSplitPrefetchPlan paths (cpuData.map fun data => !data.isEmpty) dedupKeySvGroups

/-- `prefetch_remote`, with the payloads the CPU store has for the paths; no
result when there is no first path. -/
def PrefetchAdapter.prefetchRemote (adapter : PrefetchAdapter α)
    (paths : List Bytes) (cpuData : List (NamedTensors α))
    (dedupKeySvGroups : Option DedupGroups) :
    Option (PrefetchId × PrefetchAdapter α) :=
  match paths with
  | [] => none
  | first :: _ =>
    let plan := prefetchPlan paths cpuData dedupKeySvGroups
    if plan.remotePaths.isEmpty then
      some (.path first, { adapter with
        key := Function.update adapter.key (.path first) (some (cpuData, false)) })
    else
      let id := PrefetchId.task adapter.scheduler.nextTaskId
      some (id, {
        key := Function.update adapter.key id (some (cpuData, true))
        splitPrefetchTasks := Function.update adapter.splitPrefetchTasks id (some plan)
        scheduler := adapter.scheduler.submit plan.remotePaths })

/-- The loop of `get_prefetch_result` over the CPU payloads; no result when it
runs out of remote ones. -/
def fillMisses (resultFromS3 : List (Option (NamedTensors α))) :
    Nat → List (NamedTensors α) → Option (List (Option (NamedTensors α)))
  | _, [] => some []
  | count, data :: rest =>
    if data.isEmpty then
      match resultFromS3[count]? with
      | none => none
      | some payload =>
        (fillMisses resultFromS3 (count + 1) rest).map (payload :: ·)
    else (fillMisses resultFromS3 count rest).map (some data :: ·)

/-- `get_prefetch_result` when the load saw the given bucket; no result when it
raises.  Without a plan the merge is that of no path. -/
def PrefetchAdapter.getPrefetchResult (adapter : PrefetchAdapter α)
    (bucket : Bytes → Option (NamedTensors α)) (onDevice : Bool)
    (id : PrefetchId) :
    Option (List (Option (NamedTensors α)) × PrefetchAdapter α) :=
  match adapter.key id with
  | none => none
  | some (cpuData, false) =>
    some (cpuData.map some, { adapter with key := Function.update adapter.key id none })
  | some (cpuData, true) =>
    match id with
    | .path _ => none
    | .task number =>
      match adapter.scheduler.loadFutures number with
      | none => none
      | some keys =>
        let loaded := batchLoad bucket onDevice keys
        let result := preferGpuResults loaded.1 loaded.2
        let resultFromS3 := match adapter.splitPrefetchTasks id with
          | some plan => mergeSplitPayloadsWithPlan result plan
          | none => mergeSplitPayloads result 0
        (fillMisses resultFromS3 0 cpuData).map fun filled =>
          (filled, {
            key := Function.update adapter.key id none
            splitPrefetchTasks := Function.update adapter.splitPrefetchTasks id none
            scheduler := adapter.scheduler.take number })

/-! What the result should be. -/

/-- The key_sv object of a missing chunk: its own when there are no groups, else
the one of its group, which is the shared object of that number or, for a group
without one, that of the first missing chunk of the group. -/
def ownKeySvObject (paths : List Bytes) (misses : List Nat) :
    Option DedupGroups → Nat → Option Bytes
  | none, idx => paths[idx]?.map keySvPath
  | some dedup, idx =>
    dedup.chunkToGroup[idx]?.bind fun group =>
      if group < 0 then none
      else match dedup.sharedKeySvPaths[group.toNat]? with
        | some shared => some shared
        | none => (misses.find? fun other =>
          dedup.chunkToGroup[other]? == some group).bind fun first =>
            paths[first]?.map keySvPath

/-- Both halves are there with everything they need. -/
def HalvesComplete (keySv other : NamedTensors α) : Prop :=
  (∀ name ∈ requiredKeySvKeys, keySv.has name = true) ∧
    ∀ name ∈ requiredOtherKeys, other.has name = true

instance (keySv other : NamedTensors α) : Decidable (HalvesComplete keySv other) := by
  unfold HalvesComplete
  infer_instance

/-- The payload of a missing chunk for the contents of a bucket. -/
def remotePayload (bucket : Bytes → Option (NamedTensors α))
    (keySvName : Option Bytes) (otherName : Bytes) : NamedTensors α :=
  match keySvName.bind bucket, bucket otherName with
  | some keySv, some other =>
    if HalvesComplete keySv other then other.update keySv else []
  | _, _ => []

end CatKV
