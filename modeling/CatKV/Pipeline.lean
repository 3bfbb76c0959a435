/-
The native remote pipeline: callers in `Submit`, the raw queue and its
compression workers, the save queue and its save workers, and the bucket.  One
action is one critical section or one effect on S3, so every interleaving of
any number of threads is a list of actions.
-/
import CatKV.Ledger

namespace CatKV

structure RawTask where
  cacheKey : Bytes
  groupUuid : Bytes
  version : Nat
  sizeBytes : Nat
  onSuccess : Option Nat
deriving Repr, DecidableEq

structure CompressedTask where
  cacheKey : Bytes
  groupUuid : Bytes
  version : Nat
  rawSizeBytes : Nat
  payload : CompressedPayload
  payloadSizeBytes : Nat
  onSuccess : Option Nat
deriving Repr, DecidableEq

def RawTask.id (task : RawTask) : TaskId := (task.cacheKey, task.version)

def CompressedTask.id (task : CompressedTask) : TaskId := (task.cacheKey, task.version)

/-- A limit of 0 means no limit. -/
structure PipelineConfig where
  maxRawQueueBytes : Nat
  maxSaveQueueBytes : Nat
  maxProcessRssBytes : Nat
  skipRemoteSave : Bool
deriving Repr, DecidableEq

def fitsQueue (limit used size : Nat) : Bool := limit == 0 || used + size ≤ limit

def releaseBytes (used size : Nat) : Nat :=
  if used ≥ size then used - size else 0

/-! Compression manager. -/

/-- A caller inside `CompressionManager::Enqueue`, possibly between evicting a
queued task and telling the pipeline about it. -/
structure Submitter where
  task : RawTask
  evicted : Option RawTask
deriving Repr, DecidableEq

inductive WorkerPhase where
  | collecting (batch : List RawTask)
  | emitting (tasks : List CompressedTask)
  | releasing (sizeBytes : Nat) (tasks : List CompressedTask)
  | reporting (error : String) (failed : List RawTask)
  | releasingFailed (sizeBytes : Nat) (error : String) (failed : List RawTask)
deriving Repr, DecidableEq

/-- A compression worker with a batch; `groupKey` is empty for a task without
a group. -/
structure Worker where
  groupKey : Bytes
  phase : WorkerPhase
deriving Repr, DecidableEq

structure CompressionState where
  submitters : List Submitter
  taskQueue : List RawTask
  queueBytes : Nat
  activeGroupKeys : List Bytes
  workers : List Worker
  uuidCounter : Nat
  nextDispatch : Nat
deriving Repr, DecidableEq

/-- No key when `ParseLayerIdx` throws. -/
def dispatchGroupKey (task : RawTask) : Option Bytes :=
  if task.groupUuid = [] then some []
  else (parseLayerIdx task.cacheKey).map fun layer =>
    task.groupUuid ++ ascii "|layer=" ++ decimalInt layer

/-- `TakeDispatchableTasksLocked`: the first task whose group is not active,
and the queue without it. -/
def takeDispatchable (active : List Bytes) : List RawTask → Option (Bytes × RawTask × List RawTask)
  | [] => none
  | task :: rest =>
    match dispatchGroupKey task with
    | none => none
    | some key =>
      if key ≠ [] ∧ key ∈ active then
        match takeDispatchable active rest with
        | none => none
        | some (found, taken, others) => some (found, taken, task :: others)
      else some (key, task, rest)

def inGroup (key : Bytes) (task : RawTask) : Bool := dispatchGroupKey task == some key

/-- The result of one compression call on a batch.  Every chunk of the batch
shares the key factors of the member with the largest rank. -/
def compressBatch (dispatch : Nat) (uuid : Uuid) (ranks sizes : List Nat)
    (batch : List RawTask) : List CompressedTask :=
  let origin (task : RawTask) : Origin := ⟨dispatch, task.cacheKey, task.version⟩
  match batch with
  | [] => []
  | first :: rest =>
    let source := origin ((first :: rest).getD (largestRankIndex ranks) first)
    (first :: rest).zipIdx.map fun item =>
      ⟨item.1.cacheKey, item.1.groupUuid, item.1.version, item.1.sizeBytes,
        buildCompressedPayload (compressedDict (origin item.1) source uuid),
        sizes.getD item.2 0, item.1.onSuccess⟩

/-! Storage manager. -/

inductive SaveKind where
  | full
  | keySv
  | sharedKeySv (name : Bytes)
  | other
deriving Repr, DecidableEq

inductive SaverPhase where
  | taken
  | saving (kind : SaveKind) (landed : Bool)
  | unclaiming (name : Bytes) (error : String)
  | succeeded
  | failed (error : String)
  | succeededReleased
  | failedReleased (error : String)
  | notifying
deriving Repr, DecidableEq

structure Saver where
  task : CompressedTask
  phase : SaverPhase
deriving Repr, DecidableEq

def SaveKind.object (task : CompressedTask) : SaveKind → Bytes
  | .full => task.cacheKey
  | .keySv => keySvPath task.cacheKey
  | .sharedKeySv name => name
  | .other => otherPath task.cacheKey

def SaveKind.content (task : CompressedTask) : SaveKind → TensorDict
  | .full => task.payload.fullPayload
  | .keySv => task.payload.keySvPayload
  | .sharedKeySv _ => task.payload.keySvPayload
  | .other => task.payload.otherPayload

/-- `written` and `keySvDispatch` only record history: the names whose save
returned normally, and the dispatch whose payload first claimed a shared
name. -/
structure StorageState where
  taskQueue : List CompressedTask
  queueBytes : Nat
  savers : List Saver
  savedSharedKeySvPaths : List Bytes
  bucket : Bucket
  written : Bytes → Bool
  keySvDispatch : Bytes → Option Nat

/-- The dispatch a compressed payload came from. -/
def CompressedPayload.dispatch (payload : CompressedPayload) : Option Nat :=
  match payload.keySvPayload.lookup .keySvQuantized with
  | some (.factor origin) => some origin.dispatch
  | _ => none

structure Pipeline where
  ledger : Ledger
  compression : CompressionState
  storage : StorageState

def Pipeline.initialWith (bucket : Bucket) (nextDispatch : Nat) : Pipeline :=
  ⟨Ledger.initial, ⟨[], [], 0, [], [], 1, nextDispatch⟩,
    ⟨[], 0, [], [], bucket, fun _ => false, fun _ => none⟩⟩

def Pipeline.initial : Pipeline := Pipeline.initialWith (fun _ => none) 0

inductive PipelineAction where
  | submit (path groupUuid : Bytes) (sizeBytes rssBytes : Nat) (onSuccess : Option Nat)
  | evict (submitter : Nat)
  | notifyEvicted (submitter : Nat)
  | enqueue (submitter : Nat)
  | dispatch
  | collect (worker : Nat)
  | compress (worker : Nat) (ranks sizes : List Nat)
  | compressFails (worker : Nat) (error : String)
  | emit (worker : Nat)
  | releaseRaw (worker : Nat)
  | reportError (worker : Nat)
  | finish (worker : Nat)
  | take
  | save (saver : Nat)
  | land (saver : Nat)
  | saveReturns (saver : Nat)
  | saveThrows (saver : Nat) (error : String)
  | unclaim (saver : Nat)
  | releaseSave (saver : Nat)
  | finalize (saver : Nat)
  | notify (saver : Nat)
deriving Repr, DecidableEq

/-! Steps of callers and compression workers. -/

def Pipeline.submit (config : PipelineConfig) (state : Pipeline)
    (path groupUuid : Bytes) (sizeBytes rssBytes : Nat)
    (onSuccess : Option Nat) : Pipeline :=
  match state.ledger.submit path (rssExceeded config.maxProcessRssBytes rssBytes) with
  | (.accepted version, ledger) =>
    { state with
      ledger := ledger
      compression := { state.compression with
        submitters := state.compression.submitters ++
          [⟨⟨path, groupUuid, version, sizeBytes, onSuccess⟩, none⟩] } }
  | (_, ledger) => { state with ledger := ledger }

/-- The eviction branch of `Enqueue`, taken while the new task does not fit. -/
def CompressionState.evict (config : PipelineConfig)
    (state : CompressionState) (submitter : Nat) : Option CompressionState :=
  match pick state.submitters submitter, state.taskQueue with
  | some (before, ⟨task, none⟩, after), victim :: queue =>
    if fitsQueue config.maxRawQueueBytes state.queueBytes task.sizeBytes then none
    else some { state with
      submitters := before ++ ⟨task, some victim⟩ :: after
      taskQueue := queue
      queueBytes := releaseBytes state.queueBytes victim.sizeBytes }
  | _, _ => none

def Pipeline.notifyEvicted (state : Pipeline) (submitter : Nat) : Option Pipeline :=
  match pick state.compression.submitters submitter with
  | some (before, ⟨task, some victim⟩, after) =>
    some { state with
      ledger := state.ledger.handleEvicted victim.cacheKey victim.version
      compression := { state.compression with
        submitters := before ++ ⟨task, none⟩ :: after } }
  | _ => none

/-- The loop of `Enqueue` ends: the task fits.  Which turns a caller that waits on
`capacity_cv_` has no part in is left to `WaitingPipeline`, whose runs are among
the runs here. -/
def CompressionState.enqueue (config : PipelineConfig)
    (state : CompressionState) (submitter : Nat) : Option CompressionState :=
  match pick state.submitters submitter with
  | some (before, ⟨task, none⟩, after) =>
    if fitsQueue config.maxRawQueueBytes state.queueBytes task.sizeBytes then
      some { state with
        submitters := before ++ after
        taskQueue := state.taskQueue ++ [task]
        queueBytes := state.queueBytes + task.sizeBytes }
    else none
  | _ => none

/-- An idle worker takes a task and, for a group, everything of that group that
is already queued. -/
def CompressionState.dispatch (state : CompressionState) : Option CompressionState :=
  match takeDispatchable state.activeGroupKeys state.taskQueue with
  | none => none
  | some (key, task, queue) =>
    if key = [] then
      some { state with
        taskQueue := queue
        workers := state.workers ++ [⟨key, .collecting [task]⟩] }
    else
      some { state with
        taskQueue := queue.filter fun other => !inGroup key other
        activeGroupKeys := key :: state.activeGroupKeys
        workers := state.workers ++ [⟨key, .collecting (task :: queue.filter (inGroup key))⟩] }

/-- Another round of `collect_ready` before the collection window closes. -/
def CompressionState.collect (state : CompressionState) (worker : Nat) : Option CompressionState :=
  match pick state.workers worker with
  | some (before, ⟨key, .collecting batch⟩, after) =>
    if key = [] then none
    else some { state with
      taskQueue := state.taskQueue.filter fun other => !inGroup key other
      workers := before ++ ⟨key, .collecting
        (batch ++ state.taskQueue.filter (inGroup key))⟩ :: after }
  | _ => none

/-- The uuid of a batch: its group id hashed, or the next counter value. -/
def CompressionState.batchUuid (state : CompressionState) (batch : List RawTask) : Uuid :=
  match batch with
  | [] => []
  | first :: _ =>
    if first.groupUuid = [] then makeUuidTensor state.uuidCounter
    else uuidStringToTensor first.groupUuid

def CompressionState.compress (state : CompressionState) (worker : Nat)
    (ranks sizes : List Nat) : Option CompressionState :=
  match pick state.workers worker with
  | some (before, ⟨key, .collecting batch⟩, after) =>
    some { state with
      workers := before ++ ⟨key, .emitting (compressBatch state.nextDispatch
        (state.batchUuid batch) ranks sizes batch)⟩ :: after
      uuidCounter := if key = [] then state.uuidCounter + 1 else state.uuidCounter
      nextDispatch := state.nextDispatch + 1 }
  | _ => none

def CompressionState.compressFails (state : CompressionState) (worker : Nat)
    (error : String) : Option CompressionState :=
  match pick state.workers worker with
  | some (before, ⟨key, .collecting batch⟩, after) =>
    some { state with
      workers := before ++ ⟨key, .reporting error batch⟩ :: after }
  | _ => none

/-- `RemoteStorageManager::Enqueue` of the next compressed task. -/
def Pipeline.emit (config : PipelineConfig) (state : Pipeline) (worker : Nat) : Option Pipeline :=
  match pick state.compression.workers worker with
  | some (before, ⟨key, .emitting (task :: rest)⟩, after) =>
    if fitsQueue config.maxSaveQueueBytes state.storage.queueBytes task.payloadSizeBytes then
      some { state with
        compression := { state.compression with
          workers := before ++ ⟨key, .releasing task.rawSizeBytes rest⟩ :: after }
        storage := { state.storage with
          taskQueue := state.storage.taskQueue ++ [task]
          queueBytes := state.storage.queueBytes + task.payloadSizeBytes } }
    else none
  | _ => none

/-- `ReleaseBytes` after an emission or after a reported error. -/
def CompressionState.releaseRaw (state : CompressionState) (worker : Nat) :
    Option CompressionState :=
  match pick state.workers worker with
  | some (before, ⟨key, .releasing sizeBytes rest⟩, after) =>
    some { state with
      queueBytes := releaseBytes state.queueBytes sizeBytes
      workers := before ++ ⟨key, .emitting rest⟩ :: after }
  | some (before, ⟨key, .releasingFailed sizeBytes error rest⟩, after) =>
    some { state with
      queueBytes := releaseBytes state.queueBytes sizeBytes
      workers := before ++ ⟨key, .reporting error rest⟩ :: after }
  | _ => none

/-- The locked part of `HandleCompressionError` for the next failed task. -/
def Pipeline.reportError (state : Pipeline) (worker : Nat) : Option Pipeline :=
  match pick state.compression.workers worker with
  | some (before, ⟨key, .reporting error (task :: rest)⟩, after) =>
    some { state with
      ledger := state.ledger.finalizeError task.cacheKey task.version error
      compression := { state.compression with
        workers := before ++ ⟨key, .releasingFailed task.sizeBytes error rest⟩ :: after } }
  | _ => none

/-- The worker gives its group free and becomes idle. -/
def CompressionState.finish (state : CompressionState) (worker : Nat) : Option CompressionState :=
  match pick state.workers worker with
  | some (before, ⟨key, .emitting []⟩, after) =>
    some { state with
      activeGroupKeys := state.activeGroupKeys.erase key
      workers := before ++ after }
  | some (before, ⟨key, .reporting _ []⟩, after) =>
    some { state with
      activeGroupKeys := state.activeGroupKeys.erase key
      workers := before ++ after }
  | _ => none

/-! Steps of save workers. -/

def StorageState.take (state : StorageState) : Option StorageState :=
  match state.taskQueue with
  | [] => none
  | task :: queue =>
    some { state with
      taskQueue := queue
      savers := state.savers ++ [⟨task, .taken⟩] }

/-- `std::out_of_range` of `std::stoll`. -/
def layerRangeError : String := "stoll"

/-- The first save of `SaveCompressedPayload`, with the shared names after the
claim and the phase the worker goes to. -/
def beginSave (claimed : List Bytes) (task : CompressedTask) : List Bytes × SaverPhase :=
  if !task.payload.isSplit then (claimed, .saving .full false)
  else
    match parseLayerIdx task.cacheKey with
    | none => (claimed, .failed layerRangeError)
    | some layer =>
      match task.payload.keySvPayload.uuidWords with
      | none => (claimed, .saving .keySv false)
      | some uuid =>
        if layer > 2 then
          let name := sharedKeySvPath uuid layer task.cacheKey
          if name ∈ claimed then (claimed, .saving .other false)
          else (name :: claimed, .saving (.sharedKeySv name) false)
        else (claimed, .saving .keySv false)

/-- The shared name a task claims, if its layer has one. -/
def CompressedTask.sharedName (task : CompressedTask) : Option Bytes :=
  match parseLayerIdx task.cacheKey, task.payload.keySvPayload.uuidWords with
  | some layer, some uuid =>
    if layer > 2 then some (sharedKeySvPath uuid layer task.cacheKey)
    else none
  | _, _ => none

def StorageState.recordClaim (state : StorageState) (task : CompressedTask)
    (name : Bytes) : Option Nat :=
  match state.keySvDispatch name with
  | some dispatch => some dispatch
  | none =>
    if task.sharedName = some name then task.payload.dispatch else none

def StorageState.save (config : PipelineConfig) (state : StorageState)
    (saver : Nat) : Option StorageState :=
  match pick state.savers saver with
  | some (before, ⟨task, .taken⟩, after) =>
    if config.skipRemoteSave then
      some { state with savers := before ++ ⟨task, .succeeded⟩ :: after }
    else
      let begun := beginSave state.savedSharedKeySvPaths task
      some { state with
        savers := before ++ ⟨task, begun.2⟩ :: after
        savedSharedKeySvPaths := begun.1
        keySvDispatch := state.recordClaim task }
  | _ => none

/-- The object of a save in flight becomes visible. -/
def StorageState.land (state : StorageState) (saver : Nat) : Option StorageState :=
  match pick state.savers saver with
  | some (before, ⟨task, .saving kind false⟩, after) =>
    some { state with
      savers := before ++ ⟨task, .saving kind true⟩ :: after
      bucket := Function.update state.bucket (kind.object task) (some (kind.content task)) }
  | _ => none

def SaveKind.next : SaveKind → SaverPhase
  | .full => .succeeded
  | .keySv => .saving .other false
  | .sharedKeySv _ => .saving .other false
  | .other => .succeeded

def StorageState.saveReturns (state : StorageState) (saver : Nat) : Option StorageState :=
  match pick state.savers saver with
  | some (before, ⟨task, .saving kind true⟩, after) =>
    some { state with
      savers := before ++ ⟨task, kind.next⟩ :: after
      written := Function.update state.written (kind.object task) true }
  | _ => none

/-- A throwing save may or may not have become visible before. -/
def StorageState.saveThrows (state : StorageState) (saver : Nat)
    (error : String) : Option StorageState :=
  match pick state.savers saver with
  | some (before, ⟨task, .saving (.sharedKeySv name) _⟩, after) =>
    some { state with
      savers := before ++ ⟨task, .unclaiming name error⟩ :: after }
  | some (before, ⟨task, .saving _ _⟩, after) =>
    some { state with
      savers := before ++ ⟨task, .failed error⟩ :: after }
  | _ => none

def StorageState.unclaim (state : StorageState) (saver : Nat) : Option StorageState :=
  match pick state.savers saver with
  | some (before, ⟨task, .unclaiming name error⟩, after) =>
    some { state with
      savers := before ++ ⟨task, .failed error⟩ :: after
      savedSharedKeySvPaths := state.savedSharedKeySvPaths.erase name }
  | _ => none

def StorageState.releaseSave (state : StorageState) (saver : Nat) : Option StorageState :=
  match pick state.savers saver with
  | some (before, ⟨task, .succeeded⟩, after) =>
    some { state with
      queueBytes := releaseBytes state.queueBytes task.payloadSizeBytes
      savers := before ++ ⟨task, .succeededReleased⟩ :: after }
  | some (before, ⟨task, .failed error⟩, after) =>
    some { state with
      queueBytes := releaseBytes state.queueBytes task.payloadSizeBytes
      savers := before ++ ⟨task, .failedReleased error⟩ :: after }
  | _ => none

/-- The locked part of `MarkUploaded` or of `HandleStorageError`. -/
def Pipeline.finalize (state : Pipeline) (saver : Nat) : Option Pipeline :=
  match pick state.storage.savers saver with
  | some (before, ⟨task, .succeededReleased⟩, after) =>
    some { state with
      ledger := state.ledger.finalizeSuccess task.cacheKey task.version
      storage := { state.storage with
        savers := before ++ ⟨task, .notifying⟩ :: after } }
  | some (before, ⟨task, .failedReleased error⟩, after) =>
    some { state with
      ledger := state.ledger.finalizeError task.cacheKey task.version error
      storage := { state.storage with savers := before ++ after } }
  | _ => none

/-- `on_success` has run and the worker is idle again. -/
def StorageState.notify (state : StorageState) (saver : Nat) : Option StorageState :=
  match pick state.savers saver with
  | some (before, ⟨_, .notifying⟩, after) =>
    some { state with savers := before ++ after }
  | _ => none

def Pipeline.withCompression (state : Pipeline)
    (next : Option CompressionState) : Option Pipeline :=
  next.map fun compression => { state with compression := compression }

def Pipeline.withStorage (state : Pipeline) (next : Option StorageState) : Option Pipeline :=
  next.map fun storage => { state with storage := storage }

def Pipeline.step (config : PipelineConfig) (state : Pipeline) : PipelineAction → Option Pipeline
  | .submit path groupUuid sizeBytes rssBytes onSuccess =>
    some (state.submit config path groupUuid sizeBytes rssBytes onSuccess)
  | .evict submitter =>
    state.withCompression (state.compression.evict config submitter)
  | .notifyEvicted submitter => state.notifyEvicted submitter
  | .enqueue submitter =>
    state.withCompression (state.compression.enqueue config submitter)
  | .dispatch => state.withCompression state.compression.dispatch
  | .collect worker => state.withCompression (state.compression.collect worker)
  | .compress worker ranks sizes =>
    state.withCompression (state.compression.compress worker ranks sizes)
  | .compressFails worker error =>
    state.withCompression (state.compression.compressFails worker error)
  | .emit worker => state.emit config worker
  | .releaseRaw worker =>
    state.withCompression (state.compression.releaseRaw worker)
  | .reportError worker => state.reportError worker
  | .finish worker => state.withCompression (state.compression.finish worker)
  | .take => state.withStorage state.storage.take
  | .save saver => state.withStorage (state.storage.save config saver)
  | .land saver => state.withStorage (state.storage.land saver)
  | .saveReturns saver => state.withStorage (state.storage.saveReturns saver)
  | .saveThrows saver error =>
    state.withStorage (state.storage.saveThrows saver error)
  | .unclaim saver => state.withStorage (state.storage.unclaim saver)
  | .releaseSave saver => state.withStorage (state.storage.releaseSave saver)
  | .finalize saver => state.finalize saver
  | .notify saver => state.withStorage (state.storage.notify saver)

end CatKV
