/-
What one step of the pipeline can do, said once.  Every invariant of the
pipeline is proved by cases on these effects and never unfolds the step
function again.
-/
import CatKV.Pipeline

namespace CatKV

/-- Effects inside the compression manager. -/
inductive CompressionEffect (config : PipelineConfig)
    (state : CompressionState) : PipelineAction → CompressionState → Prop where
  | evicts {index : Nat} {before after : List Submitter} {task victim : RawTask}
      {queue : List RawTask}
      (hpick : pick state.submitters index = some (before, ⟨task, none⟩, after))
      (hqueue : state.taskQueue = victim :: queue)
      (hfull : fitsQueue config.maxRawQueueBytes state.queueBytes task.sizeBytes = false) :
      CompressionEffect config state (.evict index) { state with
        submitters := before ++ ⟨task, some victim⟩ :: after
        taskQueue := queue
        queueBytes := releaseBytes state.queueBytes victim.sizeBytes }
  | enqueues {index : Nat} {before after : List Submitter} {task : RawTask}
      (hpick : pick state.submitters index = some (before, ⟨task, none⟩, after))
      (hfits : fitsQueue config.maxRawQueueBytes state.queueBytes task.sizeBytes = true) :
      CompressionEffect config state (.enqueue index) { state with
        submitters := before ++ after
        taskQueue := state.taskQueue ++ [task]
        queueBytes := state.queueBytes + task.sizeBytes }
  | dispatchesSingle {task : RawTask} {queue : List RawTask}
      (htake : takeDispatchable state.activeGroupKeys state.taskQueue = some ([], task, queue)) :
      CompressionEffect config state .dispatch { state with
        taskQueue := queue
        workers := state.workers ++ [⟨[], .collecting [task]⟩] }
  | dispatchesGroup {key : Bytes} {task : RawTask} {queue : List RawTask}
      (htake : takeDispatchable state.activeGroupKeys state.taskQueue = some (key, task, queue))
      (hkey : key ≠ []) :
      CompressionEffect config state .dispatch { state with
        taskQueue := queue.filter fun other => !inGroup key other
        activeGroupKeys := key :: state.activeGroupKeys
        workers := state.workers ++ [⟨key, .collecting (task :: queue.filter (inGroup key))⟩] }
  | collects {index : Nat} {before after : List Worker} {key : Bytes} {batch : List RawTask}
      (hpick : pick state.workers index = some (before, ⟨key, .collecting batch⟩, after))
      (hkey : key ≠ []) :
      CompressionEffect config state (.collect index) { state with
        taskQueue := state.taskQueue.filter fun other => !inGroup key other
        workers := before ++ ⟨key, .collecting
          (batch ++ state.taskQueue.filter (inGroup key))⟩ :: after }
  | compresses {index : Nat} {ranks sizes : List Nat}
      {before after : List Worker} {key : Bytes} {batch : List RawTask}
      (hpick : pick state.workers index = some (before, ⟨key, .collecting batch⟩, after)) :
      CompressionEffect config state (.compress index ranks sizes) { state with
          workers := before ++ ⟨key, .emitting (compressBatch
            state.nextDispatch (state.batchUuid batch) ranks sizes batch)⟩ :: after
          uuidCounter := if key = [] then state.uuidCounter + 1 else state.uuidCounter
          nextDispatch := state.nextDispatch + 1 }
  | fails {index : Nat} {error : String} {before after : List Worker}
      {key : Bytes} {batch : List RawTask}
      (hpick : pick state.workers index = some (before, ⟨key, .collecting batch⟩, after)) :
      CompressionEffect config state (.compressFails index error) { state with
          workers := before ++ ⟨key, .reporting error batch⟩ :: after }
  | releases {index sizeBytes : Nat} {before after : List Worker}
      {key : Bytes} {rest : List CompressedTask}
      (hpick : pick state.workers index = some (before, ⟨key, .releasing sizeBytes rest⟩, after)) :
      CompressionEffect config state (.releaseRaw index) { state with
        queueBytes := releaseBytes state.queueBytes sizeBytes
        workers := before ++ ⟨key, .emitting rest⟩ :: after }
  | releasesFailed {index sizeBytes : Nat} {error : String}
      {before after : List Worker} {key : Bytes} {rest : List RawTask}
      (hpick : pick state.workers index =
        some (before, ⟨key, .releasingFailed sizeBytes error rest⟩, after)) :
      CompressionEffect config state (.releaseRaw index) { state with
        queueBytes := releaseBytes state.queueBytes sizeBytes
        workers := before ++ ⟨key, .reporting error rest⟩ :: after }
  | finishes {index : Nat} {before after : List Worker} {key : Bytes}
      (hpick : pick state.workers index = some (before, ⟨key, .emitting []⟩, after)) :
      CompressionEffect config state (.finish index) { state with
        activeGroupKeys := state.activeGroupKeys.erase key
        workers := before ++ after }
  | finishesFailed {index : Nat} {error : String} {before after : List Worker} {key : Bytes}
      (hpick : pick state.workers index = some (before, ⟨key, .reporting error []⟩, after)) :
      CompressionEffect config state (.finish index) { state with
        activeGroupKeys := state.activeGroupKeys.erase key
        workers := before ++ after }

/-- Phases a save worker can go to without an effect on the bucket or on the
history. -/
inductive QuietPhase : SaverPhase → SaverPhase → Prop where
  | throwsShared (name : Bytes) (landed : Bool) (error : String) :
      QuietPhase (.saving (.sharedKeySv name) landed) (.unclaiming name error)
  | throws (kind : SaveKind) (landed : Bool) (error : String) :
      QuietPhase (.saving kind landed) (.failed error)
  | unclaims (name : Bytes) (error : String) : QuietPhase (.unclaiming name error) (.failed error)
  | releases : QuietPhase .succeeded .succeededReleased
  | releasesFailed (error : String) : QuietPhase (.failed error) (.failedReleased error)

/-- The task's bytes have been given back. -/
def SaverPhase.released : SaverPhase → Bool
  | .succeededReleased | .failedReleased _ | .notifying => true
  | _ => false

/-- Actions of a save worker between the end of a save and its report. -/
def PipelineAction.isQuiet : PipelineAction → Bool
  | .saveThrows _ _ | .unclaim _ | .releaseSave _ => true
  | _ => false

/-- Effects inside the storage manager. -/
inductive StorageEffect (config : PipelineConfig) (state : StorageState) :
    PipelineAction → StorageState → Prop where
  | takes {task : CompressedTask} {queue : List CompressedTask}
      (hqueue : state.taskQueue = task :: queue) :
      StorageEffect config state .take { state with
        taskQueue := queue
        savers := state.savers ++ [⟨task, .taken⟩] }
  | skips {index : Nat} {before after : List Saver} {task : CompressedTask}
      (hpick : pick state.savers index = some (before, ⟨task, .taken⟩, after))
      (hskip : config.skipRemoteSave = true) :
      StorageEffect config state (.save index) { state with
        savers := before ++ ⟨task, .succeeded⟩ :: after }
  | begins {index : Nat} {before after : List Saver} {task : CompressedTask}
      (hpick : pick state.savers index = some (before, ⟨task, .taken⟩, after))
      (hskip : config.skipRemoteSave = false) :
      StorageEffect config state (.save index) { state with
        savers := before ++ ⟨task, (beginSave state.savedSharedKeySvPaths task).2⟩ :: after
        savedSharedKeySvPaths := (beginSave state.savedSharedKeySvPaths task).1
        keySvDispatch := state.recordClaim task }
  | lands {index : Nat} {before after : List Saver} {task : CompressedTask} {kind : SaveKind}
      (hpick : pick state.savers index = some (before, ⟨task, .saving kind false⟩, after)) :
      StorageEffect config state (.land index) { state with
        savers := before ++ ⟨task, .saving kind true⟩ :: after
        bucket := Function.update state.bucket (kind.object task) (some (kind.content task)) }
  | returns {index : Nat} {before after : List Saver} {task : CompressedTask} {kind : SaveKind}
      (hpick : pick state.savers index = some (before, ⟨task, .saving kind true⟩, after)) :
      StorageEffect config state (.saveReturns index) { state with
        savers := before ++ ⟨task, kind.next⟩ :: after
        written := Function.update state.written (kind.object task) true }
  | quiet {action : PipelineAction} {index queueBytes : Nat}
      {before after : List Saver} {task : CompressedTask}
      {phase phase' : SaverPhase} {claimed : List Bytes}
      (hpick : pick state.savers index = some (before, ⟨task, phase⟩, after))
      (hquiet : QuietPhase phase phase')
      (hbytes : queueBytes = if phase'.released then
        releaseBytes state.queueBytes task.payloadSizeBytes
        else state.queueBytes)
      (haction : action.isQuiet = true) :
      StorageEffect config state action { state with
        queueBytes := queueBytes
        savers := before ++ ⟨task, phase'⟩ :: after
        savedSharedKeySvPaths := claimed }
  | leaves {index : Nat} {before after : List Saver} {task : CompressedTask}
      (hpick : pick state.savers index = some (before, ⟨task, .notifying⟩, after)) :
      StorageEffect config state (.notify index) { state with
        savers := before ++ after }

/-- Effects of the whole pipeline: inside one manager, or on the version maps
together with one of them. -/
inductive PipelineEffect (config : PipelineConfig) (state : Pipeline) :
    PipelineAction → Pipeline → Prop where
  | submits (path groupUuid : Bytes) (sizeBytes rssBytes : Nat) (onSuccess : Option Nat) :
      PipelineEffect config state (.submit path groupUuid sizeBytes rssBytes onSuccess)
        (state.submit config path groupUuid sizeBytes rssBytes onSuccess)
  | compression {action : PipelineAction} {result : CompressionState}
      (heffect : CompressionEffect config state.compression action result) :
      PipelineEffect config state action { state with compression := result }
  | storage {action : PipelineAction} {result : StorageState}
      (heffect : StorageEffect config state.storage action result) :
      PipelineEffect config state action { state with storage := result }
  | notifiesEvicted {index : Nat} {before after : List Submitter} {task victim : RawTask}
      (hpick : pick state.compression.submitters index =
        some (before, ⟨task, some victim⟩, after)) :
      PipelineEffect config state (.notifyEvicted index) { state with
        ledger := state.ledger.handleEvicted victim.cacheKey victim.version
        compression := { state.compression with
          submitters := before ++ ⟨task, none⟩ :: after } }
  | emits {index : Nat} {before after : List Worker} {key : Bytes}
      {task : CompressedTask} {rest : List CompressedTask}
      (hpick : pick state.compression.workers index =
        some (before, ⟨key, .emitting (task :: rest)⟩, after))
      (hfits : fitsQueue config.maxSaveQueueBytes state.storage.queueBytes
        task.payloadSizeBytes = true) :
      PipelineEffect config state (.emit index) { state with
        compression := { state.compression with
          workers := before ++ ⟨key, .releasing task.rawSizeBytes rest⟩ :: after }
        storage := { state.storage with
          taskQueue := state.storage.taskQueue ++ [task]
          queueBytes := state.storage.queueBytes + task.payloadSizeBytes } }
  | reports {index : Nat} {before after : List Worker} {key : Bytes}
      {error : String} {task : RawTask} {rest : List RawTask}
      (hpick : pick state.compression.workers index =
        some (before, ⟨key, .reporting error (task :: rest)⟩, after)) :
      PipelineEffect config state (.reportError index) { state with
        ledger := state.ledger.finalizeError task.cacheKey task.version error
        compression := { state.compression with
          workers := before ++ ⟨key, .releasingFailed task.sizeBytes error rest⟩ :: after } }
  | uploads {index : Nat} {before after : List Saver} {task : CompressedTask}
      (hpick : pick state.storage.savers index = some (before, ⟨task, .succeededReleased⟩, after)) :
      PipelineEffect config state (.finalize index) { state with
        ledger := state.ledger.finalizeSuccess task.cacheKey task.version
        storage := { state.storage with
          savers := before ++ ⟨task, .notifying⟩ :: after } }
  | storageFails {index : Nat} {before after : List Saver} {task : CompressedTask} {error : String}
      (hpick : pick state.storage.savers index =
        some (before, ⟨task, .failedReleased error⟩, after)) :
      PipelineEffect config state (.finalize index) { state with
        ledger := state.ledger.finalizeError task.cacheKey task.version error
        storage := { state.storage with savers := before ++ after } }

/-! Every enabled step has its effect. -/

variable {config : PipelineConfig} {submitter worker saver : Nat}

open CompressionState StorageState

section Compression

variable {state next : CompressionState}

theorem CompressionState.evict_effect (hstep : state.evict config submitter = some next) :
    CompressionEffect config state (.evict submitter) next := by
  unfold evict at hstep
  split at hstep
  · next hpick hqueue =>
    split at hstep
    · cases hstep
    · next hfull =>
      cases hstep
      exact .evicts hpick hqueue (Bool.eq_false_of_not_eq_true hfull)
  · cases hstep

theorem CompressionState.enqueue_effect (hstep : state.enqueue config submitter = some next) :
    CompressionEffect config state (.enqueue submitter) next := by
  unfold enqueue at hstep
  split at hstep
  · next hpick =>
    split at hstep
    · next hfits =>
      cases hstep
      exact .enqueues hpick hfits
    · cases hstep
  · cases hstep

theorem CompressionState.dispatch_effect (hstep : state.dispatch = some next) :
    CompressionEffect config state .dispatch next := by
  unfold dispatch at hstep
  split at hstep
  · cases hstep
  · next htake =>
    split at hstep
    · next hkey =>
      subst hkey
      cases hstep
      exact .dispatchesSingle htake
    · next hkey =>
      cases hstep
      exact .dispatchesGroup htake hkey

theorem CompressionState.collect_effect (hstep : state.collect worker = some next) :
    CompressionEffect config state (.collect worker) next := by
  unfold collect at hstep
  split at hstep
  · next hpick =>
    split at hstep
    · cases hstep
    · next hkey =>
      cases hstep
      exact .collects hpick hkey
  · cases hstep

theorem CompressionState.compress_effect {ranks sizes : List Nat}
    (hstep : state.compress worker ranks sizes = some next) :
    CompressionEffect config state (.compress worker ranks sizes) next := by
  unfold compress at hstep
  split at hstep
  · next hpick =>
    cases hstep
    exact .compresses hpick
  · cases hstep

theorem CompressionState.compressFails_effect {error : String}
    (hstep : state.compressFails worker error = some next) :
    CompressionEffect config state (.compressFails worker error) next := by
  unfold compressFails at hstep
  split at hstep
  · next hpick =>
    cases hstep
    exact .fails hpick
  · cases hstep

theorem CompressionState.releaseRaw_effect (hstep : state.releaseRaw worker = some next) :
    CompressionEffect config state (.releaseRaw worker) next := by
  unfold releaseRaw at hstep
  split at hstep
  · next hpick =>
    cases hstep
    exact .releases hpick
  · next hpick =>
    cases hstep
    exact .releasesFailed hpick
  · cases hstep

theorem CompressionState.finish_effect (hstep : state.finish worker = some next) :
    CompressionEffect config state (.finish worker) next := by
  unfold finish at hstep
  split at hstep
  · next hpick =>
    cases hstep
    exact .finishes hpick
  · next hpick =>
    cases hstep
    exact .finishesFailed hpick
  · cases hstep

end Compression

section Storage

variable {state next : StorageState}

theorem StorageState.take_effect (hstep : state.take = some next) :
    StorageEffect config state .take next := by
  unfold take at hstep
  split at hstep
  · cases hstep
  · next hqueue =>
    cases hstep
    exact .takes hqueue

theorem StorageState.save_effect (hstep : state.save config saver = some next) :
    StorageEffect config state (.save saver) next := by
  unfold save at hstep
  split at hstep
  · next hpick =>
    split at hstep
    · next hskip =>
      cases hstep
      exact .skips hpick hskip
    · next hskip =>
      cases hstep
      exact .begins hpick (Bool.eq_false_of_not_eq_true hskip)
  · cases hstep

theorem StorageState.land_effect (hstep : state.land saver = some next) :
    StorageEffect config state (.land saver) next := by
  unfold land at hstep
  split at hstep
  · next hpick =>
    cases hstep
    exact .lands hpick
  · cases hstep

theorem StorageState.saveReturns_effect (hstep : state.saveReturns saver = some next) :
    StorageEffect config state (.saveReturns saver) next := by
  unfold saveReturns at hstep
  split at hstep
  · next hpick =>
    cases hstep
    exact .returns hpick
  · cases hstep

theorem StorageState.saveThrows_effect {error : String}
    (hstep : state.saveThrows saver error = some next) :
    StorageEffect config state (.saveThrows saver error) next := by
  unfold saveThrows at hstep
  split at hstep
  · next hpick =>
    cases hstep
    exact .quiet hpick (.throwsShared _ _ error) rfl rfl
  · next hpick =>
    cases hstep
    exact .quiet hpick (.throws _ _ error) rfl rfl
  · cases hstep

theorem StorageState.unclaim_effect (hstep : state.unclaim saver = some next) :
    StorageEffect config state (.unclaim saver) next := by
  unfold unclaim at hstep
  split at hstep
  · next hpick =>
    cases hstep
    exact .quiet hpick (.unclaims _ _) rfl rfl
  · cases hstep

theorem StorageState.releaseSave_effect (hstep : state.releaseSave saver = some next) :
    StorageEffect config state (.releaseSave saver) next := by
  unfold releaseSave at hstep
  split at hstep
  · next hpick =>
    cases hstep
    exact .quiet hpick .releases rfl rfl
  · next hpick =>
    cases hstep
    exact .quiet hpick (.releasesFailed _) rfl rfl
  · cases hstep

theorem StorageState.notify_effect (hstep : state.notify saver = some next) :
    StorageEffect config state (.notify saver) next := by
  unfold notify at hstep
  split at hstep
  · next hpick =>
    cases hstep
    exact .leaves hpick
  · cases hstep

end Storage

variable {action : PipelineAction} {state next : Pipeline}

theorem Pipeline.withCompression_effect {compression : Option CompressionState}
    (heffect : ∀ {result}, compression = some result →
      CompressionEffect config state.compression action result)
    (hstep : state.withCompression compression = some next) :
    PipelineEffect config state action next := by
  cases compression with
  | none => cases hstep
  | some result =>
    cases hstep
    exact .compression (heffect rfl)

theorem Pipeline.withStorage_effect {storage : Option StorageState}
    (heffect : ∀ {result}, storage = some result → StorageEffect config state.storage action result)
    (hstep : state.withStorage storage = some next) : PipelineEffect config state action next := by
  cases storage with
  | none => cases hstep
  | some result =>
    cases hstep
    exact .storage (heffect rfl)

theorem Pipeline.notifyEvicted_effect (hstep : state.notifyEvicted submitter = some next) :
    PipelineEffect config state (.notifyEvicted submitter) next := by
  unfold Pipeline.notifyEvicted at hstep
  split at hstep
  · next hpick =>
    cases hstep
    exact .notifiesEvicted hpick
  · cases hstep

theorem Pipeline.emit_effect (hstep : state.emit config worker = some next) :
    PipelineEffect config state (.emit worker) next := by
  unfold Pipeline.emit at hstep
  split at hstep
  · next hpick =>
    split at hstep
    · next hfits =>
      cases hstep
      exact .emits hpick hfits
    · cases hstep
  · cases hstep

theorem Pipeline.reportError_effect (hstep : state.reportError worker = some next) :
    PipelineEffect config state (.reportError worker) next := by
  unfold Pipeline.reportError at hstep
  split at hstep
  · next hpick =>
    cases hstep
    exact .reports hpick
  · cases hstep

theorem Pipeline.finalize_effect (hstep : state.finalize saver = some next) :
    PipelineEffect config state (.finalize saver) next := by
  unfold Pipeline.finalize at hstep
  split at hstep
  · next hpick =>
    cases hstep
    exact .uploads hpick
  · next hpick =>
    cases hstep
    exact .storageFails hpick
  · cases hstep

theorem Pipeline.effect_of_step (hstep : state.step config action = some next) :
    PipelineEffect config state action next := by
  cases action with
  | submit path groupUuid sizeBytes rssBytes onSuccess =>
    cases hstep
    exact .submits path groupUuid sizeBytes rssBytes onSuccess
  | evict submitter =>
    exact withCompression_effect evict_effect hstep
  | notifyEvicted submitter => exact notifyEvicted_effect hstep
  | enqueue submitter =>
    exact withCompression_effect enqueue_effect hstep
  | dispatch =>
    exact withCompression_effect dispatch_effect hstep
  | collect worker =>
    exact withCompression_effect collect_effect hstep
  | compress worker ranks sizes =>
    exact withCompression_effect compress_effect hstep
  | compressFails worker error =>
    exact withCompression_effect compressFails_effect hstep
  | emit worker => exact emit_effect hstep
  | releaseRaw worker =>
    exact withCompression_effect releaseRaw_effect hstep
  | reportError worker => exact reportError_effect hstep
  | finish worker =>
    exact withCompression_effect finish_effect hstep
  | take => exact withStorage_effect take_effect hstep
  | save saver => exact withStorage_effect save_effect hstep
  | land saver => exact withStorage_effect land_effect hstep
  | saveReturns saver =>
    exact withStorage_effect saveReturns_effect hstep
  | saveThrows saver error =>
    exact withStorage_effect saveThrows_effect hstep
  | unclaim saver => exact withStorage_effect unclaim_effect hstep
  | releaseSave saver =>
    exact withStorage_effect releaseSave_effect hstep
  | finalize saver => exact finalize_effect hstep
  | notify saver => exact withStorage_effect notify_effect hstep

/-! What one step can change, seen from one path or one object. -/

section Submit

variable (config : PipelineConfig) (state : Pipeline) (path groupUuid : Bytes)
  (sizeBytes rssBytes : Nat) (onSuccess : Option Nat)

theorem Pipeline.submit_storage :
    (state.submit config path groupUuid sizeBytes rssBytes onSuccess).storage = state.storage := by
  unfold Pipeline.submit
  split <;> rfl

theorem Pipeline.submit_ledger :
    (state.submit config path groupUuid sizeBytes rssBytes onSuccess).ledger =
      (state.ledger.submit path (rssExceeded config.maxProcessRssBytes rssBytes)).2 := by
  unfold Pipeline.submit
  split
  · next hsubmit => rw [hsubmit]
  · next hsubmit => rw [hsubmit]

end Submit

section Frame

variable {config : PipelineConfig} {state next : Pipeline} {action : PipelineAction}

section

variable (hstep : state.step config action = some next)

include hstep

theorem Pipeline.versions_step {path : Bytes} (hsome : (next.ledger.versions path).isSome) :
    (state.ledger.versions path).isSome ∨ ∃ groupUuid sizeBytes rssBytes onSuccess,
        action = .submit path groupUuid sizeBytes rssBytes onSuccess := by
  cases Pipeline.effect_of_step hstep with
  | submits other groupUuid sizeBytes rssBytes onSuccess =>
    rw [Pipeline.submit_ledger] at hsome
    rcases Ledger.versions_submit_isSome hsome with hold | rfl
    · exact Or.inl hold
    · exact Or.inr ⟨_, _, _, _, rfl⟩
  | compression | storage | emits => exact Or.inl hsome
  | notifiesEvicted | reports | uploads | storageFails =>
    left
    simpa using hsome

theorem Pipeline.bucket_step (name : Bytes) :
    next.storage.bucket name = state.storage.bucket name ∨
      ∃ task kind, ⟨task, .saving kind false⟩ ∈ state.storage.savers ∧ name = kind.object task := by
  cases Pipeline.effect_of_step hstep with
  | submits =>
    left
    rw [Pipeline.submit_storage]
  | storage heffect =>
    cases heffect with
    | @lands index before after task kind hpick =>
      by_cases hname : name = kind.object task
      · exact Or.inr ⟨task, kind, mem_of_pick hpick, hname⟩
      · exact Or.inl (Function.update_of_ne hname _ _)
    | takes | skips | begins | returns | quiet | leaves => exact Or.inl rfl
  | compression | notifiesEvicted | emits | reports | uploads
  | storageFails => exact Or.inl rfl

/-- A path becomes contained when a worker records a finished save, which
changes no object. -/
theorem Pipeline.contains_step {path : Bytes} (hcontains : next.ledger.contains path = true) :
    state.ledger.contains path = true ∨ ∃ task, ⟨task, .succeededReleased⟩ ∈ state.storage.savers ∧
        task.cacheKey = path ∧ next.storage.bucket = state.storage.bucket := by
  cases Pipeline.effect_of_step hstep with
  | submits =>
    rw [Pipeline.submit_ledger, Ledger.contains_submit] at hcontains
    exact Or.inl hcontains
  | compression | storage | emits => exact Or.inl hcontains
  | notifiesEvicted | reports | storageFails =>
    left
    simpa using hcontains
  | uploads hpick =>
    rcases Ledger.contains_finalizeSuccess.mp hcontains with
      hold | ⟨hpath, _⟩
    · exact Or.inl hold
    · exact Or.inr ⟨_, mem_of_pick hpick, hpath.symm, rfl⟩

theorem Pipeline.contains_of_step {path : Bytes} (hcontains : state.ledger.contains path = true) :
    next.ledger.contains path = true := by
  cases Pipeline.effect_of_step hstep with
  | submits =>
    rw [Pipeline.submit_ledger, Ledger.contains_submit]
    exact hcontains
  | compression | storage | emits => exact hcontains
  | notifiesEvicted | reports | storageFails => simpa using hcontains
  | uploads => exact Ledger.contains_finalizeSuccess.mpr (Or.inl hcontains)

end

end Frame

end CatKV
