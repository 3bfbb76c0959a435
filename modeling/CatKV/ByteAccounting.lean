/-
The byte counters of the two queues.  Bytes are added when a task is queued and
given back by an eviction, by a worker after an emission or a reported error,
and by a save worker; each counter is the sum over the tasks that still hold
their bytes.
-/
import CatKV.VersionStates

namespace CatKV

open List

/-- Bytes of the raw queue that a compression worker has not released. -/
def WorkerPhase.rawBytes : WorkerPhase → Nat
  | .collecting batch => (batch.map RawTask.sizeBytes).sum
  | .emitting tasks => (tasks.map CompressedTask.rawSizeBytes).sum
  | .releasing sizeBytes tasks =>
    sizeBytes + (tasks.map CompressedTask.rawSizeBytes).sum
  | .reporting _ failed => (failed.map RawTask.sizeBytes).sum
  | .releasingFailed sizeBytes _ failed =>
    sizeBytes + (failed.map RawTask.sizeBytes).sum

def CompressionState.unreleasedBytes (state : CompressionState) : Nat :=
  (state.taskQueue.map RawTask.sizeBytes).sum +
    (state.workers.map fun worker => worker.phase.rawBytes).sum

/-- Bytes of the save queue that a save worker has not released. -/
def Saver.payloadBytes (saver : Saver) : Nat :=
  if saver.phase.released then 0 else saver.task.payloadSizeBytes

def StorageState.unreleasedBytes (state : StorageState) : Nat :=
  (state.taskQueue.map CompressedTask.payloadSizeBytes).sum +
    (state.savers.map Saver.payloadBytes).sum

/-- Both counters are exact, and a positive limit is kept. -/
structure BytesAccounted (config : PipelineConfig) (state : Pipeline) : Prop where
  raw : state.compression.queueBytes = state.compression.unreleasedBytes
  save : state.storage.queueBytes = state.storage.unreleasedBytes
  raw_limit : 0 < config.maxRawQueueBytes → state.compression.queueBytes ≤ config.maxRawQueueBytes
  save_limit : 0 < config.maxSaveQueueBytes → state.storage.queueBytes ≤ config.maxSaveQueueBytes

/-- The action gives back more bytes than its counter holds, so that the counter
is reset to 0. -/
def Pipeline.saturates (state : Pipeline) : PipelineAction → Bool
  | .evict _ =>
    match state.compression.taskQueue with
    | [] => false
    | victim :: _ => state.compression.queueBytes < victim.sizeBytes
  | .releaseRaw worker =>
    match pick state.compression.workers worker with
    | some (_, ⟨_, .releasing sizeBytes _⟩, _) =>
      state.compression.queueBytes < sizeBytes
    | some (_, ⟨_, .releasingFailed sizeBytes _ _⟩, _) =>
      state.compression.queueBytes < sizeBytes
    | _ => false
  | .releaseSave saver =>
    match pick state.storage.savers saver with
    | some (_, ⟨task, .succeeded⟩, _) =>
      state.storage.queueBytes < task.payloadSizeBytes
    | some (_, ⟨task, .failed _⟩, _) =>
      state.storage.queueBytes < task.payloadSizeBytes
    | _ => false
  | _ => false

theorem releaseBytes_le (used size : Nat) : releaseBytes used size ≤ used := by
  unfold releaseBytes
  split <;> omega

theorem releaseBytes_of_le {used size : Nat} (hsize : size ≤ used) :
    releaseBytes used size = used - size :=
  if_pos hsize

theorem le_limit_of_fitsQueue {limit used size : Nat} (hfits : fitsQueue limit used size = true)
    (hlimit : 0 < limit) : used + size ≤ limit := by
  unfold fitsQueue at hfits
  simp only [Bool.or_eq_true, beq_iff_eq, decide_eq_true_eq] at hfits
  omega

theorem sum_map_middle {α : Type} {before after : List α} {item : α} (measure : α → Nat) :
    ((before ++ item :: after).map measure).sum =
      (before.map measure).sum + measure item + (after.map measure).sum := by
  rw [map_append, map_cons, sum_append, sum_cons, Nat.add_assoc]

theorem filter_inGroup_bytes (key : Bytes) (queue : List RawTask) :
    ((queue.filter (inGroup key)).map RawTask.sizeBytes).sum +
        ((queue.filter fun other => !inGroup key other).map RawTask.sizeBytes).sum =
      (queue.map RawTask.sizeBytes).sum := by
  rw [← sum_append, ← map_append]
  exact ((filter_append_perm (inGroup key) queue).map RawTask.sizeBytes).sum_nat

theorem compressBatch_rawBytes (dispatch : Nat) (uuid : Uuid)
    (ranks sizes : List Nat) (batch : List RawTask) :
    (compressBatch dispatch uuid ranks sizes batch).map CompressedTask.rawSizeBytes =
      batch.map RawTask.sizeBytes :=
  compressBatch_map (fun _ _ _ => rfl) dispatch uuid ranks sizes batch

/-! Every effect keeps the sums. -/

variable {config : PipelineConfig} {action : PipelineAction}

theorem CompressionEffect.bytes_eq {state result : CompressionState}
    (heffect : CompressionEffect config state action result)
    (hbytes : state.queueBytes = state.unreleasedBytes) :
    result.queueBytes = result.unreleasedBytes := by
  unfold CompressionState.unreleasedBytes at hbytes ⊢
  cases heffect with
  | evicts hpick hqueue hfull =>
    simp only [hqueue, map_cons, sum_cons] at hbytes ⊢
    rw [releaseBytes_of_le (by omega)]
    omega
  | enqueues hpick hfits =>
    simp only [map_append, map_cons, map_nil, sum_append, sum_cons, sum_nil]
    omega
  | dispatchesSingle htake =>
    have hqueue := ((takeDispatchable_perm htake).map RawTask.sizeBytes).sum_nat
    simp only [map_append, map_cons, map_nil, sum_append, sum_cons, sum_nil,
      WorkerPhase.rawBytes] at hbytes hqueue ⊢
    omega
  | @dispatchesGroup key task queue htake hkey =>
    have hqueue := ((takeDispatchable_perm htake).map RawTask.sizeBytes).sum_nat
    have hsplit := filter_inGroup_bytes key queue
    simp only [map_append, map_cons, map_nil, sum_append, sum_cons, sum_nil,
      WorkerPhase.rawBytes] at hbytes hqueue ⊢
    omega
  | @collects index before after key batch hpick hkey =>
    have hsplit := filter_inGroup_bytes key state.taskQueue
    simp only [pick_eq hpick, map_append, map_cons,
      sum_append, sum_cons, WorkerPhase.rawBytes] at hbytes ⊢
    omega
  | compresses hpick =>
    simp only [pick_eq hpick, sum_map_middle, WorkerPhase.rawBytes,
      compressBatch_rawBytes] at hbytes ⊢
    omega
  | fails hpick =>
    simp only [pick_eq hpick, sum_map_middle, WorkerPhase.rawBytes] at hbytes ⊢
    omega
  | releases hpick | releasesFailed hpick =>
    simp only [pick_eq hpick, sum_map_middle, WorkerPhase.rawBytes] at hbytes ⊢
    rw [releaseBytes_of_le (by omega)]
    omega
  | finishes hpick | finishesFailed hpick =>
    simp only [pick_eq hpick, map_append, map_cons, map_nil, sum_append, sum_cons, sum_nil,
      WorkerPhase.rawBytes] at hbytes ⊢
    omega

theorem CompressionEffect.bytes_le {state result : CompressionState}
    (heffect : CompressionEffect config state action result) (hlimit : 0 < config.maxRawQueueBytes)
    (hle : state.queueBytes ≤ config.maxRawQueueBytes) :
    result.queueBytes ≤ config.maxRawQueueBytes := by
  cases heffect with
  | evicts | releases | releasesFailed =>
    exact (releaseBytes_le _ _).trans hle
  | enqueues hpick hfits => exact le_limit_of_fitsQueue hfits hlimit
  | dispatchesSingle | dispatchesGroup | collects | compresses | fails
  | finishes | finishesFailed => exact hle

theorem beginSave_released (claimed : List Bytes) (task : CompressedTask) :
    (beginSave claimed task).2.released = false := by
  unfold beginSave
  split
  · rfl
  · split
    · rfl
    · split
      · rfl
      · split
        · simp only
          split <;> rfl
        · rfl

theorem SaveKind.next_released (kind : SaveKind) : kind.next.released = false := by
  cases kind <;> rfl

theorem QuietPhase.released_before {phase phase' : SaverPhase}
    (hquiet : QuietPhase phase phase') : phase.released = false := by
  cases hquiet <;> rfl

theorem StorageEffect.bytes_eq {state result : StorageState}
    (heffect : StorageEffect config state action result)
    (hbytes : state.queueBytes = state.unreleasedBytes) :
    result.queueBytes = result.unreleasedBytes := by
  -- a worker that neither releases its bytes now nor has done so before
  have hreplace : ∀ {before after : List Saver} {saver replaced : Saver},
      state.savers = before ++ saver :: after →
      replaced.payloadBytes = saver.payloadBytes →
      state.queueBytes = (state.taskQueue.map CompressedTask.payloadSizeBytes).sum +
          ((before ++ replaced :: after).map Saver.payloadBytes).sum := by
    intro before after saver replaced hsavers hsame
    simp only [hbytes, StorageState.unreleasedBytes, hsavers, map_append, map_cons, hsame]
  cases heffect with
  | takes hqueue =>
    simp only [StorageState.unreleasedBytes, hqueue, map_append, map_cons, map_nil, sum_append,
      sum_cons, sum_nil, Saver.payloadBytes, SaverPhase.released, Bool.false_eq_true,
      if_false] at hbytes ⊢
    omega
  | skips hpick hskip => exact hreplace (pick_eq hpick) rfl
  | begins hpick hskip =>
    refine hreplace (pick_eq hpick) ?_
    rw [Saver.payloadBytes, beginSave_released]
    rfl
  | lands hpick => exact hreplace (pick_eq hpick) rfl
  | returns hpick =>
    refine hreplace (pick_eq hpick) ?_
    rw [Saver.payloadBytes, SaveKind.next_released]
    rfl
  | @quiet _ _ queueBytes before after task phase phase' _ hpick hquiet hqueueBytes =>
    have hbefore := hquiet.released_before
    simp only [StorageState.unreleasedBytes, pick_eq hpick, sum_map_middle,
      Saver.payloadBytes, hbefore, Bool.false_eq_true, if_false] at hbytes ⊢
    rw [hqueueBytes]
    split
    · rw [releaseBytes_of_le (by omega)]
      omega
    · omega
  | leaves hpick =>
    simp only [StorageState.unreleasedBytes, pick_eq hpick, map_append, map_cons, sum_append,
      sum_cons, Saver.payloadBytes, SaverPhase.released, if_true] at hbytes ⊢
    omega

theorem StorageEffect.bytes_le {state result : StorageState}
    (heffect : StorageEffect config state action result) :
    result.queueBytes ≤ state.queueBytes := by
  cases heffect with
  | quiet hpick hquiet hqueueBytes =>
    rw [hqueueBytes]
    split
    · exact releaseBytes_le _ _
    · exact Nat.le_refl _
  | takes | skips | begins | lands | returns | leaves => exact Nat.le_refl _

/-! Whole pipeline. -/

theorem bytesAccounted_initial (config : PipelineConfig) (bucket : Bucket) (nextDispatch : Nat) :
    BytesAccounted config (Pipeline.initialWith bucket nextDispatch) :=
  ⟨rfl, rfl, fun _ => Nat.zero_le _, fun _ => Nat.zero_le _⟩

variable {state : Pipeline}

section

variable (hinv : BytesAccounted config state)

include hinv

theorem BytesAccounted.step {next : Pipeline} (hstep : state.step config action = some next) :
    BytesAccounted config next := by
  cases Pipeline.effect_of_step hstep with
  | submits =>
    unfold Pipeline.submit
    split <;> exact ⟨hinv.raw, hinv.save, hinv.raw_limit, hinv.save_limit⟩
  | compression heffect =>
    exact ⟨heffect.bytes_eq hinv.raw, hinv.save,
      fun hlimit => heffect.bytes_le hlimit (hinv.raw_limit hlimit),
      hinv.save_limit⟩
  | storage heffect =>
    exact ⟨hinv.raw, heffect.bytes_eq hinv.save, hinv.raw_limit,
      fun hlimit => heffect.bytes_le.trans (hinv.save_limit hlimit)⟩
  | notifiesEvicted hpick =>
    exact ⟨hinv.raw, hinv.save, hinv.raw_limit, hinv.save_limit⟩
  | emits hpick hfits =>
    -- the raw bytes stay with the worker until `ReleaseBytes`
    have hraw := hinv.raw
    have hsave := hinv.save
    refine ⟨?_, ?_, hinv.raw_limit, fun hlimit => le_limit_of_fitsQueue hfits hlimit⟩
    · simp only [CompressionState.unreleasedBytes, pick_eq hpick, sum_map_middle,
        WorkerPhase.rawBytes, map_cons, sum_cons] at hraw ⊢
      omega
    · simp only [StorageState.unreleasedBytes, map_append, map_cons, map_nil, sum_append, sum_cons,
        sum_nil] at hsave ⊢
      omega
  | reports hpick =>
    have hraw := hinv.raw
    refine ⟨?_, hinv.save, hinv.raw_limit, hinv.save_limit⟩
    simp only [CompressionState.unreleasedBytes, pick_eq hpick, sum_map_middle,
      WorkerPhase.rawBytes, map_cons, sum_cons] at hraw ⊢
    omega
  | uploads hpick =>
    have hsave := hinv.save
    refine ⟨hinv.raw, ?_, hinv.raw_limit, hinv.save_limit⟩
    simpa only [StorageState.unreleasedBytes, pick_eq hpick, map_append, map_cons,
      Saver.payloadBytes, SaverPhase.released] using hsave
  | storageFails hpick =>
    have hsave := hinv.save
    refine ⟨hinv.raw, ?_, hinv.raw_limit, hinv.save_limit⟩
    simp only [StorageState.unreleasedBytes, pick_eq hpick, map_append, map_cons, sum_append,
      sum_cons, Saver.payloadBytes, SaverPhase.released, if_true] at hsave ⊢
    omega

/-! What is given back is part of the sum. -/

theorem BytesAccounted.worker_le {index : Nat} {before after : List Worker} {worker : Worker}
    (hpick : pick state.compression.workers index =
      some (before, worker, after)) : worker.phase.rawBytes ≤ state.compression.queueBytes := by
  have hraw := hinv.raw
  simp only [CompressionState.unreleasedBytes, pick_eq hpick, sum_map_middle] at hraw
  omega

theorem BytesAccounted.saver_le {index : Nat} {before after : List Saver} {saver : Saver}
    (hpick : pick state.storage.savers index = some (before, saver, after))
    (hheld : saver.phase.released = false) :
    saver.task.payloadSizeBytes ≤ state.storage.queueBytes := by
  have hsave := hinv.save
  simp only [StorageState.unreleasedBytes, pick_eq hpick, sum_map_middle,
    Saver.payloadBytes, hheld, Bool.false_eq_true, if_false] at hsave
  omega

theorem BytesAccounted.not_saturates (action : PipelineAction) :
    state.saturates action = false := by
  unfold Pipeline.saturates
  split
  · split
    · rfl
    · next hqueue =>
      have hraw := hinv.raw
      simp only [CompressionState.unreleasedBytes, hqueue, map_cons, sum_cons] at hraw
      exact decide_eq_false (by omega)
  · split
    · next hpick =>
      have hle := hinv.worker_le hpick
      exact decide_eq_false (Nat.not_lt.mpr (Nat.le_of_add_right_le hle))
    · next hpick =>
      have hle := hinv.worker_le hpick
      exact decide_eq_false (Nat.not_lt.mpr (Nat.le_of_add_right_le hle))
    · rfl
  · split
    · next hpick =>
      exact decide_eq_false (Nat.not_lt.mpr (hinv.saver_le hpick rfl))
    · next hpick =>
      exact decide_eq_false (Nat.not_lt.mpr (hinv.saver_le hpick rfl))
    · rfl
  · rfl

end

/-- In every reachable state both counters are the sums of the bytes not yet
released, keep a positive limit, and no release meets a smaller counter. -/
theorem bytesAccounted_of_run {config : PipelineConfig} {bucket : Bucket} {nextDispatch : Nat}
    {actions : List PipelineAction} {state : Pipeline} (hrun : runFrom (Pipeline.step config)
      (Pipeline.initialWith bucket nextDispatch) actions = some state) :
    BytesAccounted config state ∧ ∀ action, state.saturates action = false := by
  have hinv : BytesAccounted config state :=
    run_invariant (fun _ _ _ hinv _ hstep => hinv.step hstep)
      (bytesAccounted_initial config bucket nextDispatch)
      (meets_of_forall_mem fun _ _ => trivial) hrun
  exact ⟨hinv, hinv.not_saturates⟩

/-- Both chunks of a group wait to be saved, within limits of two bytes. -/
theorem bytesAccounted_groupTaken :
    ∃ final, runFrom (Pipeline.step ⟨2, 2, 0, false⟩) Pipeline.initial groupTaken = some final ∧
      final.compression.queueBytes = 0 ∧ final.storage.queueBytes = 2 ∧
      BytesAccounted ⟨2, 2, 0, false⟩ final ∧
      ∀ action, final.saturates action = false := by
  obtain ⟨final, hrun⟩ : ∃ final, runFrom (Pipeline.step ⟨2, 2, 0, false⟩)
      Pipeline.initial groupTaken = some final := ⟨_, rfl⟩
  have hcounters : final.compression.queueBytes = 0 ∧ final.storage.queueBytes = 2 := by
    cases hrun
    exact ⟨rfl, rfl⟩
  exact ⟨final, hrun, hcounters.1, hcounters.2, bytesAccounted_of_run hrun⟩

end CatKV
