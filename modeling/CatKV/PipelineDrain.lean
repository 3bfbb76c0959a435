/-
The pipeline comes to rest.  When nothing is submitted any more, the callers, the
compression workers and the save workers finish what they have in whatever
order they take their turns; `WaitAll` then finds nothing pending.
-/
import CatKV.ByteAccounting

namespace CatKV

open List

/-- A new submission, or a round of `collect_ready` that finds nothing. -/
def PipelineAction.fruitless (state : CompressionState) : PipelineAction → Bool
  | .submit .. => true
  | .collect worker =>
    match pick state.workers worker with
    | some (_, ⟨key, _⟩, _) => !state.taskQueue.any (inGroup key)
    | none => true
  | _ => false

/-- The pipeline once nothing is submitted any more. -/
def Pipeline.goOn (config : PipelineConfig) (state : Pipeline) (action : PipelineAction) :
    Option Pipeline :=
  if action.fruitless state.compression then none else state.step config action

/-- Something waits for ever: for a queue that is too small for its task even
when it is empty, or for a layer number that cannot be read. -/
inductive Pipeline.Blocked (config : PipelineConfig) (state : Pipeline) : Prop where
  | raw (submitter : Submitter) (hmem : submitter ∈ state.compression.submitters)
      (hlarge : fitsQueue config.maxRawQueueBytes 0 submitter.task.sizeBytes = false)
  | layer (task : RawTask) (hmem : task ∈ state.compression.taskQueue)
      (hkey : dispatchGroupKey task = none)
  | save (key : Bytes) (task : CompressedTask) (rest : List CompressedTask)
      (hmem : ⟨key, .emitting (task :: rest)⟩ ∈ state.compression.workers)
      (hlarge : fitsQueue config.maxSaveQueueBytes 0 task.payloadSizeBytes = false)

/-! How many turns are left: a task counts for more, the further it is from the
bucket. -/

/-- How many turns a save worker has before it is idle, at most. -/
def SaverPhase.turnsLeft : SaverPhase → Nat
  | .taken => 8
  | .saving .keySv false | .saving (.sharedKeySv _) false => 7
  | .saving .keySv true | .saving (.sharedKeySv _) true => 6
  | .saving .full false | .saving .other false => 5
  | .saving .full true | .saving .other true => 4
  | .unclaiming _ _ => 4
  | .succeeded => 3
  | .failed _ => 3
  | .succeededReleased => 2
  | .failedReleased _ => 1
  | .notifying => 1

/-- Turns of the save queue and its workers. -/
def StorageState.turnsLeft (state : StorageState) : Nat :=
  9 * state.taskQueue.length + (state.savers.map fun saver => saver.phase.turnsLeft).sum

def WorkerPhase.turnsLeft : WorkerPhase → Nat
  | .collecting batch => 12 * batch.length + 3
  | .emitting tasks => 12 * tasks.length + 1
  | .releasing _ tasks => 12 * tasks.length + 2
  | .reporting _ failed => 2 * failed.length + 1
  | .releasingFailed _ _ failed => 2 * failed.length + 2

def CompressionState.turnsLeft (state : CompressionState) : Nat :=
  (state.submitters.map fun submitter => 18 + submitter.evicted.toList.length).sum +
    16 * state.taskQueue.length + (state.workers.map fun worker => worker.phase.turnsLeft).sum

def Pipeline.turnsLeft (state : Pipeline) : Nat :=
  state.compression.turnsLeft + state.storage.turnsLeft

variable {config : PipelineConfig} {action : PipelineAction}

section Savers

open SaverPhase

theorem beginSave_turnsLeft (claimed : List Bytes) (task : CompressedTask) :
    (beginSave claimed task).2.turnsLeft < taken.turnsLeft := by
  unfold beginSave
  split
  · simp [turnsLeft]
  · split
    · simp [turnsLeft]
    · split
      · simp [turnsLeft]
      · dsimp only
        repeat' split
        all_goals simp [turnsLeft]

theorem SaveKind.next_turnsLeft (kind : SaveKind) :
    kind.next.turnsLeft < (saving kind true).turnsLeft := by
  cases kind <;> simp [SaveKind.next, turnsLeft]

theorem SaveKind.landed_turnsLeft (kind : SaveKind) : (saving kind true).turnsLeft <
    (saving kind false).turnsLeft := by
  cases kind <;> simp [turnsLeft]

theorem QuietPhase.turnsLeft_lt {phase phase' : SaverPhase} (hquiet : QuietPhase phase phase') :
    phase'.turnsLeft < phase.turnsLeft := by
  cases hquiet with
  | throws kind landed error =>
    cases kind <;> cases landed <;> simp [turnsLeft]
  | throwsShared name landed error =>
    cases landed <;> simp [turnsLeft]
  | _ => simp [turnsLeft]

theorem turns_replace_lt {before after : List Saver} {saver other : Saver}
    (hless : other.phase.turnsLeft < saver.phase.turnsLeft) :
    ((before ++ other :: after).map fun saver => saver.phase.turnsLeft).sum <
      ((before ++ saver :: after).map fun saver =>
        saver.phase.turnsLeft).sum := by
  rw [sum_map_middle, sum_map_middle]
  omega

theorem turns_remove_lt {before after : List Saver} {saver : Saver}
    (hpositive : 0 < saver.phase.turnsLeft) :
    ((before ++ after).map fun saver => saver.phase.turnsLeft).sum <
      ((before ++ saver :: after).map fun saver =>
        saver.phase.turnsLeft).sum := by
  simp only [map_append, map_cons, sum_append, sum_cons]
  omega

theorem StorageEffect.turnsLeft_lt {state result : StorageState}
    (heffect : StorageEffect config state action result) : result.turnsLeft < state.turnsLeft := by
  unfold StorageState.turnsLeft
  cases heffect with
  | takes hqueue =>
    simp only [hqueue, map_append, map_cons, map_nil, sum_append, sum_cons, sum_nil, length_cons,
      turnsLeft]
    omega
  | skips hpick hskip =>
    rw [pick_eq hpick]
    apply Nat.add_lt_add_left
    apply turns_replace_lt
    simp [turnsLeft]
  | begins hpick hskip =>
    rw [pick_eq hpick]
    apply Nat.add_lt_add_left
    exact turns_replace_lt (beginSave_turnsLeft _ _)
  | @lands index before after task kind hpick =>
    rw [pick_eq hpick]
    apply Nat.add_lt_add_left
    exact turns_replace_lt kind.landed_turnsLeft
  | @returns index before after task kind hpick =>
    rw [pick_eq hpick]
    apply Nat.add_lt_add_left
    exact turns_replace_lt kind.next_turnsLeft
  | quiet hpick hquiet hbytes haction =>
    rw [pick_eq hpick]
    apply Nat.add_lt_add_left
    exact turns_replace_lt hquiet.turnsLeft_lt
  | leaves hpick =>
    rw [pick_eq hpick]
    apply Nat.add_lt_add_left
    apply turns_remove_lt
    simp [turnsLeft]

end Savers

theorem CompressionEffect.turnsLeft_lt {state result : CompressionState}
    (heffect : CompressionEffect config state action result)
    (haction : action.fruitless state = false) : result.turnsLeft < state.turnsLeft := by
  unfold CompressionState.turnsLeft
  cases heffect with
  | evicts hpick hqueue => simp [pick_eq hpick, hqueue]; omega
  | enqueues hpick => simp [pick_eq hpick]; omega
  | dispatchesSingle htake =>
    have hlength := (takeDispatchable_perm htake).length_eq
    simp [WorkerPhase.turnsLeft] at hlength ⊢
    omega
  | @dispatchesGroup key task queue htake =>
    have hlength := (takeDispatchable_perm htake).length_eq
    have hsplit := (filter_append_perm (inGroup key) queue).length_eq
    simp [WorkerPhase.turnsLeft] at hlength hsplit ⊢
    omega
  | @collects index before after key batch hpick =>
    have hsome : 0 < (state.taskQueue.filter (inGroup key)).length := by
      simpa [PipelineAction.fruitless, hpick, length_filter_pos_iff] using haction
    have hsplit := (filter_append_perm (inGroup key) state.taskQueue).length_eq
    simp [pick_eq hpick, WorkerPhase.turnsLeft] at hsplit ⊢
    omega
  | @compresses index ranks sizes before after key batch hpick =>
    have hlength := congrArg length
      (compressBatch_ids state.nextDispatch (state.batchUuid batch) ranks sizes batch)
    simp [pick_eq hpick, WorkerPhase.turnsLeft] at hlength ⊢
    omega
  | fails hpick =>
    simp [pick_eq hpick, WorkerPhase.turnsLeft]
    omega
  | releases hpick | releasesFailed hpick | finishes hpick | finishesFailed hpick =>
    simp [pick_eq hpick, WorkerPhase.turnsLeft]

theorem Pipeline.turnsLeft_lt {state next : Pipeline}
    (hstep : state.step config action = some next)
    (haction : action.fruitless state.compression = false) :
    next.turnsLeft < state.turnsLeft := by
  unfold Pipeline.turnsLeft
  cases Pipeline.effect_of_step hstep with
  | submits => cases haction
  | compression heffect => exact Nat.add_lt_add_right (heffect.turnsLeft_lt haction) _
  | storage heffect => exact Nat.add_lt_add_left heffect.turnsLeft_lt _
  | notifiesEvicted hpick =>
    simp [CompressionState.turnsLeft, pick_eq hpick]
  | emits hpick | reports hpick =>
    simp [CompressionState.turnsLeft, StorageState.turnsLeft, pick_eq hpick, WorkerPhase.turnsLeft]
    omega
  | uploads hpick | storageFails hpick =>
    simp [StorageState.turnsLeft, pick_eq hpick, SaverPhase.turnsLeft]

/-! A group is active only while a worker has it. -/

def CompressionState.ActiveHeld (state : CompressionState) : Prop :=
  ∀ key, state.activeGroupKeys.count key ≤ (state.workers.map Worker.groupKey).count key

theorem CompressionEffect.activeHeld {state result : CompressionState}
    (heffect : CompressionEffect config state action result) (hinv : state.ActiveHeld) :
    result.ActiveHeld := by
  intro key
  have hkey := hinv key
  cases heffect with
  | evicts | enqueues => exact hkey
  | dispatchesSingle => simp; omega
  | dispatchesGroup => simp [count_cons]; omega
  | collects hpick | compresses hpick | fails hpick | releases hpick | releasesFailed hpick =>
    simpa [pick_eq hpick, count_cons] using hkey
  | finishes hpick | finishesFailed hpick =>
    simp [pick_eq hpick, count_cons, count_erase] at hkey ⊢
    grind

/-! Someone can go on. -/

section Progress

variable {state next : Pipeline}

/-- What the workers do when they are let; a compression may come out small. -/
def PipelineAction.ofWorkers : PipelineAction → Bool
  | .submit .. | .evict _ | .notifyEvicted _ | .enqueue _ => false
  | .compress _ _ sizes => sizes.isEmpty
  | _ => true

def Pipeline.WorkersGoOn (config : PipelineConfig) (state : Pipeline) : Prop :=
  ∃ action next, action.ofWorkers = true ∧ state.goOn config action = some next

theorem workersGoOn_of_step (action : PipelineAction) (hworkers : action.ofWorkers = true)
    (haction : action.fruitless state.compression = false)
    (hsome : (state.step config action).isSome = true) : state.WorkersGoOn config := by
  obtain ⟨next, hnext⟩ := Option.isSome_iff_exists.mp hsome
  exact ⟨action, next, hworkers, by simp [Pipeline.goOn, haction, hnext]⟩

theorem workersGoOn_of_saving (hsaving : state.storage.taskQueue ≠ [] ∨ state.storage.savers ≠ []) :
    state.WorkersGoOn config := by
  rcases hsaving with hqueue | hsavers
  · obtain ⟨task, queue, hqueue⟩ := exists_cons_of_ne_nil hqueue
    exact workersGoOn_of_step .take rfl rfl (by
      simp [Pipeline.step, Pipeline.withStorage, StorageState.take, hqueue])
  · obtain ⟨⟨task, phase⟩, others, hsavers⟩ := exists_cons_of_ne_nil hsavers
    -- the first worker can always move on
    cases phase with
    | taken =>
      refine workersGoOn_of_step (.save 0) rfl rfl ?_
      simp only [Pipeline.step, Pipeline.withStorage, StorageState.save, hsavers, pick,
        Option.isSome_map]
      split <;> rfl
    | saving kind landed =>
      cases landed with
      | false =>
        exact workersGoOn_of_step (.land 0) rfl rfl (by
          simp [Pipeline.step, Pipeline.withStorage, StorageState.land, hsavers, pick])
      | true =>
        exact workersGoOn_of_step (.saveReturns 0) rfl rfl (by
          simp [Pipeline.step, Pipeline.withStorage, StorageState.saveReturns, hsavers, pick])
    | unclaiming name error =>
      exact workersGoOn_of_step (.unclaim 0) rfl rfl (by
        simp [Pipeline.step, Pipeline.withStorage, StorageState.unclaim, hsavers, pick])
    | succeeded | failed error =>
      exact workersGoOn_of_step (.releaseSave 0) rfl rfl (by
        simp [Pipeline.step, Pipeline.withStorage, StorageState.releaseSave, hsavers, pick])
    | succeededReleased | failedReleased error =>
      exact workersGoOn_of_step (.finalize 0) rfl rfl (by
        simp [Pipeline.step, Pipeline.finalize, hsavers, pick])
    | notifying =>
      exact workersGoOn_of_step (.notify 0) rfl rfl (by
        simp [Pipeline.step, Pipeline.withStorage, StorageState.notify, hsavers, pick])

/-- A worker with a batch waits for nothing but room in the save queue. -/
theorem workersGoOn_of_worker (hsave : ∀ key task rest,
      ⟨key, .emitting (task :: rest)⟩ ∈ state.compression.workers →
      fitsQueue config.maxSaveQueueBytes 0 task.payloadSizeBytes = true)
    (hempty : state.storage.queueBytes = 0) (hworkers : state.compression.workers ≠ []) :
    state.WorkersGoOn config := by
  obtain ⟨⟨key, phase⟩, others, hworkers⟩ := exists_cons_of_ne_nil hworkers
  cases phase with
  | collecting batch =>
    exact workersGoOn_of_step (.compress 0 [] []) rfl rfl (by
      simp [Pipeline.step, Pipeline.withCompression, CompressionState.compress, hworkers, pick])
  | releasing | releasingFailed =>
    exact workersGoOn_of_step (.releaseRaw 0) rfl rfl (by
      simp [Pipeline.step, Pipeline.withCompression, CompressionState.releaseRaw, hworkers, pick])
  | emitting tasks =>
    cases tasks with
    | nil =>
      exact workersGoOn_of_step (.finish 0) rfl rfl (by
        simp [Pipeline.step, Pipeline.withCompression, CompressionState.finish, hworkers, pick])
    | cons task rest =>
      have hfits := hsave key task rest (by simp [hworkers])
      exact workersGoOn_of_step (.emit 0) rfl rfl (by
        simp [Pipeline.step, Pipeline.emit, hworkers, pick, hempty, hfits])
  | reporting error failed =>
    cases failed with
    | nil =>
      exact workersGoOn_of_step (.finish 0) rfl rfl (by
        simp [Pipeline.step, Pipeline.withCompression, CompressionState.finish, hworkers, pick])
    | cons task rest =>
      exact workersGoOn_of_step (.reportError 0) rfl rfl (by
        simp [Pipeline.step, Pipeline.reportError, hworkers, pick])

/-- Without workers no group is active, so the first task can be dispatched. -/
theorem workersGoOn_of_queue
    (hlayer : ∀ task ∈ state.compression.taskQueue, dispatchGroupKey task ≠ none)
    (hactive : state.compression.activeGroupKeys = []) (hqueue : state.compression.taskQueue ≠ []) :
    state.WorkersGoOn config := by
  obtain ⟨task, rest, hqueue⟩ := exists_cons_of_ne_nil hqueue
  refine workersGoOn_of_step .dispatch rfl rfl ?_
  obtain ⟨key, hkey⟩ := Option.ne_none_iff_exists'.mp (hlayer task (by simp [hqueue]))
  simp only [Pipeline.step, Pipeline.withCompression, CompressionState.dispatch, hqueue,
    takeDispatchable, hkey, hactive, not_mem_nil, and_false, if_false]
  split <;> rfl

/-- The workers have nothing left, and nothing is queued. -/
structure Pipeline.WorkersIdle (state : Pipeline) : Prop where
  saving : state.storage.taskQueue = [] ∧ state.storage.savers = []
  workers : state.compression.workers = []
  queue : state.compression.taskQueue = []
  bytes : state.compression.queueBytes = 0

theorem workersIdle_or_goOn (hbytes : BytesAccounted config state)
    (hactive : state.compression.ActiveHeld)
    (hsave : ∀ key task rest, ⟨key, .emitting (task :: rest)⟩ ∈ state.compression.workers →
      fitsQueue config.maxSaveQueueBytes 0 task.payloadSizeBytes = true)
    (hlayer : ∀ task ∈ state.compression.taskQueue, dispatchGroupKey task ≠ none) :
    state.WorkersIdle ∨ state.WorkersGoOn config := by
  -- whoever stands closest to the bucket goes on
  by_cases hsaving : state.storage.taskQueue ≠ [] ∨ state.storage.savers ≠ []
  · exact .inr (workersGoOn_of_saving hsaving)
  simp only [not_or, ne_eq, Decidable.not_not] at hsaving
  have hempty : state.storage.queueBytes = 0 := by
    simpa [StorageState.unreleasedBytes, hsaving] using hbytes.save
  by_cases hworkers : state.compression.workers = []
  swap
  · exact .inr (workersGoOn_of_worker hsave hempty hworkers)
  have hnone : state.compression.activeGroupKeys = [] := by
    refine eq_nil_iff_forall_not_mem.mpr fun key hkey => ?_
    have hcount := hactive key
    have hpos := count_pos_iff.mpr hkey
    simp [hworkers] at hcount
    omega
  by_cases hqueue : state.compression.taskQueue = []
  swap
  · exact .inr (workersGoOn_of_queue hlayer hnone hqueue)
  refine .inl ⟨hsaving, hworkers, hqueue, ?_⟩
  simpa [CompressionState.unreleasedBytes, hworkers, hqueue] using hbytes.raw

def Pipeline.GoesOn (config : PipelineConfig) (state : Pipeline) : Prop :=
  ∃ action next, True ∧ state.goOn config action = some next

/-- A caller waits for nothing but room in the raw queue. -/
theorem goesOn_of_submitter (hblocked : ¬ state.Blocked config)
    (hempty : state.compression.queueBytes = 0) (hcallers : state.compression.submitters ≠ []) :
    state.GoesOn config := by
  obtain ⟨⟨task, evicted⟩, others, hcallers⟩ := exists_cons_of_ne_nil hcallers
  cases evicted with
  | some victim =>
    exact ⟨.notifyEvicted 0, _, trivial, by simp [Pipeline.goOn, PipelineAction.fruitless,
      Pipeline.step, Pipeline.notifyEvicted, hcallers, pick]; rfl⟩
  | none =>
    have hfits : fitsQueue config.maxRawQueueBytes 0 task.sizeBytes = true := by
      by_contra hlarge
      exact hblocked (.raw ⟨task, none⟩ (by simp [hcallers]) (by simpa using hlarge))
    exact ⟨.enqueue 0, _, trivial, by simp [Pipeline.goOn, PipelineAction.fruitless, Pipeline.step,
      Pipeline.withCompression, CompressionState.enqueue, hcallers, pick, hempty, hfits]; rfl⟩

theorem activeHeld_step (hactive : state.compression.ActiveHeld)
    (hstep : state.step config action = some next) : next.compression.ActiveHeld := by
  cases Pipeline.effect_of_step hstep with
  | submits =>
    unfold Pipeline.submit
    split <;> exact hactive
  | compression heffect => exact heffect.activeHeld hactive
  | storage | notifiesEvicted | uploads | storageFails => exact hactive
  | emits hpick | reports hpick =>
    intro key
    simpa [pick_eq hpick, count_cons] using hactive key

/-- What every reachable state has. -/
structure RestInv (config : PipelineConfig) (state : Pipeline) : Prop where
  consistent : state.Consistent
  bytes : BytesAccounted config state
  active : state.compression.ActiveHeld

theorem RestInv.step (hinv : RestInv config state) (hstep : state.step config action = some next) :
    RestInv config next :=
  ⟨hinv.consistent.step hstep, hinv.bytes.step hstep, activeHeld_step hinv.active hstep⟩

/-- Nothing is pending, so that `WaitAll` returns. -/
def Pipeline.Settled (state : Pipeline) : Prop := ∀ path, state.ledger.pendingVersions path = none

theorem RestInv.settled_or_goesOn (hinv : RestInv config state)
    (hblocked : ¬ state.Blocked config) : state.Settled ∨ state.GoesOn config := by
  have hworkers := workersIdle_or_goOn hinv.bytes hinv.active
    (fun key task rest hmem => by
      by_contra hlarge
      exact hblocked (.save key task rest hmem (by simpa using hlarge)))
    (fun task hmem hkey => hblocked (.layer task hmem hkey))
  rcases hworkers with hidle | ⟨action, next, -, hnext⟩
  swap
  · exact .inr ⟨action, next, trivial, hnext⟩
  by_cases hcallers : state.compression.submitters = []
  swap
  · exact .inr (goesOn_of_submitter hblocked hidle.bytes hcallers)
  refine .inl fun path => Option.eq_none_iff_forall_ne_some.mpr fun version hpending => ?_
  have hlive := hinv.consistent.pending_live path version hpending
  simp [Pipeline.live, CompressionState.live, StorageState.live, hidle.saving, hidle.workers,
    hidle.queue, hcallers] at hlive

end Progress

/-- After any run, once nothing more is submitted, the pipeline settles however
its threads take their turns, unless it comes to a task that waits for ever. -/
theorem settles_of_run {bucket : Bucket} {nextDispatch : Nat} {actions : List PipelineAction}
    {state : Pipeline} (hrun : runFrom (Pipeline.step config)
      (Pipeline.initialWith bucket nextDispatch) actions = some state) :
    Inevitable (Pipeline.goOn config) (fun _ => True)
      (fun state => state.Settled ∨ state.Blocked config) state := by
  have hinv : RestInv config state :=
    run_invariant (fun _ _ _ hinv _ hstep => hinv.step hstep)
      ⟨consistent_initial bucket nextDispatch, bytesAccounted_initial config bucket nextDispatch,
        fun _ => by simp [Pipeline.initialWith]⟩ (meets_of_forall_mem fun _ _ => trivial) hrun
  refine inevitable_of_measure Pipeline.turnsLeft (fun state hinv => ?_) ?_ hinv
  · by_cases hblocked : state.Blocked config
    · exact .inl (.inr hblocked)
    · exact (hinv.settled_or_goesOn hblocked).imp_left .inl
  · intro state action next hinv _ hstep
    simp only [Pipeline.goOn] at hstep
    split at hstep
    · cases hstep
    · next haction => exact ⟨hinv.step hstep, Pipeline.turnsLeft_lt hstep (by simpa using haction)⟩

/-- One task of a group is queued, one is about to be. -/
theorem settles_queued : ∃ state, runFrom (Pipeline.step unlimited) Pipeline.initial
    (groupTaken.take 3) = some state ∧ ¬ state.Settled ∧
    Inevitable (Pipeline.goOn unlimited) (fun _ => True)
      (fun state => state.Settled ∨ state.Blocked unlimited) state := by
  obtain ⟨state, hrun⟩ : ∃ state, runFrom (Pipeline.step unlimited) Pipeline.initial
      (groupTaken.take 3) = some state := ⟨_, rfl⟩
  refine ⟨state, hrun, fun hsettled => ?_, settles_of_run hrun⟩
  cases hrun
  exact absurd (hsettled firstChunk) (by decide)

end CatKV
