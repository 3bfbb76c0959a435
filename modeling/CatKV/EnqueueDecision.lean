/-
Whether `Enqueue` decides.  The caller of `CompressionManager::Enqueue` evicts
queued tasks and then waits on `capacity_cv_` inside the call.  While it waits it
evicts nothing, and it is woken by `ReleaseBytes` and by `Shutdown`, not by an
eviction.  The caller of `RemoteStorageManager::Enqueue` only waits.  Both leave
once the capacity they wait for can come free, which for a task larger than the
queue never happens.
-/
import CatKV.PipelineDrain

namespace CatKV

open List

/-- The pipeline with `stopping_`, the callers that have come to the wait of
`Enqueue`, and those of them that sleep: they have not been notified since they
last found no room. -/
structure WaitingPipeline extends Pipeline where
  stopping : Bool
  waiting : List TaskId
  asleep : List TaskId

def WaitingPipeline.initial (bucket : Bucket) (nextDispatch : Nat) : WaitingPipeline :=
  ⟨Pipeline.initialWith bucket nextDispatch, false, [], []⟩

inductive WaitAction where
  | turn (action : PipelineAction)
  | wait (submitter : Nat)
  | refuse (submitter : Nat)
  | shutdown
deriving Repr, DecidableEq

namespace WaitingPipeline

def caller (state : WaitingPipeline) (submitter : Nat) : Option TaskId :=
  state.compression.submitters[submitter]?.map fun held => held.task.id

/-- A caller that waits does not evict, one that sleeps does not test, and a
stopped manager accepts nothing. -/
def allows (state : WaitingPipeline) : PipelineAction → Bool
  | .evict submitter => (state.caller submitter).all fun id => !state.waiting.contains id
  | .enqueue submitter =>
    !state.stopping && (state.caller submitter).all fun id => !state.asleep.contains id
  | _ => true

/-- A caller that is admitted leaves the wait, and `ReleaseBytes` wakes all. -/
def note (state : WaitingPipeline) : PipelineAction → WaitingPipeline
  | .enqueue submitter =>
    { state with waiting := state.waiting.filter fun id => state.caller submitter != some id }
  | .releaseRaw _ => { state with asleep := [] }
  | _ => state

/-- The predicate of the wait is false: nothing is left to evict, or the caller
was woken for nothing. -/
def sleep (config : PipelineConfig) (state : WaitingPipeline) (submitter : Nat) :
    Option WaitingPipeline :=
  match pick state.compression.submitters submitter with
  | some (_, ⟨task, none⟩, _) =>
    if state.stopping || state.asleep.contains task.id ||
        fitsQueue config.maxRawQueueBytes state.compression.queueBytes task.sizeBytes ||
        !(state.compression.taskQueue.isEmpty || state.waiting.contains task.id) then none
    else some { state with
      waiting := task.id :: state.waiting
      asleep := task.id :: state.asleep }
  | _ => none

/-- `Enqueue` throws: the caller was in its wait, or its task fits, or nothing is
left to evict for it. -/
def refuse (config : PipelineConfig) (state : WaitingPipeline) (submitter : Nat) :
    Option WaitingPipeline :=
  match pick state.compression.submitters submitter with
  | some (before, ⟨task, none⟩, after) =>
    if state.stopping && (state.waiting.contains task.id ||
        fitsQueue config.maxRawQueueBytes state.compression.queueBytes task.sizeBytes ||
        state.compression.taskQueue.isEmpty) then
      some { state with
        compression := { state.compression with submitters := before ++ after }
        waiting := state.waiting.filter fun id => task.id != id }
    else none
  | _ => none

def step (config : PipelineConfig) (state : WaitingPipeline) :
    WaitAction → Option WaitingPipeline
  | .turn action =>
    if state.allows action then
      (state.toPipeline.step config action).map fun next =>
        { state.note action with toPipeline := next }
    else none
  | .wait submitter => state.sleep config submitter
  | .refuse submitter => state.refuse config submitter
  | .shutdown => some { state with stopping := true, asleep := [] }

/-- Steps once nothing is submitted any more. -/
def goOn (config : PipelineConfig) (state : WaitingPipeline) :
    WaitAction → Option WaitingPipeline
  | .turn action =>
    if action.fruitless state.compression then none
    else state.step config (.turn action)
  | action => state.step config action

end WaitingPipeline

/-- The threads go on without `Shutdown`, and new payloads fit an empty save
queue. -/
def WaitAction.Ordinary (config : PipelineConfig) : WaitAction → Prop
  | .turn (.compress _ _ sizes) =>
    ∀ size ∈ sizes, fitsQueue config.maxSaveQueueBytes 0 size = true
  | .shutdown => False
  | _ => True

/-- A submitted task has no group or a layer number that can be read. -/
def WaitAction.Readable : WaitAction → Prop
  | .turn (.submit path groupUuid ..) => groupUuid = [] ∨ (parseLayerIdx path).isSome
  | _ => True

/-- Whatever order the threads take their turns in, every caller leaves the one
`Enqueue` and every worker the other. -/
def WaitingPipeline.Leaves (config : PipelineConfig) : WaitingPipeline → Prop :=
  Inevitable (WaitingPipeline.goOn config) (WaitAction.Ordinary config) fun later =>
    later.compression.submitters = [] ∧ later.compression.workers = []

/-- Both `Enqueue` decide, and a task that never fits evicts nothing. -/
structure EnqueueDecides (config : PipelineConfig) (state : WaitingPipeline) : Prop where
  leaves : state.Leaves config
  spares : ∀ submitter before held after,
    pick state.compression.submitters submitter = some (before, held, after) →
      fitsQueue config.maxRawQueueBytes 0 held.task.sizeBytes = false →
      state.step config (.turn (.evict submitter)) = none

/-- Every task fits its queue when that is empty.  A caller with a larger one is
about to be refused without an eviction. -/
def WaitingPipeline.RoomForAll (config : PipelineConfig) (state : WaitingPipeline) : Prop :=
  (∀ held ∈ state.compression.submitters,
    fitsQueue config.maxRawQueueBytes 0 held.task.sizeBytes = true ∨
      (state.stopping = true ∧ (held.evicted.isSome ∨ held.task.id ∈ state.waiting ∨
        state.compression.taskQueue = []))) ∧
    ∀ worker ∈ state.compression.workers, ∀ task ∈ worker.phase.compressed,
      fitsQueue config.maxSaveQueueBytes 0 task.payloadSizeBytes = true

/-! What a step does to the callers and to the payloads. -/

def CompressionState.callers (state : CompressionState) : List RawTask :=
  state.submitters.map Submitter.task

/-- The effect of a step on the callers, the queue and its bytes. -/
inductive CallersMove (config : PipelineConfig) (state next : CompressionState) :
    PipelineAction → Prop where
  | submits {path groupUuid : Bytes} {sizeBytes rssBytes : Nat} {onSuccess : Option Nat}
      {arrived : List RawTask} (hcallers : next.callers = state.callers ++ arrived)
      (hnew : ∀ task ∈ arrived, task.cacheKey = path ∧ task.groupUuid = groupUuid)
      (hqueue : next.taskQueue = state.taskQueue) (hbytes : next.queueBytes = state.queueBytes) :
      CallersMove config state next (.submit path groupUuid sizeBytes rssBytes onSuccess)
  | evicts {submitter : Nat} {before after : List Submitter} {task : RawTask}
      (hpick : pick state.submitters submitter = some (before, ⟨task, none⟩, after))
      (hfull : fitsQueue config.maxRawQueueBytes state.queueBytes task.sizeBytes = false)
      (hcallers : next.callers = state.callers) (hqueue : next.taskQueue ⊆ state.taskQueue) :
      CallersMove config state next (.evict submitter)
  | enqueues {submitter : Nat} {before after : List Submitter} {task : RawTask}
      (hpick : pick state.submitters submitter = some (before, ⟨task, none⟩, after))
      (hfits : fitsQueue config.maxRawQueueBytes state.queueBytes task.sizeBytes = true)
      (hcallers : next.submitters = before ++ after)
      (hqueue : next.taskQueue = state.taskQueue ++ [task])
      (hbytes : next.queueBytes = state.queueBytes + task.sizeBytes) :
      CallersMove config state next (.enqueue submitter)
  | releases {worker : Nat} (hcallers : next.callers = state.callers)
      (hqueue : next.taskQueue = state.taskQueue) :
      CallersMove config state next (.releaseRaw worker)
  | stays {action : PipelineAction} (hcallers : next.callers = state.callers)
      (hqueue : next.taskQueue ⊆ state.taskQueue) (hbytes : next.queueBytes = state.queueBytes)
      (hother : ∀ index, action ≠ .evict index ∧ action ≠ .enqueue index ∧
        action ≠ .releaseRaw index) :
      CallersMove config state next action

variable {config : PipelineConfig} {action : PipelineAction}

section Moves

variable {state next : Pipeline}

theorem callersMove_of_step (hstep : state.step config action = some next) :
    CallersMove config state.compression next.compression action := by
  cases Pipeline.effect_of_step hstep with
  | submits =>
    unfold Pipeline.submit
    split
    · exact .submits (by simp only [CompressionState.callers, map_append]; rfl) (by simp) rfl rfl
    · exact .submits (append_nil _).symm (by simp) rfl rfl
  | compression heffect =>
    cases heffect with
    | evicts hpick hqueue hfull =>
      refine .evicts hpick hfull (by simp [CompressionState.callers, pick_eq hpick]) ?_
      rw [hqueue]
      exact subset_cons_self ..
    | enqueues hpick hfits => exact .enqueues hpick hfits rfl rfl rfl
    | dispatchesSingle htake =>
      exact .stays rfl (fun task htask => (takeDispatchable_perm htake).mem_iff.mpr
        (mem_cons_of_mem _ htask)) rfl (by simp)
    | dispatchesGroup htake =>
      exact .stays rfl (fun task htask => (takeDispatchable_perm htake).mem_iff.mpr
        (mem_cons_of_mem _ (mem_of_mem_filter htask))) rfl (by simp)
    | collects => exact .stays rfl (filter_subset_self _) rfl (by simp)
    | releases | releasesFailed => exact .releases rfl rfl
    | compresses | fails | finishes | finishesFailed =>
      exact .stays rfl (List.Subset.refl _) rfl (by simp)
  | storage heffect =>
    refine .stays rfl (List.Subset.refl _) rfl fun index => ?_
    cases heffect with
    | quiet _ _ _ haction => refine ⟨?_, ?_, ?_⟩ <;> rintro rfl <;> cases haction
    | _ => exact ⟨nofun, nofun, nofun⟩
  | notifiesEvicted hpick =>
    exact .stays (by simp [CompressionState.callers, pick_eq hpick]) (List.Subset.refl _) rfl
      (by simp)
  | emits | reports | uploads | storageFails =>
    exact .stays rfl (List.Subset.refl _) rfl (by simp)

theorem fitsQueue_zero {limit used size : Nat} (hfits : fitsQueue limit used size = true) :
    fitsQueue limit 0 size = true := by
  simp only [fitsQueue, Bool.or_eq_true, beq_iff_eq, decide_eq_true_eq] at hfits ⊢
  omega

def CompressionState.CallersFit (config : PipelineConfig) (state : CompressionState) : Prop :=
  ∀ task ∈ state.callers, fitsQueue config.maxRawQueueBytes 0 task.sizeBytes = true

def CompressionState.PayloadsFit (config : PipelineConfig) (state : CompressionState) : Prop :=
  ∀ worker ∈ state.workers, ∀ task ∈ worker.phase.compressed,
    fitsQueue config.maxSaveQueueBytes 0 task.payloadSizeBytes = true

/-- A caller leaves the queue's door only with a task that fits. -/
theorem callersFit_iff (hstep : state.step config action = some next)
    (haction : action.fruitless state.compression = false) :
    next.compression.CallersFit config ↔ state.compression.CallersFit config := by
  unfold CompressionState.CallersFit
  cases callersMove_of_step hstep with
  | submits => cases haction
  | enqueues hpick hfits hcallers =>
    simp only [CompressionState.callers, hcallers, pick_eq hpick, map_append, map_cons,
      forall_mem_append, forall_mem_cons, fitsQueue_zero hfits, true_and]
  | evicts _ _ hcallers | releases hcallers | stays hcallers => rw [hcallers]

theorem payloadsFit_replace {before after : List Worker} {worker other : Worker}
    {state : CompressionState} (hworkers : state.workers = before ++ worker :: after)
    (hsame : (∀ task ∈ other.phase.compressed,
        fitsQueue config.maxSaveQueueBytes 0 task.payloadSizeBytes = true) ↔
      ∀ task ∈ worker.phase.compressed,
        fitsQueue config.maxSaveQueueBytes 0 task.payloadSizeBytes = true) :
    (∀ worker ∈ before ++ other :: after, ∀ task ∈ worker.phase.compressed,
        fitsQueue config.maxSaveQueueBytes 0 task.payloadSizeBytes = true) ↔
      state.PayloadsFit config := by
  simp only [CompressionState.PayloadsFit, hworkers, forall_mem_append, forall_mem_cons, hsame]

theorem mem_sizes_of_compressBatch {dispatch : Nat} {uuid : Uuid} {ranks sizes : List Nat}
    {batch : List RawTask} {task : CompressedTask}
    (htask : task ∈ compressBatch dispatch uuid ranks sizes batch) :
    task.payloadSizeBytes ∈ sizes ∨ task.payloadSizeBytes = 0 := by
  unfold compressBatch at htask
  split at htask
  · cases htask
  · obtain ⟨item, -, rfl⟩ := mem_map.mp htask
    dsimp only
    rw [getD_eq_getElem?_getD]
    cases hsize : sizes[item.2]? with
    | none => exact .inr rfl
    | some size => exact .inl (mem_of_getElem? hsize)

/-- A worker hands over only payloads that fit, and gets only such. -/
theorem payloadsFit_iff (hstep : state.step config action = some next)
    (hordinary : (WaitAction.turn action).Ordinary config) :
    next.compression.PayloadsFit config ↔ state.compression.PayloadsFit config := by
  cases Pipeline.effect_of_step hstep with
  | submits =>
    unfold Pipeline.submit
    split <;> rfl
  | compression heffect =>
    cases heffect with
    | evicts | enqueues => rfl
    | dispatchesSingle | dispatchesGroup =>
      simp [CompressionState.PayloadsFit, or_imp, forall_and, WorkerPhase.compressed]
    | compresses hpick =>
      refine payloadsFit_replace (pick_eq hpick) (iff_of_true (fun task htask => ?_) (by
        simp [WorkerPhase.compressed]))
      rcases mem_sizes_of_compressBatch htask with hsize | hzero
      · exact hordinary _ hsize
      · simp [hzero, fitsQueue]
    | collects hpick | fails hpick | releases hpick | releasesFailed hpick =>
      exact payloadsFit_replace (pick_eq hpick) (by simp [WorkerPhase.compressed])
    | finishes hpick | finishesFailed hpick =>
      simp [CompressionState.PayloadsFit, pick_eq hpick, WorkerPhase.compressed, or_imp,
        forall_and]
  | storage | notifiesEvicted | uploads | storageFails => rfl
  | emits hpick hfits =>
    exact payloadsFit_replace (pick_eq hpick)
      (by simp [WorkerPhase.compressed, fitsQueue_zero hfits])
  | reports hpick => exact payloadsFit_replace (pick_eq hpick) (by simp [WorkerPhase.compressed])

end Moves

/-! Every reachable state. -/

/-- A sleeper has someone to wake it: bytes that a worker will release, or a
caller that is not in the wait and will add some. -/
structure WaitsInv (config : PipelineConfig) (state : WaitingPipeline) : Prop where
  bytes : BytesAccounted config state.toPipeline
  active : state.compression.ActiveHeld
  readable : ∀ task ∈ state.compression.callers ++ state.compression.taskQueue,
    dispatchGroupKey task ≠ none
  waits : state.asleep ⊆ state.waiting
  stopped : state.stopping = true → state.asleep = []
  wakes : state.compression.CallersFit config → state.asleep ≠ [] →
    0 < state.compression.queueBytes ∨ ∃ task ∈ state.compression.callers,
      task.id ∉ state.waiting ∧ 0 < task.sizeBytes

section Invariant

variable {state next : WaitingPipeline}

theorem WaitingPipeline.step_turn (hstep : state.step config (.turn action) = some next) :
    ∃ result, state.allows action = true ∧ state.toPipeline.step config action = some result ∧
      next = { state.note action with toPipeline := result } := by
  simp only [WaitingPipeline.step] at hstep
  split at hstep
  · next hallows =>
    obtain ⟨result, hresult, rfl⟩ := Option.map_eq_some_iff.mp hstep
    exact ⟨result, hallows, hresult, rfl⟩
  · cases hstep

theorem WaitingPipeline.caller_of_pick {submitter : Nat} {before after : List Submitter}
    {held : Submitter} (hpick : pick state.compression.submitters submitter =
      some (before, held, after)) : state.caller submitter = some held.task.id := by
  rw [WaitingPipeline.caller, getElem?_of_pick hpick]
  rfl

theorem WaitingPipeline.sleep_eq {submitter : Nat}
    (hstep : state.sleep config submitter = some next) : ∃ before task after,
      pick state.compression.submitters submitter = some (before, ⟨task, none⟩, after) ∧
      state.stopping = false ∧ task.id ∉ state.asleep ∧
      fitsQueue config.maxRawQueueBytes state.compression.queueBytes task.sizeBytes =
        false ∧ next = { state with
        waiting := task.id :: state.waiting
        asleep := task.id :: state.asleep } := by
  unfold WaitingPipeline.sleep at hstep
  split at hstep
  · next before task after hpick =>
    split at hstep
    · cases hstep
    · next htests =>
      cases hstep
      simp only [Bool.or_eq_true, not_or, contains_iff_mem, Bool.not_eq_true] at htests
      obtain ⟨⟨⟨hrunning, hawake⟩, hfull⟩, -⟩ := htests
      exact ⟨before, task, after, hpick, hrunning, hawake, hfull, rfl⟩
  · cases hstep

theorem WaitingPipeline.refuse_eq {submitter : Nat}
    (hstep : state.refuse config submitter = some next) : ∃ before task after,
      pick state.compression.submitters submitter = some (before, ⟨task, none⟩, after) ∧
      state.stopping = true ∧ next = { state with
        compression := { state.compression with submitters := before ++ after }
        waiting := state.waiting.filter fun id => task.id != id } := by
  unfold WaitingPipeline.refuse at hstep
  split at hstep
  · next before task after hpick =>
    split at hstep
    · next htests =>
      cases hstep
      exact ⟨before, task, after, hpick, (Bool.and_eq_true_iff.mp htests).1, rfl⟩
    · cases hstep
  · cases hstep

/-- Someone who finds no room for a task that fits an empty queue finds bytes
in it. -/
theorem queueBytes_pos {limit used size : Nat} (hfits : fitsQueue limit 0 size = true)
    (hfull : fitsQueue limit used size = false) : 0 < used := by
  simp only [fitsQueue, Bool.or_eq_true, Bool.or_eq_false_iff, beq_iff_eq, beq_eq_false_iff_ne,
    decide_eq_true_eq, decide_eq_false_iff_not] at hfits hfull
  omega

section

variable (hinv : WaitsInv config state)

include hinv

theorem WaitsInv.readable_turn {result : Pipeline} (hreadable : (WaitAction.turn action).Readable)
    (hresult : state.toPipeline.step config action = some result) :
    ∀ task ∈ result.compression.callers ++ result.compression.taskQueue,
      dispatchGroupKey task ≠ none := by
  obtain ⟨hcallers, hqueued⟩ := forall_mem_append.mp hinv.readable
  cases callersMove_of_step hresult with
  | submits harrived hnew hqueue =>
    rw [harrived, hqueue]
    refine forall_mem_append.mpr ⟨forall_mem_append.mpr ⟨hcallers, fun task htask => ?_⟩, hqueued⟩
    obtain ⟨hkey, hgroup⟩ := hnew task htask
    unfold dispatchGroupKey
    rcases hreadable with hnone | hsome
    · simp [hgroup, hnone]
    · rw [← hkey] at hsome
      split <;> simp [Option.isSome_iff_ne_none.mp hsome]
  | enqueues hpick hfits hleft hqueue =>
    have htask : dispatchGroupKey _ ≠ none :=
      hcallers _ (mem_map_of_mem (mem_of_pick hpick))
    rw [CompressionState.callers, hleft, hqueue]
    refine forall_mem_append.mpr ⟨fun task hmem => ?_,
      forall_mem_append.mpr ⟨hqueued, by simpa using htask⟩⟩
    obtain ⟨held, hheld, rfl⟩ := mem_map.mp hmem
    exact hcallers _ (mem_map_of_mem (mem_of_pick_others hpick hheld))
  | releases hsame hqueue =>
    rw [hsame, hqueue]
    exact hinv.readable
  | evicts _ _ hsame hqueue | stays hsame hqueue =>
    rw [hsame]
    exact forall_mem_append.mpr ⟨hcallers, fun task htask => hqueued task (hqueue htask)⟩

theorem WaitsInv.turn (hreadable : (WaitAction.turn action).Readable)
    (hstep : state.step config (.turn action) = some next) : WaitsInv config next := by
  obtain ⟨result, hallows, hresult, rfl⟩ := WaitingPipeline.step_turn hstep
  have hkeys := hinv.readable_turn hreadable hresult
  have hbytes := hinv.bytes.step hresult
  have hactive := activeHeld_step hinv.active hresult
  cases hmove : callersMove_of_step hresult with
  | submits harrived hnew hqueue hsame =>
    refine ⟨hbytes, hactive, hkeys, hinv.waits, hinv.stopped, fun hfit hasleep => ?_⟩
    simp only [CompressionState.CallersFit, harrived, hsame, mem_append, or_imp, forall_and,
      or_and_right, exists_or] at hfit ⊢
    exact (hinv.wakes hfit.1 hasleep).imp_right .inl
  | @evicts submitter before after task hpick hfull hcallers =>
    refine ⟨hbytes, hactive, hkeys, hinv.waits, hinv.stopped, fun hfit hasleep => .inr ?_⟩
    -- the caller that evicts is not in the wait, and its task has bytes
    have hid : task.id ∉ state.waiting := by
      simpa [WaitingPipeline.allows, WaitingPipeline.caller_of_pick hpick] using hallows
    refine ⟨task, hcallers ▸ mem_map_of_mem (mem_of_pick hpick), hid, ?_⟩
    have hlimit := hinv.bytes.raw_limit
    simp only [fitsQueue, Bool.or_eq_false_iff, beq_eq_false_iff_ne, decide_eq_false_iff_not]
      at hfull
    omega
  | @enqueues submitter before after task hpick hfits hleft hqueue hmore =>
    have hid : state.stopping = false ∧ task.id ∉ state.asleep := by
      simpa [WaitingPipeline.allows, WaitingPipeline.caller_of_pick hpick] using hallows
    refine ⟨hbytes, hactive, hkeys, fun id hasleep => ?_, hinv.stopped, fun hfit hasleep => ?_⟩
    · refine mem_filter.mpr ⟨hinv.waits hasleep, ?_⟩
      have hne : task.id ≠ id := fun heq => hid.2 (heq ▸ hasleep)
      simpa [WaitingPipeline.caller_of_pick hpick] using hne
    · have hall := (callersFit_iff hresult rfl).mp hfit
      rw [hmore]
      by_cases hsize : task.sizeBytes = 0
      · -- a task without bytes leaves everything to the others
        refine (hinv.wakes hall hasleep).imp (Nat.lt_add_right _) ?_
        rintro ⟨other, hother, hwaits, hpos⟩
        rw [CompressionState.callers, pick_eq hpick] at hother
        refine ⟨other, ?_, fun hmem => hwaits (mem_of_mem_filter hmem), hpos⟩
        rw [CompressionState.callers, hleft]
        simp only [map_append, map_cons, mem_append, mem_cons] at hother ⊢
        rcases hother with hbefore | rfl | hafter
        · exact .inl hbefore
        · omega
        · exact .inr hafter
      · exact .inl (by omega)
  | releases =>
    exact ⟨hbytes, hactive, hkeys, nil_subset _, fun _ => rfl, fun _ hasleep => absurd rfl hasleep⟩
  | stays hcallers hqueue hsame hother =>
    have hnote : state.note action = state := by
      cases action with
      | enqueue index => exact absurd rfl (hother index).2.1
      | releaseRaw index => exact absurd rfl (hother index).2.2
      | _ => rfl
    rw [hnote]
    refine ⟨hbytes, hactive, hkeys, hinv.waits, hinv.stopped, ?_⟩
    simp only [CompressionState.CallersFit, hcallers, hsame]
    exact hinv.wakes

theorem WaitsInv.sleep {submitter : Nat} (hstep : state.sleep config submitter = some next) :
    WaitsInv config next := by
  obtain ⟨before, task, after, hpick, hrunning, -, hfull, rfl⟩ := WaitingPipeline.sleep_eq hstep
  refine ⟨hinv.bytes, hinv.active, hinv.readable, cons_subset_cons _ hinv.waits,
    fun hstopping => absurd hstopping (by simp [hrunning]), fun hfit _ => .inl ?_⟩
  exact queueBytes_pos (hfit task (mem_map_of_mem (mem_of_pick hpick))) hfull

theorem WaitsInv.refuse {submitter : Nat} (hstep : state.refuse config submitter = some next) :
    WaitsInv config next := by
  obtain ⟨before, task, after, hpick, hstopping, rfl⟩ := WaitingPipeline.refuse_eq hstep
  have hsleepers := hinv.stopped hstopping
  refine ⟨⟨hinv.bytes.raw, hinv.bytes.save, hinv.bytes.raw_limit, hinv.bytes.save_limit⟩,
    hinv.active, fun other hother => ?_, by simp [hsleepers], hinv.stopped,
    fun _ hasleep => absurd hsleepers hasleep⟩
  refine hinv.readable other (mem_append.mpr ((mem_append.mp hother).imp_left fun hmem => ?_))
  obtain ⟨held, hheld, rfl⟩ := mem_map.mp hmem
  exact mem_map_of_mem (mem_of_pick_others hpick hheld)

theorem WaitsInv.step {action : WaitAction} (hreadable : action.Readable)
    (hstep : state.step config action = some next) : WaitsInv config next := by
  cases action with
  | turn action => exact hinv.turn hreadable hstep
  | wait => exact hinv.sleep hstep
  | refuse => exact hinv.refuse hstep
  | shutdown =>
    cases hstep
    exact ⟨hinv.bytes, hinv.active, hinv.readable, nil_subset _, fun _ => rfl,
      fun _ hasleep => absurd rfl hasleep⟩

end

end Invariant

theorem waitsInv_of_run {bucket : Bucket} {nextDispatch : Nat} {actions : List WaitAction}
    {state : WaitingPipeline} (hreadable : ∀ action ∈ actions, action.Readable)
    (hrun : runFrom (WaitingPipeline.step config)
      (WaitingPipeline.initial bucket nextDispatch) actions = some state) :
    WaitsInv config state := by
  refine run_invariant (fun _ _ _ hinv hreadable hstep => hinv.step hreadable hstep) ?_
    (meets_of_forall_mem hreadable) hrun
  exact ⟨bytesAccounted_initial config bucket nextDispatch, fun _ => by
    simp [WaitingPipeline.initial, Pipeline.initialWith], nofun, nil_subset _, fun _ => rfl,
    fun _ hasleep => absurd rfl hasleep⟩

/-! Someone can go on, and nobody goes on for ever. -/

/-- Nobody waits for room that never comes. -/
def WaitingPipeline.Admits (config : PipelineConfig) (state : WaitingPipeline) : Prop :=
  (state.stopping = true ∨ state.compression.CallersFit config) ∧
    state.compression.PayloadsFit config

/-- The pipeline's turns that are left, and among the steps without one the
callers that have not gone to sleep. -/
def WaitingPipeline.stepsLeft (state : WaitingPipeline) : Nat :=
  state.turnsLeft * state.turnsLeft +
    state.compression.callers.countP fun task => task.id ∉ state.asleep

section Progress

variable {state next : WaitingPipeline}

theorem WaitingPipeline.goOn_turn (hstep : state.goOn config (.turn action) = some next) :
    action.fruitless state.compression = false ∧
      state.step config (.turn action) = some next := by
  simp only [WaitingPipeline.goOn] at hstep
  split at hstep
  · cases hstep
  · next hfruitful => exact ⟨by simpa using hfruitful, hstep⟩

theorem admits_iff {action : WaitAction} (hordinary : action.Ordinary config)
    (hstep : state.goOn config action = some next) :
    next.Admits config ↔ state.Admits config := by
  cases action with
  | turn action =>
    obtain ⟨hfruitful, hstep⟩ := WaitingPipeline.goOn_turn hstep
    obtain ⟨result, -, hresult, rfl⟩ := WaitingPipeline.step_turn hstep
    have hstopping : (state.note action).stopping = state.stopping := by
      cases action <;> rfl
    simp only [WaitingPipeline.Admits, hstopping, callersFit_iff hresult hfruitful,
      payloadsFit_iff hresult hordinary]
  | wait =>
    obtain ⟨before, task, after, -, -, -, -, rfl⟩ := WaitingPipeline.sleep_eq hstep
    rfl
  | refuse =>
    obtain ⟨before, task, after, hpick, hstopping, rfl⟩ := WaitingPipeline.refuse_eq hstep
    simp only [WaitingPipeline.Admits, hstopping, true_or, true_and]
    rfl
  | shutdown => cases hordinary

theorem callers_le_turnsLeft (pipeline : Pipeline) :
    pipeline.compression.callers.length ≤ pipeline.turnsLeft := by
  have hsum : pipeline.compression.submitters.length ≤ (pipeline.compression.submitters.map
      fun submitter => 18 + submitter.evicted.toList.length).sum := by
    induction pipeline.compression.submitters with
    | nil => simp
    | cons held others ih =>
      simp only [length_cons, map_cons, sum_cons]
      omega
  simp only [CompressionState.callers, length_map, Pipeline.turnsLeft, CompressionState.turnsLeft]
  omega

theorem stepsLeft_lt_of_turnsLeft_lt (hturns : next.turnsLeft < state.turnsLeft) :
    next.stepsLeft < state.stepsLeft := by
  unfold WaitingPipeline.stepsLeft
  have hawake := (countP_le_length (p := fun task => decide (task.id ∉ next.asleep))).trans
    (callers_le_turnsLeft next.toPipeline)
  have hsquare : next.turnsLeft * next.turnsLeft + next.turnsLeft ≤
      (state.turnsLeft - 1) * state.turnsLeft := by
    rw [← Nat.mul_succ]
    exact Nat.mul_le_mul (by omega) hturns
  have hless : (state.turnsLeft - 1) * state.turnsLeft <
      state.turnsLeft * state.turnsLeft :=
    Nat.mul_lt_mul_of_pos_right (by omega) (by omega)
  omega

theorem WaitingPipeline.stepsLeft_lt {action : WaitAction} (hordinary : action.Ordinary config)
    (hstep : state.goOn config action = some next) : next.stepsLeft < state.stepsLeft := by
  cases action with
  | turn action =>
    obtain ⟨hfruitful, hstep⟩ := WaitingPipeline.goOn_turn hstep
    obtain ⟨result, -, hresult, rfl⟩ := WaitingPipeline.step_turn hstep
    exact stepsLeft_lt_of_turnsLeft_lt (Pipeline.turnsLeft_lt hresult hfruitful)
  | wait =>
    obtain ⟨before, task, after, hpick, -, hawake, -, rfl⟩ := WaitingPipeline.sleep_eq hstep
    apply Nat.add_lt_add_left
    have hmem : task ∈ state.compression.callers := mem_map_of_mem (mem_of_pick hpick)
    obtain ⟨first, rest, hsplit⟩ := append_of_mem hmem
    simp only [hsplit, countP_append, countP_cons, hawake, mem_cons, not_or, not_false_eq_true,
      decide_true, decide_false, if_true, not_true, if_false, Bool.false_eq_true, false_and]
    have hfewer : ∀ tasks : List RawTask, (tasks.countP fun other => decide
        (¬ other.id = task.id ∧ other.id ∉ state.asleep)) ≤
        tasks.countP fun other => decide (other.id ∉ state.asleep) :=
      fun tasks => countP_mono_left (by simp +contextual)
    have hfirst := hfewer first
    have hrest := hfewer rest
    omega
  | refuse =>
    obtain ⟨before, task, after, hpick, -, rfl⟩ := WaitingPipeline.refuse_eq hstep
    apply stepsLeft_lt_of_turnsLeft_lt
    simp [Pipeline.turnsLeft, CompressionState.turnsLeft, pick_eq hpick]
  | shutdown => cases hordinary

/-- When the workers are idle, a caller that is not asleep notifies its victim's
owner, is refused, or is admitted. -/
theorem WaitingPipeline.Admits.caller_goesOn (hadmits : state.Admits config)
    (hidle : state.WorkersIdle) {held : Submitter}
    (hheld : held ∈ state.compression.submitters) (hawake : held.task.id ∉ state.asleep) :
    ∃ action next, action.Ordinary config ∧ state.goOn config action = some next := by
  have hfit : state.stopping = true ∨
      fitsQueue config.maxRawQueueBytes 0 held.task.sizeBytes = true :=
    hadmits.1.imp_right fun hall => hall held.task (mem_map_of_mem hheld)
  obtain ⟨before, after, hsplit⟩ := append_of_mem hheld
  have hpick := pick_append before held after
  rw [← hsplit] at hpick
  obtain ⟨task, evicted⟩ := held
  cases evicted with
  | some victim =>
    exact ⟨.turn (.notifyEvicted before.length), _, trivial, by
      simp [WaitingPipeline.goOn, PipelineAction.fruitless, WaitingPipeline.step,
        WaitingPipeline.allows, Pipeline.step, Pipeline.notifyEvicted, hpick]; rfl⟩
  | none =>
    rcases Bool.eq_false_or_eq_true state.stopping with hstopping | hrunning
    · exact ⟨.refuse before.length, _, trivial, by
        simp [WaitingPipeline.goOn, WaitingPipeline.step, WaitingPipeline.refuse, hpick, hstopping,
          hidle.queue]; rfl⟩
    · have hadmitted := hfit.resolve_left (by simp [hrunning])
      exact ⟨.turn (.enqueue before.length), _, trivial, by
        simp [WaitingPipeline.goOn, PipelineAction.fruitless, WaitingPipeline.step,
          WaitingPipeline.allows, hrunning, WaitingPipeline.caller_of_pick hpick, hawake,
          Pipeline.step, Pipeline.withCompression, CompressionState.enqueue, hpick, hidle.bytes,
          hadmitted]; rfl⟩

section

variable (hinv : WaitsInv config state)

include hinv

/-- Once the workers have released everything, some caller is not asleep. -/
theorem WaitsInv.exists_awake (hadmits : state.Admits config)
    (hempty : state.compression.queueBytes = 0)
    (hcallers : state.compression.submitters ≠ []) :
    ∃ held ∈ state.compression.submitters, held.task.id ∉ state.asleep := by
  by_cases hasleep : state.asleep = []
  · obtain ⟨held, others, hheld⟩ := exists_cons_of_ne_nil hcallers
    exact ⟨held, by simp [hheld], by simp [hasleep]⟩
  · have hfit := hadmits.1.resolve_left fun hstopping => hasleep (hinv.stopped hstopping)
    rcases hinv.wakes hfit hasleep with hbytes | ⟨task, htask, hwaits, -⟩
    · omega
    · obtain ⟨held, hheld, rfl⟩ := mem_map.mp htask
      exact ⟨held, hheld, fun hmem => hwaits (hinv.waits hmem)⟩

theorem WaitsInv.left_or_goesOn (hadmits : state.Admits config) :
    (state.compression.submitters = [] ∧ state.compression.workers = []) ∨
      ∃ action next, action.Ordinary config ∧ state.goOn config action = some next := by
  have hworkers := workersIdle_or_goOn hinv.bytes hinv.active
    (fun key task rest hmem => hadmits.2 _ hmem task mem_cons_self)
    (fun task hmem => hinv.readable task (mem_append_right _ hmem))
  rcases hworkers with hidle | ⟨action, result, hturn, hresult⟩
  · by_cases hcallers : state.compression.submitters = []
    · exact .inl ⟨hcallers, hidle.workers⟩
    · obtain ⟨held, hheld, hawake⟩ := hinv.exists_awake hadmits hidle.bytes hcallers
      exact .inr (hadmits.caller_goesOn hidle hheld hawake)
  · refine .inr ⟨.turn action, { state.note action with toPipeline := result }, ?_, ?_⟩
    · cases action <;> simp_all [PipelineAction.ofWorkers, WaitAction.Ordinary]
    · have hallows : state.allows action = true := by
        cases action <;> first | rfl | cases hturn
      simp only [Pipeline.goOn] at hresult
      split at hresult
      · cases hresult
      · next hfruitful =>
        simp [WaitingPipeline.goOn, hfruitful, WaitingPipeline.step, hallows, hresult]

theorem WaitsInv.leaves_iff : state.Leaves config ↔ state.Admits config := by
  constructor
  · intro hleaves
    by_contra hstuck
    refine not_inevitable_of_invariant
      (?_ : ∀ later : WaitingPipeline, ¬ later.Admits config → _) ?_ hstuck hleaves
    · rintro later hstuck ⟨hcallers, hworkers⟩
      refine hstuck ⟨.inr ?_, ?_⟩
      · simp [CompressionState.CallersFit, CompressionState.callers, hcallers]
      · simp [CompressionState.PayloadsFit, hworkers]
    · intro later action next hstuck hordinary hstep
      rwa [admits_iff hordinary hstep]
  · intro hadmits
    refine inevitable_of_measure WaitingPipeline.stepsLeft
      (?_ : ∀ later, WaitsInv config later ∧ later.Admits config → _) ?_ ⟨hinv, hadmits⟩
    · rintro later ⟨hinv, hadmits⟩
      exact hinv.left_or_goesOn hadmits
    · rintro later action next ⟨hinv, hadmits⟩ hordinary hstep
      refine ⟨⟨?_, (admits_iff hordinary hstep).mpr hadmits⟩,
        WaitingPipeline.stepsLeft_lt hordinary hstep⟩
      cases action with
      | turn action =>
        obtain ⟨hfruitful, hstep⟩ := WaitingPipeline.goOn_turn hstep
        refine hinv.turn ?_ hstep
        cases action with
        | submit => cases hfruitful
        | _ => trivial
      | wait => exact hinv.sleep hstep
      | refuse => exact hinv.refuse hstep
      | shutdown => cases hordinary

end

/-- A caller with a task that never fits evicts unless it has come to its wait,
holds a victim already or finds nothing queued. -/
theorem evict_none_iff {submitter : Nat} {before after : List Submitter} {held : Submitter}
    (hpick : pick state.compression.submitters submitter = some (before, held, after))
    (hlarge : fitsQueue config.maxRawQueueBytes 0 held.task.sizeBytes = false) :
    state.step config (.turn (.evict submitter)) = none ↔ (held.evicted.isSome ∨
      held.task.id ∈ state.waiting ∨ state.compression.taskQueue = []) := by
  obtain ⟨task, evicted⟩ := held
  have hfull : fitsQueue config.maxRawQueueBytes state.compression.queueBytes
      task.sizeBytes = false := by
    by_contra hfits
    exact absurd (fitsQueue_zero (by simpa using hfits)) (by simpa using hlarge)
  simp only [WaitingPipeline.step, WaitingPipeline.allows, WaitingPipeline.caller_of_pick hpick,
    Pipeline.step, Pipeline.withCompression, CompressionState.evict, hpick]
  cases evicted with
  | some => simp
  | none => cases hqueue : state.compression.taskQueue <;> simp [hfull]

end Progress

/-- A worker holds a compressed payload while another caller waits. -/
def waitingCaller (payloadBytes : Nat) : List WaitAction :=
  [.turn (.submit firstChunk [] 1 0 none), .turn (.enqueue 0), .turn .dispatch,
    .turn (.compress 0 [1] [payloadBytes]), .turn (.submit secondChunk [] 2 0 none), .wait 0]

/-- A caller with three bytes meets a queue of two that holds one task. -/
def oversizedCaller : List WaitAction :=
  [.turn (.submit firstChunk [] 1 0 none), .turn (.enqueue 0),
    .turn (.submit secondChunk [] 3 0 none)]

end CatKV
