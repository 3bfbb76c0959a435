/-
The raw queue over the whole life of the pipeline, `Shutdown` included.  Every
task `Enqueue` has accepted is queued, in the batch of one worker, or has been
evicted, emitted or reported once; the workers drain the queue before they
return.
-/
import CatKV.ByteAccounting
import CatKV.GroupExclusion
import Mathlib.Data.List.Nodup

namespace CatKV

open List

/-- The pipeline with the flags of its two `Shutdown` calls and the number of
compression worker threads that have not returned.  The lists only record
history: the tasks accepted by `Enqueue` and what became of them. -/
structure ManagedPipeline where
  pipeline : Pipeline
  stopping : Bool
  threads : Nat
  storageStopping : Bool
  accepted : List TaskId
  evicted : List TaskId
  emitted : List TaskId
  reported : List TaskId

def ManagedPipeline.initial (bucket : Bucket) (nextDispatch workerCount : Nat) : ManagedPipeline :=
  ⟨Pipeline.initialWith bucket nextDispatch, false, workerCount, false, [], [], [], []⟩

inductive ManagedAction where
  | pipeline (action : PipelineAction)
  | refuse (submitter : Nat)
  | shutdown
  | workerReturns
  | shutdownStorage
deriving Repr, DecidableEq

/-- `Enqueue` of a stopped manager throws, and a batch needs an idle worker. -/
def ManagedPipeline.allows (state : ManagedPipeline) : PipelineAction → Bool
  | .enqueue _ => !state.stopping
  | .dispatch => state.pipeline.compression.workers.length < state.threads
  | .emit _ => !state.storageStopping
  | _ => true

def ManagedPipeline.record (state : ManagedPipeline) : PipelineAction → ManagedPipeline
  | .enqueue submitter =>
    match pick state.pipeline.compression.submitters submitter with
    | some (_, held, _) =>
      { state with accepted := held.task.id :: state.accepted }
    | none => state
  | .evict _ =>
    match state.pipeline.compression.taskQueue with
    | victim :: _ => { state with evicted := victim.id :: state.evicted }
    | [] => state
  | .emit worker =>
    match pick state.pipeline.compression.workers worker with
    | some (_, ⟨_, .emitting (task :: _)⟩, _) =>
      { state with emitted := task.id :: state.emitted }
    | _ => state
  | .reportError worker =>
    match pick state.pipeline.compression.workers worker with
    | some (_, ⟨_, .reporting _ (task :: _)⟩, _) =>
      { state with reported := task.id :: state.reported }
    | _ => state
  | _ => state

/-- `Enqueue` throws "compression manager is shutting down": the task fits, or
nothing is left to evict for it. -/
def CompressionState.refuse (config : PipelineConfig)
    (state : CompressionState) (submitter : Nat) : Option CompressionState :=
  match pick state.submitters submitter with
  | some (before, ⟨task, none⟩, after) =>
    if fitsQueue config.maxRawQueueBytes state.queueBytes task.sizeBytes ||
        state.taskQueue.isEmpty then
      some { state with submitters := before ++ after }
    else none
  | _ => none

def ManagedPipeline.step (config : PipelineConfig) (state : ManagedPipeline) :
    ManagedAction → Option ManagedPipeline
  | .pipeline action =>
    if state.allows action then
      (state.pipeline.step config action).map fun next =>
        { state.record action with pipeline := next }
    else none
  | .refuse submitter =>
    if state.stopping then
      (state.pipeline.compression.refuse config submitter).map fun next =>
        { state with pipeline := { state.pipeline with compression := next } }
    else none
  | .shutdown => some { state with stopping := true }
  | .workerReturns =>
    if state.stopping && state.pipeline.compression.taskQueue.isEmpty &&
        state.pipeline.compression.workers.length < state.threads then
      some { state with threads := state.threads - 1 }
    else none
  -- `RemotePipeline::Shutdown` stops the storage manager after the join
  | .shutdownStorage =>
    if state.stopping && state.threads == 0 then some { state with storageStopping := true }
    else none

/-- Every place a task can be in, and every end it can have come to. -/
def ManagedPipeline.places (state : ManagedPipeline) : List TaskId :=
  state.pipeline.compression.taskQueue.map RawTask.id ++ (state.pipeline.compression.workers.flatMap
      fun worker => worker.phase.live) ++
    (state.evicted ++ state.emitted ++ state.reported)

structure QueueConserved (state : ManagedPipeline) : Prop where
  once : ∀ id ∈ state.accepted, state.places.count id = 1
  known : ∀ id ∈ state.places, id ∈ state.accepted
  one_group : ∀ worker ∈ state.pipeline.compression.workers, OneGroup worker.phase.members
  exclusive : ∀ key, key ≠ [] →
    (state.pipeline.compression.workers.map Worker.groupKey).count key ≤ 1
  drained : state.threads = 0 → state.pipeline.compression.taskQueue = []
  /-- The save queue stops accepting tasks when nothing is left to emit. -/
  emitted_all : state.storageStopping = true → state.pipeline.compression.workers = []

/-! Conservation. -/

/-- Accepted tasks are where the places say, with multiplicity. -/
def ManagedPipeline.Conserved (state : ManagedPipeline) : Prop :=
  ∀ id, state.accepted.count id = state.places.count id

variable {action : PipelineAction}

theorem PipelineAction.record_of_isQuiet (haction : action.isQuiet = true)
    (state : ManagedPipeline) : state.record action = state := by
  cases action <;> first | rfl | cases haction

variable {config : PipelineConfig} {state : ManagedPipeline}

theorem ManagedPipeline.record_compression {result : CompressionState}
    (heffect : CompressionEffect config state.pipeline.compression action
      result) (hinv : state.Conserved) :
    ManagedPipeline.Conserved { state.record action with
      pipeline := { state.pipeline with compression := result } } := by
  intro id
  have hcount := hinv id
  have hlive := heffect.live_perm.count_eq id
  unfold ManagedPipeline.places at hcount ⊢
  cases heffect with
  | evicts hpick hqueue hfull =>
    simp only [ManagedPipeline.record, hqueue, map_cons, count_append, count_cons] at hcount ⊢
    omega
  | enqueues hpick hfits =>
    simp only [ManagedPipeline.record, hpick, map_append, map_cons, map_nil, count_append,
      count_cons, count_nil] at hcount ⊢
    omega
  -- the submitters are as before, so that what is live is at the same places
  | dispatchesSingle | dispatchesGroup | collects | compresses | fails | releases | releasesFailed
  | finishes | finishesFailed =>
    simp only [ManagedPipeline.record, CompressionState.live, count_append] at hcount hlive ⊢
    omega

variable {next : Pipeline}

theorem ManagedPipeline.Conserved.pipeline (hinv : state.Conserved)
    (hstep : state.pipeline.step config action = some next) :
    ManagedPipeline.Conserved { state.record action with pipeline := next } := by
  cases Pipeline.effect_of_step hstep with
  | submits =>
    unfold Pipeline.submit
    split <;> exact hinv
  | compression heffect => exact ManagedPipeline.record_compression heffect hinv
  | storage heffect =>
    cases heffect with
    | quiet hpick hquiet hbytes haction =>
      rw [PipelineAction.record_of_isQuiet haction]
      exact hinv
    | takes | skips | begins | lands | returns | leaves => exact hinv
  | notifiesEvicted | uploads | storageFails => exact hinv
  | emits hpick | reports hpick =>
    intro id
    have hcount := hinv id
    simp only [ManagedPipeline.record, hpick]
    simp only [ManagedPipeline.places, pick_eq hpick, flatMap_append, flatMap_cons,
      WorkerPhase.live, map_cons, count_append, count_cons] at hcount ⊢
    omega

/-! No task is accepted twice, because every submission has a new version. -/

/-- Tasks accepted by `Enqueue` or still in the hands of their submitter. -/
def ManagedPipeline.registered (state : ManagedPipeline) : List TaskId :=
  state.accepted ++ state.pipeline.compression.submitters.map fun held => held.task.id

structure RegisteredInv (state : ManagedPipeline) : Prop where
  nodup : state.registered.Nodup
  versioned : ∀ id ∈ state.registered, ∃ version,
    state.pipeline.ledger.versions id.1 = some version ∧ id.2 ≤ version

theorem RegisteredInv.of_perm {next : ManagedPipeline} (hinv : RegisteredInv state)
    (hperm : next.registered.Perm state.registered)
    (hledger : state.pipeline.ledger.NotBefore next.pipeline.ledger) : RegisteredInv next := by
  refine ⟨hperm.nodup_iff.mpr hinv.nodup, fun id hid => ?_⟩
  obtain ⟨version, hversion, hle⟩ := hinv.versioned id (hperm.mem_iff.mp hid)
  obtain ⟨version', hversion', hle'⟩ := hledger id.1 version hversion
  exact ⟨version', hversion', hle.trans hle'⟩

theorem RegisteredInv.of_sublist {next : ManagedPipeline} (hinv : RegisteredInv state)
    (hsublist : next.registered.Sublist state.registered)
    (hledger : next.pipeline.ledger = state.pipeline.ledger) : RegisteredInv next :=
  ⟨hinv.nodup.sublist hsublist, fun id hid => by
    rw [hledger]
    exact hinv.versioned id (hsublist.subset hid)⟩

theorem Ledger.submit_accepted {ledger result : Ledger} {path : Bytes} {overLimit : Bool}
    {version : Nat} (hsubmit : ledger.submit path overLimit = (.accepted version, result)) :
    version = ledger.nextVersion path ∧ result.versions path = some version := by
  unfold Ledger.submit at hsubmit
  split at hsubmit
  · cases hsubmit
  · split at hsubmit
    · cases hsubmit
    · cases hsubmit
      exact ⟨rfl, Function.update_self _ _ _⟩

theorem RegisteredInv.submit (hinv : RegisteredInv state) (path groupUuid : Bytes)
    (sizeBytes rssBytes : Nat) (onSuccess : Option Nat) :
    RegisteredInv { state with
      pipeline := state.pipeline.submit config path groupUuid sizeBytes rssBytes onSuccess } := by
  have hledger := Pipeline.notBefore_step (show state.pipeline.step config
      (.submit path groupUuid sizeBytes rssBytes onSuccess) = some _ from rfl)
  unfold Pipeline.submit at hledger ⊢
  split at hledger
  · next version ledger hsubmit =>
    obtain ⟨hversion, hcurrent⟩ := Ledger.submit_accepted hsubmit
    -- the new id has a version above every registered one
    have hfresh : (path, version) ∉ state.registered := by
      intro hmem
      obtain ⟨current, hsome, hle⟩ := hinv.versioned _ hmem
      simp only [Ledger.nextVersion, hsome, Option.getD_some] at hversion hle
      omega
    refine ⟨?_, ?_⟩
    · simp only [ManagedPipeline.registered, map_append, map_cons, map_nil, ← append_assoc]
      exact (perm_append_singleton _ _).nodup_iff.mpr (nodup_cons.mpr ⟨hfresh, hinv.nodup⟩)
    · simp only [ManagedPipeline.registered, map_append, map_cons, map_nil, ← append_assoc]
      refine forall_mem_concat (fun id hold => ?_) ⟨version, hcurrent, Nat.le_refl version⟩
      obtain ⟨current, hsome, hle⟩ := hinv.versioned id hold
      obtain ⟨later, hlater, hle'⟩ := hledger id.1 current hsome
      exact ⟨later, hlater, hle.trans hle'⟩
  · exact hinv.of_perm .rfl hledger

theorem RegisteredInv.pipeline (hinv : RegisteredInv state)
    (hstep : state.pipeline.step config action = some next) :
    RegisteredInv { state.record action with pipeline := next } := by
  have hledger := Pipeline.notBefore_step hstep
  cases Pipeline.effect_of_step hstep with
  | submits path groupUuid sizeBytes rssBytes onSuccess =>
    exact hinv.submit path groupUuid sizeBytes rssBytes onSuccess
  | compression heffect =>
    refine hinv.of_perm ?_ hledger
    cases heffect with
    | evicts hpick hqueue =>
      simp only [ManagedPipeline.record, hqueue, ManagedPipeline.registered, pick_eq hpick,
        map_append, map_cons]
      exact List.Perm.refl _
    | enqueues hpick =>
      simp only [ManagedPipeline.record, hpick]
      simp only [ManagedPipeline.registered, pick_eq hpick, map_append, map_cons, cons_append,
        ← append_assoc]
      exact perm_middle.symm
    | dispatchesSingle | dispatchesGroup | collects | compresses | fails
    | releases | releasesFailed | finishes | finishesFailed =>
      exact List.Perm.refl _
  | storage heffect =>
    refine hinv.of_perm ?_ hledger
    cases heffect with
    | quiet hpick hquiet hbytes haction =>
      rw [PipelineAction.record_of_isQuiet haction]
      exact List.Perm.refl _
    | takes | skips | begins | lands | returns | leaves =>
      exact List.Perm.refl _
  | notifiesEvicted hpick =>
    refine hinv.of_perm ?_ hledger
    simp only [ManagedPipeline.record, ManagedPipeline.registered,
      pick_eq hpick, map_append, map_cons]
    exact List.Perm.refl _
  | emits hpick | reports hpick =>
    refine hinv.of_perm ?_ hledger
    simp only [ManagedPipeline.record, hpick]
    exact List.Perm.refl _
  | uploads | storageFails => exact hinv.of_perm .rfl hledger

/-! Shutdown. -/

/-- Worker threads return once the queue is empty for good. -/
structure DrainInv (workerCount : Nat) (state : ManagedPipeline) : Prop where
  busy : state.pipeline.compression.workers.length ≤ state.threads
  empty : state.threads < workerCount →
    state.stopping = true ∧ state.pipeline.compression.taskQueue = []
  joined : state.storageStopping = true → state.threads = 0

theorem Pipeline.queue_nil_step {state : Pipeline} (hstep : state.step config action = some next)
    (hnil : state.compression.taskQueue = []) (haction : ∀ submitter, action ≠ .enqueue submitter) :
    next.compression.taskQueue = [] := by
  cases Pipeline.effect_of_step hstep with
  | submits =>
    unfold Pipeline.submit
    split <;> exact hnil
  | compression heffect =>
    cases heffect with
    | evicts hpick hqueue =>
      rw [hnil] at hqueue
      cases hqueue
    | enqueues => exact absurd rfl (haction _)
    | dispatchesSingle htake | dispatchesGroup htake =>
      rw [hnil] at htake
      cases htake
    | collects => simp [hnil]
    | compresses | fails | releases | releasesFailed | finishes
    | finishesFailed => exact hnil
  | storage | notifiesEvicted | emits | reports | uploads
  | storageFails => exact hnil

theorem Pipeline.workers_length_step {state : Pipeline}
    (hstep : state.step config action = some next) :
    next.compression.workers.length ≤ state.compression.workers.length ∨
      (action = .dispatch ∧ next.compression.workers.length =
        state.compression.workers.length + 1) := by
  cases Pipeline.effect_of_step hstep with
  | submits =>
    unfold Pipeline.submit
    split <;> exact Or.inl (Nat.le_refl _)
  | compression heffect =>
    cases heffect with
    | dispatchesSingle | dispatchesGroup => exact Or.inr ⟨rfl, by simp⟩
    | evicts | enqueues => exact Or.inl (Nat.le_refl _)
    | collects hpick | compresses hpick | fails hpick | releases hpick
    | releasesFailed hpick | finishes hpick | finishesFailed hpick =>
      left
      simp [pick_eq hpick]
  | emits hpick | reports hpick =>
    left
    simp [pick_eq hpick]
  | storage | notifiesEvicted | uploads | storageFails =>
    exact Or.inl (Nat.le_refl _)

theorem ManagedPipeline.record_flags (state : ManagedPipeline) (action : PipelineAction) :
    (state.record action).stopping = state.stopping ∧
      (state.record action).threads = state.threads ∧
      (state.record action).storageStopping = state.storageStopping := by
  unfold ManagedPipeline.record
  split <;> first
    | exact ⟨rfl, rfl, rfl⟩
    | (split <;> exact ⟨rfl, rfl, rfl⟩)

variable {workerCount : Nat}

theorem DrainInv.pipeline (hinv : DrainInv workerCount state) (hallows : state.allows action = true)
    (hstep : state.pipeline.step config action = some next) :
    DrainInv workerCount { state.record action with pipeline := next } := by
  obtain ⟨hstopping, hthreads, hstorage⟩ := state.record_flags action
  refine ⟨?_, ?_, ?_⟩
  · simp only [hthreads]
    rcases Pipeline.workers_length_step hstep with hle | ⟨rfl, hsucc⟩
    · exact hle.trans hinv.busy
    · simp only [ManagedPipeline.allows, decide_eq_true_eq] at hallows
      omega
  · simp only [hthreads, hstopping]
    intro hlt
    obtain ⟨hstop, hnil⟩ := hinv.empty hlt
    refine ⟨hstop, Pipeline.queue_nil_step hstep hnil ?_⟩
    rintro submitter rfl
    simp [ManagedPipeline.allows, hstop] at hallows
  · simp only [hthreads, hstorage]
    exact hinv.joined

/-! Whole runs. -/

structure ManagedInv (workerCount : Nat) (state : ManagedPipeline) : Prop where
  conserved : state.Conserved
  registered : RegisteredInv state
  groups : GroupsInv state.pipeline.compression
  drain : DrainInv workerCount state

theorem managedInv_initial (bucket : Bucket) (nextDispatch workerCount : Nat) :
    ManagedInv workerCount (ManagedPipeline.initial bucket nextDispatch workerCount) :=
  ⟨fun _ => rfl, ⟨nodup_nil, by
      simp [ManagedPipeline.registered, ManagedPipeline.initial, Pipeline.initialWith]⟩,
    groupsInv_initial 1 nextDispatch,
    ⟨Nat.zero_le _, fun hlt => absurd hlt (Nat.lt_irrefl _), fun hstorage => by cases hstorage⟩⟩

theorem CompressionState.refuse_eq {state next : CompressionState}
    {submitter : Nat} (hrefuse : state.refuse config submitter = some next) :
    ∃ before held after, state.submitters = before ++ held :: after ∧
      next = { state with submitters := before ++ after } := by
  unfold CompressionState.refuse at hrefuse
  split at hrefuse
  · next hpick =>
    split at hrefuse
    · cases hrefuse
      exact ⟨_, _, _, pick_eq hpick, rfl⟩
    · cases hrefuse
  · cases hrefuse

theorem ManagedInv.step {next : ManagedPipeline} (hinv : ManagedInv workerCount state)
    {action : ManagedAction} (hstep : state.step config action = some next) :
    ManagedInv workerCount next := by
  cases action with
  | pipeline action =>
    simp only [ManagedPipeline.step] at hstep
    split at hstep
    · next hallows =>
      obtain ⟨result, hresult, rfl⟩ := Option.map_eq_some_iff.mp hstep
      exact ⟨hinv.conserved.pipeline hresult, hinv.registered.pipeline hresult,
        hinv.groups.step hresult, hinv.drain.pipeline hallows hresult⟩
    · cases hstep
  | refuse submitter =>
    simp only [ManagedPipeline.step] at hstep
    split at hstep
    · obtain ⟨result, hresult, rfl⟩ := Option.map_eq_some_iff.mp hstep
      obtain ⟨before, held, after, hsubmitters, rfl⟩ := CompressionState.refuse_eq hresult
      refine ⟨hinv.conserved, hinv.registered.of_sublist ?_ rfl, hinv.groups.of_workers_eq rfl rfl,
        hinv.drain.busy, hinv.drain.empty, hinv.drain.joined⟩
      simp only [ManagedPipeline.registered, hsubmitters, map_append, map_cons]
      exact ((sublist_cons_self _ _).append_left _).append_left _
    · cases hstep
  | shutdown =>
    cases hstep
    exact ⟨hinv.conserved, ⟨hinv.registered.nodup, hinv.registered.versioned⟩, hinv.groups,
        hinv.drain.busy, fun hlt => ⟨rfl, (hinv.drain.empty hlt).2⟩, hinv.drain.joined⟩
  | workerReturns =>
    simp only [ManagedPipeline.step] at hstep
    split at hstep
    · next hidle =>
      cases hstep
      simp only [Bool.and_eq_true, List.isEmpty_iff, decide_eq_true_eq] at hidle
      refine ⟨hinv.conserved, ⟨hinv.registered.nodup, hinv.registered.versioned⟩, hinv.groups, ?_,
        fun _ => hidle.1, fun hstorage => ?_⟩
      · exact Nat.le_sub_one_of_lt hidle.2
      · simp only [hinv.drain.joined hstorage]
    · cases hstep
  | shutdownStorage =>
    simp only [ManagedPipeline.step] at hstep
    split at hstep
    · next hjoined =>
      cases hstep
      simp only [Bool.and_eq_true, beq_iff_eq] at hjoined
      exact ⟨hinv.conserved, ⟨hinv.registered.nodup, hinv.registered.versioned⟩, hinv.groups,
          hinv.drain.busy, hinv.drain.empty, fun _ => hjoined.2⟩
    · cases hstep

theorem ManagedInv.queueConserved (hinv : ManagedInv workerCount state)
    (hworkers : 0 < workerCount) : QueueConserved state := by
  have hnodup : state.accepted.Nodup := (nodup_append.mp hinv.registered.nodup).1
  refine ⟨?_, ?_, ?_, hinv.groups.exclusive, ?_, ?_⟩
  · intro id hid
    rw [← hinv.conserved id]
    exact count_eq_one_of_mem hnodup hid
  · intro id hid
    have hpos := count_pos_iff.mpr hid
    rw [← hinv.conserved id] at hpos
    exact count_pos_iff.mp hpos
  · intro worker hworker
    exact oneGroup_of_key (hinv.groups.keyed worker hworker) (hinv.groups.single worker hworker)
  · intro hthreads
    exact (hinv.drain.empty (hthreads ▸ hworkers)).2
  · intro hstorage
    have hbusy := hinv.drain.busy
    rw [hinv.drain.joined hstorage] at hbusy
    exact eq_nil_of_length_eq_zero (Nat.le_zero.mp hbusy)

/-- For every run of submitters, workers and `Shutdown`, whatever their order. -/
theorem queueConserved_of_run {config : PipelineConfig} {bucket : Bucket}
    {nextDispatch workerCount : Nat} (hworkers : 0 < workerCount) {actions : List ManagedAction}
    {state : ManagedPipeline} (hrun : runFrom (ManagedPipeline.step config)
      (ManagedPipeline.initial bucket nextDispatch workerCount) actions = some state) :
    QueueConserved state := by
  have hinv : ManagedInv workerCount state :=
    run_invariant (fun _ _ _ hinv _ hstep => hinv.step hstep)
      (managedInv_initial bucket nextDispatch workerCount)
      (meets_of_forall_mem fun _ _ => trivial) hrun
  exact hinv.queueConserved hworkers

/-- One worker compresses a group of two and returns after `Shutdown`; a later
submission is refused. -/
def stoppedAfterGroup : List ManagedAction :=
  ([.submit firstChunk (ascii "g") 1 0 none, .enqueue 0,
    .submit secondChunk (ascii "g") 1 0 none, .dispatch, .enqueue 0,
    .collect 0, .compress 0 [1, 1] [1, 1], .emit 0, .releaseRaw 0, .emit 0,
    .releaseRaw 0, .finish 0].map ManagedAction.pipeline) ++
  [.shutdown, .workerReturns, .pipeline (.submit (ascii "late") [] 1 0 none), .refuse 0,
    .shutdownStorage]

theorem queueConserved_stoppedAfterGroup : ∃ final, runFrom (ManagedPipeline.step ⟨2, 2, 0, false⟩)
    (ManagedPipeline.initial (fun _ => none) 0 1) stoppedAfterGroup = some final ∧
    final.emitted = [(secondChunk, 1), (firstChunk, 1)] ∧
    final.threads = 0 ∧ QueueConserved final := by
  obtain ⟨final, hrun⟩ : ∃ final, runFrom (ManagedPipeline.step ⟨2, 2, 0, false⟩)
      (ManagedPipeline.initial (fun _ => none) 0 1) stoppedAfterGroup = some final := ⟨_, rfl⟩
  have hemitted : final.emitted = [(secondChunk, 1), (firstChunk, 1)] ∧ final.threads = 0 := by
    cases hrun
    exact ⟨by decide, by decide⟩
  exact ⟨final, hrun, hemitted.1, hemitted.2, queueConserved_of_run (by decide) hrun⟩

end CatKV
