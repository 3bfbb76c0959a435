/-
The CPU memory store in front of the pipeline.  `Offload` remembers every path
it was given, so a path it forgets elsewhere is never offloaded again.  The
store's entry goes when an upload succeeds and also when a submission is
dropped, and the second is where a path can be lost.
-/
import CatKV.UploadPresence

namespace CatKV

/-- An offload on its way to `SubmitRemote`; `entry` names the store entry its
callbacks compare with. -/
structure OffloadJob where
  path : Bytes
  groupUuid : Bytes
  entry : Nat
deriving Repr, DecidableEq

/-- `preparing` are callers between the two critical sections of a GPU
`Offload`, `submitting` are threads inside `SubmitRemote`, and `dropping` is
the thread that runs `on_drop` while it holds the pipeline's state mutex. -/
structure MemoryStore where
  storage : Bytes → Option Nat
  remoteSeenPaths : List Bytes
  nextEntry : Nat
  preparing : List OffloadJob
  jobs : List OffloadJob
  submitting : List OffloadJob
  dropping : Option OffloadJob
  pipeline : Pipeline

def MemoryStore.initial : MemoryStore := ⟨fun _ => none, [], 0, [], [], [], none, Pipeline.initial⟩

inductive StoreAction where
  | offload (path groupUuid : Bytes) (allCpu : Bool)
  | pushJob (thread : Nat)
  | prepareThrows (thread : Nat)
  | popJob
  | submitRemote (thread sizeBytes rssBytes : Nat)
  | submitThrows (thread : Nat)
  | onDrop
  | clear
  | pipeline (action : PipelineAction)
deriving Repr, DecidableEq

/-- Both callbacks: the entry is erased if it is still the one stored. -/
def MemoryStore.eraseEntry (store : MemoryStore) (path : Bytes) (entry : Nat) : MemoryStore :=
  if store.storage path = some entry then
    { store with storage := Function.update store.storage path none }
  else store

/-- The first critical section of `Offload` with remote upload enabled.  An
empty path is rejected. -/
def MemoryStore.offload (store : MemoryStore) (path groupUuid : Bytes)
    (allCpu : Bool) : Option MemoryStore :=
  if path = [] then none
  else if path ∈ store.remoteSeenPaths then some store
  else
    let job : OffloadJob := ⟨path, groupUuid, store.nextEntry⟩
    let stored : MemoryStore := { store with
      storage := Function.update store.storage path (some store.nextEntry)
      remoteSeenPaths := path :: store.remoteSeenPaths
      nextEntry := store.nextEntry + 1 }
    if allCpu then some { stored with submitting := stored.submitting ++ [job] }
    else some { stored with preparing := stored.preparing ++ [job] }

def MemoryStore.pushJob (store : MemoryStore) (thread : Nat) : Option MemoryStore :=
  match pick store.preparing thread with
  | some (before, job, after) =>
    some { store with
      preparing := before ++ after
      jobs := store.jobs ++ [job] }
  | none => none

/-- A CUDA error while the tensors are prepared goes to the caller. -/
def MemoryStore.prepareThrows (store : MemoryStore) (thread : Nat) : Option MemoryStore :=
  match pick store.preparing thread with
  | some (before, _, after) => some { store with preparing := before ++ after }
  | none => none

def MemoryStore.popJob (store : MemoryStore) : Option MemoryStore :=
  match store.jobs with
  | [] => none
  | job :: rest =>
    some { store with
      jobs := rest
      submitting := store.submitting ++ [job] }

/-- `Submit` up to the end of its locked part.  A dropped submission goes on to
`on_drop` with the lock held. -/
def MemoryStore.submitRemote (config : PipelineConfig) (store : MemoryStore)
    (thread sizeBytes rssBytes : Nat) : Option MemoryStore :=
  match store.dropping, pick store.submitting thread with
  | none, some (before, job, after) =>
    let submitted : MemoryStore := { store with
      submitting := before ++ after
      pipeline := store.pipeline.submit config job.path job.groupUuid
        sizeBytes rssBytes (some job.entry) }
    match (store.pipeline.ledger.submit job.path
        (rssExceeded config.maxProcessRssBytes rssBytes)).1 with
    | .accepted _ => some submitted
    | .droppedDuplicate => some { submitted with dropping := some job }
    | .droppedRss => some { submitted with dropping := some job }
  | _, _ => none

/-- `SnapshotCpuKV` rejects the tensors. -/
def MemoryStore.submitThrows (store : MemoryStore) (thread : Nat) : Option MemoryStore :=
  match pick store.submitting thread with
  | some (before, _, after) =>
    some { store with submitting := before ++ after }
  | none => none

def MemoryStore.onDrop (store : MemoryStore) : Option MemoryStore :=
  match store.dropping with
  | none => none
  | some job =>
    some { store.eraseEntry job.path job.entry with dropping := none }

def MemoryStore.clear (store : MemoryStore) : MemoryStore :=
  { store with storage := fun _ => none, remoteSeenPaths := [] }

/-- Actions that need the pipeline's state mutex. -/
def PipelineAction.locksState : PipelineAction → Bool
  | .submit _ _ _ _ _ => true
  | .notifyEvicted _ => true
  | .reportError _ => true
  | .finalize _ => true
  | _ => false

/-- `on_success` of a finished task. -/
def MemoryStore.onSuccess (store : MemoryStore) (saver : Nat) : MemoryStore :=
  match pick store.pipeline.storage.savers saver with
  | some (_, ⟨task, .notifying⟩, _) =>
    match task.onSuccess with
    | some entry => store.eraseEntry task.cacheKey entry
    | none => store
  | _ => store

/-- The pipeline belongs to the store: only `SubmitRemote` submits to it. -/
def MemoryStore.pipelineStep (config : PipelineConfig) (store : MemoryStore)
    (action : PipelineAction) : Option MemoryStore :=
  match action with
  | .submit _ _ _ _ _ => none
  | .notify saver =>
    (store.pipeline.step config (.notify saver)).map fun pipeline =>
      { store.onSuccess saver with pipeline := pipeline }
  | action =>
    if action.locksState && store.dropping.isSome then none
    else (store.pipeline.step config action).map fun pipeline =>
      { store with pipeline := pipeline }

def MemoryStore.step (config : PipelineConfig) (store : MemoryStore) :
    StoreAction → Option MemoryStore
  | .offload path groupUuid allCpu => store.offload path groupUuid allCpu
  | .pushJob thread => store.pushJob thread
  | .prepareThrows thread => store.prepareThrows thread
  | .popJob => store.popJob
  | .submitRemote thread sizeBytes rssBytes =>
    store.submitRemote config thread sizeBytes rssBytes
  | .submitThrows thread => store.submitThrows thread
  | .onDrop => store.onDrop
  | .clear => some store.clear
  | .pipeline action => store.pipelineStep config action

/-- The path is loadable or still on its way. -/
def MemoryStore.onItsWay (store : MemoryStore) (path : Bytes) : Bool :=
  (store.storage path).isSome || (store.preparing ++ store.jobs ++ store.submitting).any
      (fun job => job.path == path) ||
    store.pipeline.ledger.alreadyPending path ||
    store.pipeline.ledger.contains path

def NoBlackHole (store : MemoryStore) : Prop :=
  ∀ path ∈ store.remoteSeenPaths, store.onItsWay path = true

/-- A submission is dropped only for a path the pipeline contains: no upload of
the path is pending, and the process is below its memory limit. -/
def submitsFresh (config : PipelineConfig) (store : MemoryStore) : StoreAction → Bool
  | .submitRemote thread _ rssBytes =>
    match pick store.submitting thread with
    | some (_, job, _) =>
      store.pipeline.ledger.contains job.path || (!store.pipeline.ledger.alreadyPending job.path &&
          !rssExceeded config.maxProcessRssBytes rssBytes)
    | none => true
  | _ => true

/-! The invariant. -/

/-- A worker that runs `on_success` has made its path contained. -/
def Pipeline.NotifiesContained (state : Pipeline) : Prop :=
  ∀ saver ∈ state.storage.savers, saver.phase = .notifying →
    state.ledger.contains saver.task.cacheKey = true

theorem StorageEffect.notifying {config : PipelineConfig} {state result : StorageState}
    {action : PipelineAction} (heffect : StorageEffect config state action result) {saver : Saver}
    (hsaver : saver ∈ result.savers) (hphase : saver.phase = .notifying) :
    saver ∈ state.savers := by
  -- no effect inside the storage manager moves a worker to this phase
  have hreplace : ∀ {before after : List Saver} {index : Nat}
      {old new : Saver}, pick state.savers index = some (before, old, after) →
      new.phase ≠ .notifying → saver ∈ before ++ new :: after →
      saver ∈ state.savers := by
    intro before after index old new hpick hnew hmem
    rcases List.mem_append.mp hmem with hbefore | htail
    · exact mem_of_pick_others hpick (List.mem_append_left _ hbefore)
    · rcases List.mem_cons.mp htail with rfl | hafter
      · exact absurd hphase hnew
      · exact mem_of_pick_others hpick (List.mem_append_right _ hafter)
  cases heffect with
  | takes hqueue =>
    rcases List.mem_append.mp hsaver with hold | hnew
    · exact hold
    · rw [List.mem_singleton.mp hnew] at hphase
      cases hphase
  | skips hpick => exact hreplace hpick (by simp) hsaver
  | @begins index before after task hpick hskip =>
    refine hreplace hpick ?_ hsaver
    intro hnotifying
    have hlive := beginSave_live state.savedSharedKeySvPaths task
    simp only at hnotifying
    rw [hnotifying] at hlive
    cases hlive
  | lands hpick => exact hreplace hpick (by simp) hsaver
  | @returns index before after task kind hpick =>
    refine hreplace hpick ?_ hsaver
    cases kind <;> simp [SaveKind.next]
  | quiet hpick hquiet =>
    refine hreplace hpick ?_ hsaver
    cases hquiet <;> simp
  | leaves hpick => exact mem_of_pick_others hpick hsaver

theorem Pipeline.NotifiesContained.step {config : PipelineConfig} {state next : Pipeline}
    {action : PipelineAction} (hinv : state.NotifiesContained) (hconsistent : state.Consistent)
    (hstep : state.step config action = some next) : next.NotifiesContained := by
  intro saver hsaver hphase
  have hold : saver ∈ state.storage.savers →
      next.ledger.contains saver.task.cacheKey = true := fun hmem =>
    Pipeline.contains_of_step hstep (hinv saver hmem hphase)
  cases Pipeline.effect_of_step hstep with
  | submits =>
    rw [Pipeline.submit_storage] at hsaver
    exact hold hsaver
  | storage heffect => exact hold (heffect.notifying hsaver hphase)
  | compression | notifiesEvicted | emits | reports => exact hold hsaver
  | @uploads index before after task hpick =>
    rcases List.mem_append.mp hsaver with hbefore | htail
    · exact hold (mem_of_pick_others hpick (List.mem_append_left _ hbefore))
    · rcases List.mem_cons.mp htail with rfl | hafter
      · refine Ledger.contains_finalizeSuccess.mpr (Or.inr ⟨rfl, ?_⟩)
        exact LedgerInv.live_current hconsistent
          (Pipeline.mem_live_of_saver (mem_of_pick hpick) (by simp))
      · exact hold (mem_of_pick_others hpick (List.mem_append_right _ hafter))
  | storageFails hpick => exact hold (mem_of_pick_others hpick hsaver)

structure StoreInv (store : MemoryStore) : Prop where
  consistent : store.pipeline.Consistent
  notifies : store.pipeline.NotifiesContained
  drops : ∀ job, store.dropping = some job → store.pipeline.ledger.contains job.path = true
  seen : ∀ path ∈ store.remoteSeenPaths, (store.storage path).isSome ∨
    store.pipeline.ledger.contains path = true

theorem storeInv_initial : StoreInv MemoryStore.initial :=
  ⟨consistent_initial _ _,
    by simp [Pipeline.NotifiesContained, MemoryStore.initial, Pipeline.initial,
      Pipeline.initialWith],
    by simp [MemoryStore.initial], by simp [MemoryStore.initial]⟩

theorem StoreInv.noBlackHole {store : MemoryStore} (hinv : StoreInv store) : NoBlackHole store := by
  intro path hpath
  rcases hinv.seen path hpath with hstored | hcontains
  · simp [MemoryStore.onItsWay, hstored]
  · simp [MemoryStore.onItsWay, hcontains]

theorem MemoryStore.eraseEntry_storage {store : MemoryStore} {other : Bytes}
    (path : Bytes) (entry : Nat) (hstored : (store.storage other).isSome) :
    ((store.eraseEntry path entry).storage other).isSome ∨ other = path := by
  unfold MemoryStore.eraseEntry
  split
  · by_cases hpath : other = path
    · exact Or.inr hpath
    · left
      simpa [hpath] using hstored
  · exact Or.inl hstored

@[simp] theorem MemoryStore.eraseEntry_seen (store : MemoryStore) (path : Bytes) (entry : Nat) :
    (store.eraseEntry path entry).remoteSeenPaths = store.remoteSeenPaths := by
  unfold MemoryStore.eraseEntry
  split <;> rfl

@[simp] theorem MemoryStore.eraseEntry_dropping (store : MemoryStore) (path : Bytes) (entry : Nat) :
    (store.eraseEntry path entry).dropping = store.dropping := by
  unfold MemoryStore.eraseEntry
  split <;> rfl

@[simp] theorem MemoryStore.eraseEntry_pipeline (store : MemoryStore) (path : Bytes) (entry : Nat) :
    (store.eraseEntry path entry).pipeline = store.pipeline := by
  unfold MemoryStore.eraseEntry
  split <;> rfl

theorem StoreInv.eraseEntry {store : MemoryStore} (hinv : StoreInv store)
    {path : Bytes} (hcontains : store.pipeline.ledger.contains path = true)
    (entry : Nat) : StoreInv (store.eraseEntry path entry) := by
  refine ⟨by simpa using hinv.consistent, by simpa using hinv.notifies,
    by simpa using hinv.drops, ?_⟩
  intro other hother
  rw [MemoryStore.eraseEntry_seen] at hother
  rw [MemoryStore.eraseEntry_pipeline]
  rcases hinv.seen other hother with hstored | hcontained
  · rcases MemoryStore.eraseEntry_storage path entry hstored with hkept | rfl
    · exact Or.inl hkept
    · exact Or.inr hcontains
  · exact Or.inr hcontained

section Step

variable {config : PipelineConfig} {store next : MemoryStore}

section

variable (hinv : StoreInv store)

include hinv

theorem StoreInv.offload {path groupUuid : Bytes} {allCpu : Bool}
    (hstep : store.offload path groupUuid allCpu = some next) : StoreInv next := by
  -- a new path is stored and remembered in one critical section
  have hstored : ∀ other ∈ path :: store.remoteSeenPaths,
      (Function.update store.storage path (some store.nextEntry)
        other).isSome ∨ store.pipeline.ledger.contains other = true := by
    intro other hother
    by_cases hpath : other = path
    · left
      rw [hpath, Function.update_self]
      rfl
    · rw [Function.update_of_ne hpath]
      exact hinv.seen other ((List.mem_cons.mp hother).resolve_left hpath)
  unfold MemoryStore.offload at hstep
  split at hstep
  · cases hstep
  · split at hstep
    · cases hstep
      exact hinv
    · simp only at hstep
      split at hstep
      · cases hstep
        exact ⟨hinv.consistent, hinv.notifies, hinv.drops, hstored⟩
      · cases hstep
        exact ⟨hinv.consistent, hinv.notifies, hinv.drops, hstored⟩

theorem StoreInv.withPipeline {pipeline : Pipeline} {action : PipelineAction}
    (hstep : store.pipeline.step config action = some pipeline) :
    StoreInv { store with pipeline := pipeline } := by
  refine ⟨hinv.consistent.step hstep, hinv.notifies.step hinv.consistent hstep, ?_, ?_⟩
  · intro job hjob
    exact Pipeline.contains_of_step hstep (hinv.drops job hjob)
  · intro path hpath
    exact (hinv.seen path hpath).imp_right (Pipeline.contains_of_step hstep)

omit hinv in
theorem Ledger.contains_of_dropped {ledger : Ledger} {path : Bytes} {overLimit : Bool}
    (hfresh : (ledger.contains path ||
      (!ledger.alreadyPending path && !overLimit)) = true) (hdropped : ∀ version,
      (ledger.submit path overLimit).1 ≠ .accepted version) : ledger.contains path = true := by
  by_contra habsent
  simp only [Bool.or_eq_true, habsent, false_or, Bool.and_eq_true, Bool.not_eq_true'] at hfresh
  refine hdropped (ledger.nextVersion path) ?_
  simp [Ledger.submit, hfresh.1, hfresh.2, habsent]

theorem StoreInv.submitRemote {thread sizeBytes rssBytes : Nat} (hfresh : submitsFresh config store
      (.submitRemote thread sizeBytes rssBytes) = true)
    (hstep : store.submitRemote config thread sizeBytes rssBytes = some next) : StoreInv next := by
  unfold MemoryStore.submitRemote at hstep
  split at hstep
  · next before job after hdropping hpick =>
    have hpipeline : store.pipeline.step config (.submit job.path
        job.groupUuid sizeBytes rssBytes (some job.entry)) =
      some (store.pipeline.submit config job.path job.groupUuid sizeBytes
        rssBytes (some job.entry)) := rfl
    obtain ⟨hconsistent, hnotifies, hdrops, hseen⟩ := hinv.withPipeline hpipeline
    simp only [submitsFresh, hpick] at hfresh
    -- on_drop may run, since only a contained path is dropped
    have hdropped : (∀ version, (store.pipeline.ledger.submit job.path
          (rssExceeded config.maxProcessRssBytes rssBytes)).1 ≠ .accepted version) →
        ∀ dropped, some job = some dropped →
          (store.pipeline.submit config job.path job.groupUuid sizeBytes
            rssBytes (some job.entry)).ledger.contains dropped.path = true := by
      rintro hrejected dropped hjob
      cases hjob
      exact Pipeline.contains_of_step hpipeline (Ledger.contains_of_dropped hfresh hrejected)
    simp only at hstep
    split at hstep
    · cases hstep
      exact ⟨hconsistent, hnotifies, hdrops, hseen⟩
    · next hduplicate =>
      cases hstep
      exact ⟨hconsistent, hnotifies, hdropped (fun version => by simp [hduplicate]), hseen⟩
    · next hrss =>
      cases hstep
      exact ⟨hconsistent, hnotifies, hdropped (fun version => by simp [hrss]), hseen⟩
  · cases hstep

theorem StoreInv.onDrop (hstep : store.onDrop = some next) : StoreInv next := by
  unfold MemoryStore.onDrop at hstep
  split at hstep
  · cases hstep
  · next job hjob =>
    cases hstep
    obtain ⟨hconsistent, hnotifies, _, hseen⟩ := hinv.eraseEntry (hinv.drops job hjob) job.entry
    exact ⟨hconsistent, hnotifies, by simp, hseen⟩

theorem StoreInv.onSuccess (saver : Nat) : StoreInv (store.onSuccess saver) := by
  unfold MemoryStore.onSuccess
  split
  · next before task after hpick =>
    split
    · next entry hentry =>
      exact hinv.eraseEntry (hinv.notifies _ (mem_of_pick hpick) rfl) entry
    · exact hinv
  · exact hinv

omit hinv in
theorem MemoryStore.onSuccess_pipeline (store : MemoryStore) (saver : Nat) :
    (store.onSuccess saver).pipeline = store.pipeline := by
  unfold MemoryStore.onSuccess
  split
  · split
    · simp
    · rfl
  · rfl

theorem StoreInv.pipelineStep {action : PipelineAction}
    (hstep : store.pipelineStep config action = some next) : StoreInv next := by
  unfold MemoryStore.pipelineStep at hstep
  split at hstep
  · cases hstep
  · next saver =>
    obtain ⟨pipeline, hpipeline, rfl⟩ := Option.map_eq_some_iff.mp hstep
    rw [← MemoryStore.onSuccess_pipeline store saver] at hpipeline
    exact (hinv.onSuccess saver).withPipeline hpipeline
  · split at hstep
    · cases hstep
    · obtain ⟨pipeline, hpipeline, rfl⟩ := Option.map_eq_some_iff.mp hstep
      exact hinv.withPipeline hpipeline

theorem StoreInv.step {action : StoreAction} (hfresh : submitsFresh config store action = true)
    (hstep : store.step config action = some next) : StoreInv next := by
  cases action with
  | offload path groupUuid allCpu => exact hinv.offload hstep
  | pushJob thread | prepareThrows thread | submitThrows thread =>
    simp only [MemoryStore.step, MemoryStore.pushJob, MemoryStore.prepareThrows,
      MemoryStore.submitThrows] at hstep
    split at hstep
    · cases hstep
      exact ⟨hinv.consistent, hinv.notifies, hinv.drops, hinv.seen⟩
    · cases hstep
  | popJob =>
    simp only [MemoryStore.step, MemoryStore.popJob] at hstep
    split at hstep
    · cases hstep
    · cases hstep
      exact ⟨hinv.consistent, hinv.notifies, hinv.drops, hinv.seen⟩
  | submitRemote thread sizeBytes rssBytes =>
    exact hinv.submitRemote hfresh hstep
  | onDrop => exact hinv.onDrop hstep
  | clear =>
    cases hstep
    exact ⟨hinv.consistent, hinv.notifies, hinv.drops, by
      simp [MemoryStore.clear]⟩
  | pipeline action => exact hinv.pipelineStep hstep

end

end Step

/-- In every run in which only uploaded paths are dropped, `Offload` turns no
path away that is lost. -/
theorem noBlackHole_of_meets {config : PipelineConfig} {actions : List StoreAction}
    {final : MemoryStore} (hmeets : Meets (MemoryStore.step config)
      (fun store action => submitsFresh config store action = true)
      MemoryStore.initial actions)
    (hrun : runFrom (MemoryStore.step config) MemoryStore.initial actions =
      some final) : NoBlackHole final := by
  have hinv : StoreInv final :=
    run_invariant (fun store action next hinv hfresh hstep =>
      hinv.step hfresh hstep) storeInv_initial hmeets hrun
  exact hinv.noBlackHole

/-- An upload from `Offload` to `on_success`. -/
def offloadUploaded : List StoreAction :=
  .offload firstChunk [] true :: .submitRemote 0 1 0 ::
    List.map .pipeline ([PipelineAction.enqueue 0, .dispatch,
      .compress 0 [1] [1], .emit 0, .releaseRaw 0, .finish 0, .take, .save 0] ++
      writeObject 0 ++ writeObject 0 ++ [.releaseSave 0, .finalize 0, .notify 0])

/-- After the upload the entry is gone and the pipeline has the path. -/
theorem noBlackHole_offloadUploaded :
    ∃ final, runFrom (MemoryStore.step unlimited) MemoryStore.initial
      offloadUploaded = some final ∧ final.storage firstChunk = none ∧
      NoBlackHole final := by
  obtain ⟨final, hrun⟩ : ∃ final, runFrom (MemoryStore.step unlimited)
      MemoryStore.initial offloadUploaded = some final := ⟨_, rfl⟩
  have hstorage : final.storage firstChunk = none := by
    cases hrun
    rfl
  exact ⟨final, hrun, hstorage, noBlackHole_of_meets (by decide +kernel) hrun⟩

/-- At the memory limit the only submission of a path is dropped with its
entry, and the path stays in `remote_seen_paths`. -/
theorem not_noBlackHole_rss :
    ∃ final, runFrom (MemoryStore.step ⟨0, 0, 1, false⟩) MemoryStore.initial
      [.offload firstChunk [] true, .submitRemote 0 1 1, .onDrop] =
        some final ∧ ¬ NoBlackHole final := by
  refine ⟨_, rfl, fun hinv => ?_⟩
  exact absurd (hinv firstChunk (by decide)) (by decide)

end CatKV
