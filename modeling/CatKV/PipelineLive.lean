/-
Where the tasks of the pipeline are.  Every step keeps the multiset of live
tasks, adds the task of an accepted submission, or retires one task together
with its pending mark; so the version maps are right about every live task in
every reachable state.
-/
import CatKV.PipelineEffect
import Mathlib.Data.List.Perm.Basic

namespace CatKV

open List

def Submitter.live (submitter : Submitter) : List TaskId :=
  submitter.task.id :: submitter.evicted.toList.map RawTask.id

def WorkerPhase.live : WorkerPhase → List TaskId
  | .collecting batch => batch.map RawTask.id
  | .emitting tasks => tasks.map CompressedTask.id
  | .releasing _ tasks => tasks.map CompressedTask.id
  | .reporting _ failed => failed.map RawTask.id
  | .releasingFailed _ _ failed => failed.map RawTask.id

/-- A task stops being live when its outcome is recorded. -/
def Saver.live (saver : Saver) : List TaskId :=
  match saver.phase with
  | .notifying => []
  | _ => [saver.task.id]

def CompressionState.live (state : CompressionState) : List TaskId :=
  state.submitters.flatMap Submitter.live ++ (state.taskQueue.map RawTask.id ++
      state.workers.flatMap fun worker => worker.phase.live)

def StorageState.live (state : StorageState) : List TaskId :=
  state.taskQueue.map CompressedTask.id ++ state.savers.flatMap Saver.live

def Pipeline.live (state : Pipeline) : List TaskId := state.compression.live ++ state.storage.live

/-! Compression manager. -/

theorem takeDispatchable_perm {active : List Bytes} {queue rest : List RawTask} {key : Bytes}
    {task : RawTask} (htake : takeDispatchable active queue = some (key, task, rest)) :
    queue.Perm (task :: rest) := by
  induction queue generalizing rest with
  | nil => simp [takeDispatchable] at htake
  | cons head tail ih =>
    unfold takeDispatchable at htake
    split at htake
    · cases htake
    · split at htake
      · split at htake
        · cases htake
        · next hrest =>
          cases htake
          exact ((ih hrest).cons head).trans (List.Perm.swap _ _ _)
      · cases htake
        exact List.Perm.refl _

theorem filter_inGroup_count (key : Bytes) (queue : List RawTask) (task : TaskId) :
    ((queue.filter (inGroup key)).map RawTask.id).count task +
        ((queue.filter fun other => !inGroup key other).map RawTask.id).count task =
      (queue.map RawTask.id).count task := by
  have hperm := (filter_append_perm (inGroup key) queue).map RawTask.id
  have hcount := hperm.count_eq task
  rwa [map_append, count_append] at hcount

theorem compressBatch_map {α : Type} {field : CompressedTask → α} {rawField : RawTask → α}
    (hfield : ∀ (task : RawTask) payload size,
      field ⟨task.cacheKey, task.groupUuid, task.version, task.sizeBytes,
        payload, size, task.onSuccess⟩ = rawField task) (dispatch : Nat) (uuid : Uuid)
    (ranks sizes : List Nat) (batch : List RawTask) :
    (compressBatch dispatch uuid ranks sizes batch).map field = batch.map rawField := by
  cases batch with
  | nil => rfl
  | cons first rest =>
    simp only [compressBatch, map_map, Function.comp_def, hfield]
    rw [← Function.comp_def rawField Prod.fst, ← map_map, zipIdx_map_fst]

theorem compressBatch_ids (dispatch : Nat) (uuid : Uuid)
    (ranks sizes : List Nat) (batch : List RawTask) :
    (compressBatch dispatch uuid ranks sizes batch).map CompressedTask.id = batch.map RawTask.id :=
  compressBatch_map (fun _ _ _ => rfl) dispatch uuid ranks sizes batch

variable {config : PipelineConfig} {action : PipelineAction}

theorem CompressionEffect.live_perm {state result : CompressionState}
    (heffect : CompressionEffect config state action result) : result.live.Perm state.live := by
  rw [perm_iff_count]
  intro id
  cases heffect with
  | evicts hpick hqueue hfull =>
    simp only [CompressionState.live, pick_eq hpick, hqueue, flatMap_append, flatMap_cons,
      Submitter.live, Option.toList_some, Option.toList_none, map_cons, map_nil, count_append,
      count_cons, count_nil]
    omega
  | enqueues hpick hfits =>
    simp only [CompressionState.live, pick_eq hpick, flatMap_append, flatMap_cons, Submitter.live,
      Option.toList_none, map_append, map_cons, map_nil, count_append, count_cons, count_nil]
    omega
  | dispatchesSingle htake =>
    have hqueue := ((takeDispatchable_perm htake).map RawTask.id).count_eq id
    simp only [CompressionState.live, flatMap_append, flatMap_cons, flatMap_nil, WorkerPhase.live,
      map_cons, map_nil, count_append, count_cons, count_nil] at hqueue ⊢
    omega
  | @dispatchesGroup key task queue htake hkey =>
    have hqueue := ((takeDispatchable_perm htake).map RawTask.id).count_eq id
    have hsplit := filter_inGroup_count key queue id
    simp only [CompressionState.live, flatMap_append, flatMap_cons, flatMap_nil, WorkerPhase.live,
      map_cons, count_append, count_cons, count_nil] at hqueue ⊢
    omega
  | @collects index before after key batch hpick hkey =>
    have hsplit := filter_inGroup_count key state.taskQueue id
    simp only [CompressionState.live, pick_eq hpick, flatMap_append, flatMap_cons, WorkerPhase.live,
      map_append, count_append]
    omega
  | compresses hpick =>
    simp only [CompressionState.live, pick_eq hpick, flatMap_append,
      flatMap_cons, WorkerPhase.live, compressBatch_ids]
  | fails hpick | releases hpick | releasesFailed hpick =>
    simp only [CompressionState.live, pick_eq hpick, flatMap_append, flatMap_cons, WorkerPhase.live]
  | finishes hpick | finishesFailed hpick =>
    simp only [CompressionState.live, pick_eq hpick, flatMap_append,
      flatMap_cons, WorkerPhase.live, map_nil, nil_append]

/-! Storage manager. -/

theorem Saver.live_of_ne {saver : Saver} (hphase : saver.phase ≠ .notifying) :
    saver.live = [saver.task.id] := by
  unfold Saver.live
  split
  · next hnotifying => exact absurd hnotifying hphase
  · rfl

theorem beginSave_live (claimed : List Bytes) (task : CompressedTask) :
    Saver.live ⟨task, (beginSave claimed task).2⟩ = [task.id] := by
  unfold beginSave
  split
  · rfl
  · split
    · rfl
    · split
      · rfl
      · split
        · simp only
          split <;> rfl
        · rfl

theorem SaveKind.next_live (kind : SaveKind) (task : CompressedTask) :
    Saver.live ⟨task, kind.next⟩ = [task.id] := by
  cases kind <;> rfl

theorem QuietPhase.live_eq {phase phase' : SaverPhase} (hquiet : QuietPhase phase phase')
    (task : CompressedTask) : Saver.live ⟨task, phase'⟩ = Saver.live ⟨task, phase⟩ := by
  cases hquiet <;> rfl

theorem StorageEffect.live_perm {state result : StorageState}
    (heffect : StorageEffect config state action result) : result.live.Perm state.live := by
  -- every worker step but the last keeps the task it works on
  have hreplace : ∀ {before after : List Saver} {saver replaced : Saver},
      state.savers = before ++ saver :: after → replaced.live = saver.live →
      (state.taskQueue.map CompressedTask.id ++
        (before ++ replaced :: after).flatMap Saver.live).Perm state.live := by
    intro before after saver replaced hsavers hlive
    simp only [StorageState.live, hsavers, flatMap_append, flatMap_cons, hlive]
    exact List.Perm.refl _
  cases heffect with
  | takes hqueue =>
    rw [perm_iff_count]
    intro id
    simp only [StorageState.live, hqueue, flatMap_append, flatMap_cons, flatMap_nil, Saver.live,
      map_cons, count_append, count_cons, count_nil]
    omega
  | skips hpick hskip =>
    exact hreplace (pick_eq hpick) rfl
  | begins hpick hskip =>
    exact hreplace (pick_eq hpick) (beginSave_live _ _)
  | lands hpick =>
    exact hreplace (pick_eq hpick) rfl
  | returns hpick =>
    exact hreplace (pick_eq hpick) (SaveKind.next_live _ _)
  | quiet hpick hquiet =>
    exact hreplace (pick_eq hpick) (hquiet.live_eq _)
  | leaves hpick =>
    simp only [StorageState.live, pick_eq hpick, flatMap_append,
      flatMap_cons, Saver.live, nil_append]
    exact List.Perm.refl _

/-! Whole pipeline. -/

theorem Pipeline.submit_live (config : PipelineConfig) (state : Pipeline) (path groupUuid : Bytes)
    (sizeBytes rssBytes : Nat) (onSuccess : Option Nat) :
    ((state.ledger.submit path (rssExceeded config.maxProcessRssBytes rssBytes)).1.live path
        state.live).Perm
      (state.submit config path groupUuid sizeBytes rssBytes onSuccess).live := by
  unfold Pipeline.submit
  split
  · next version ledger hsubmit =>
    rw [hsubmit, perm_iff_count]
    intro id
    simp only [SubmitOutcome.live, Pipeline.live, CompressionState.live, flatMap_append,
      flatMap_cons, flatMap_nil, Submitter.live, RawTask.id, Option.toList_none, map_nil,
      count_append, count_cons, count_nil]
    omega
  · next outcome ledger hrejected hsubmit =>
    rw [hsubmit]
    cases outcome with
    | accepted version => exact absurd rfl (hrejected version)
    | droppedDuplicate => exact List.Perm.refl _
    | droppedRss => exact List.Perm.refl _

/-- The version maps are right about the live tasks. -/
def Pipeline.Consistent (state : Pipeline) : Prop := LedgerInv state.ledger state.live

variable {state : Pipeline}

theorem Pipeline.Consistent.compression (hinv : state.Consistent) {result : CompressionState}
    (hlive : result.live.Perm state.compression.live) :
    Pipeline.Consistent { state with compression := result } :=
  LedgerInv.perm hinv (hlive.symm.append_right state.storage.live)

theorem Pipeline.Consistent.storage (hinv : state.Consistent)
    {result : StorageState} (hlive : result.live.Perm state.storage.live) :
    Pipeline.Consistent { state with storage := result } :=
  LedgerInv.perm hinv (hlive.symm.append_left state.compression.live)

theorem consistent_initial (bucket : Bucket) (nextDispatch : Nat) :
    (Pipeline.initialWith bucket nextDispatch).Consistent :=
  ledgerInv_initial

theorem Pipeline.Consistent.retires {next : Pipeline} (hinv : state.Consistent)
    {path : Bytes} {version : Nat} (hcount : ∀ id, state.live.count id =
      ((path, version) :: next.live).count id) :
    LedgerInv state.ledger ((path, version) :: next.live) :=
  LedgerInv.perm hinv (perm_iff_count.mpr hcount)

theorem Pipeline.Consistent.step (hinv : state.Consistent) {next : Pipeline}
    (hstep : state.step config action = some next) : next.Consistent := by
  cases Pipeline.effect_of_step hstep with
  | submits path groupUuid sizeBytes rssBytes onSuccess =>
    unfold Pipeline.Consistent
    rw [Pipeline.submit_ledger]
    exact (LedgerInv.submit hinv path _).perm (state.submit_live config path
      groupUuid sizeBytes rssBytes onSuccess)
  | compression heffect => exact hinv.compression heffect.live_perm
  | storage heffect => exact hinv.storage heffect.live_perm
  | notifiesEvicted hpick =>
    refine LedgerInv.handleEvicted (hinv.retires fun id => ?_)
    simp only [Pipeline.live, CompressionState.live, pick_eq hpick, flatMap_append, flatMap_cons,
      Submitter.live, RawTask.id, Option.toList_some, Option.toList_none, map_cons, map_nil,
      count_append, count_cons, count_nil]
    omega
  | emits hpick hfits =>
    refine LedgerInv.perm hinv (perm_iff_count.mpr fun id => ?_)
    simp only [Pipeline.live, CompressionState.live, StorageState.live, pick_eq hpick,
      flatMap_append, flatMap_cons, WorkerPhase.live, map_append, map_cons, map_nil, count_append,
      count_cons, count_nil]
    omega
  | reports hpick =>
    refine LedgerInv.finalizeError _ (hinv.retires fun id => ?_)
    simp only [Pipeline.live, CompressionState.live, pick_eq hpick, flatMap_append, flatMap_cons,
      WorkerPhase.live, RawTask.id, map_cons, count_append, count_cons]
    omega
  | uploads hpick =>
    refine LedgerInv.finalizeSuccess (hinv.retires fun id => ?_)
    simp only [Pipeline.live, StorageState.live, pick_eq hpick, flatMap_append, flatMap_cons,
      Saver.live, CompressedTask.id, count_append, count_cons, count_nil]
    omega
  | storageFails hpick =>
    refine LedgerInv.finalizeError _ (hinv.retires fun id => ?_)
    simp only [Pipeline.live, StorageState.live, pick_eq hpick, flatMap_append, flatMap_cons,
      Saver.live, CompressedTask.id, count_append, count_cons, count_nil]
    omega

theorem Pipeline.mem_live_of_saver {saver : Saver} (hsaver : saver ∈ state.storage.savers)
    (hphase : saver.phase ≠ .notifying) : saver.task.id ∈ state.live := by
  simp only [Pipeline.live, StorageState.live, mem_append, mem_flatMap]
  refine Or.inr (Or.inr ⟨saver, hsaver, ?_⟩)
  rw [Saver.live_of_ne hphase]
  exact mem_singleton_self _

theorem Pipeline.Consistent.saver_path_ne (hinv : state.Consistent) {before after : List Saver}
    {saver other : Saver} (hsavers : state.storage.savers = before ++ saver :: after)
    (hother : other ∈ before ++ after) (hphase : saver.phase ≠ .notifying)
    (hphase' : other.phase ≠ .notifying) : other.task.cacheKey ≠ saver.task.cacheKey := by
  have hperm : state.storage.savers.Perm (saver :: (before ++ after)) := by
    rw [hsavers]
    exact perm_middle
  have hnodup : ((state.storage.savers.flatMap Saver.live).map Prod.fst).Nodup := by
    have hall := hinv.live_nodup
    simp only [Pipeline.live, StorageState.live, map_append] at hall
    exact (nodup_append.mp (nodup_append.mp hall).2.1).2.1
  have hcons := ((hperm.flatMap_right Saver.live).map Prod.fst).nodup_iff.mp hnodup
  rw [flatMap_cons, Saver.live_of_ne hphase] at hcons
  simp only [singleton_append, map_cons, nodup_cons] at hcons
  intro hpath
  refine hcons.1 (mem_map.mpr ⟨other.task.id, ?_, hpath⟩)
  refine mem_flatMap.mpr ⟨other, hother, ?_⟩
  rw [Saver.live_of_ne hphase']
  exact mem_singleton_self _

end CatKV
