/-
Where compressed tasks come from.  Only a compression call makes one, so a fact
about every compression output is a fact about every compressed task that any
worker or queue ever holds.
-/
import CatKV.PipelineLive

namespace CatKV

open List

def WorkerPhase.compressed : WorkerPhase → List CompressedTask
  | .emitting tasks => tasks
  | .releasing _ tasks => tasks
  | _ => []

def CompressionState.compressed (state : CompressionState) : List CompressedTask :=
  state.workers.flatMap fun worker => worker.phase.compressed

def StorageState.compressed (state : StorageState) : List CompressedTask :=
  state.taskQueue ++ state.savers.map Saver.task

def Pipeline.compressed (state : Pipeline) : List CompressedTask :=
  state.compression.compressed ++ state.storage.compressed

/-- The task was returned by this compression action. -/
def CompressedBy (state : CompressionState) (action : PipelineAction)
    (task : CompressedTask) : Prop :=
  ∃ worker ranks sizes before key batch after, action = .compress worker ranks sizes ∧
    pick state.workers worker = some (before, ⟨key, .collecting batch⟩, after) ∧
    task ∈ compressBatch state.nextDispatch (state.batchUuid batch) ranks sizes batch

variable {config : PipelineConfig} {action : PipelineAction} {task : CompressedTask}

theorem CompressionEffect.compressed {state result : CompressionState}
    (heffect : CompressionEffect config state action result) (htask : task ∈ result.compressed) :
    task ∈ state.compressed ∨ CompressedBy state action task := by
  cases heffect with
  | evicts | enqueues => exact Or.inl htask
  | dispatchesSingle htake | dispatchesGroup htake =>
    left
    simpa [CompressionState.compressed, WorkerPhase.compressed] using htask
  | compresses hpick =>
    simp only [CompressionState.compressed, pick_eq hpick, flatMap_append, flatMap_cons,
      WorkerPhase.compressed, mem_append, nil_append] at htask ⊢
    rcases htask with hbefore | hbatch | hafter
    · exact Or.inl (Or.inl hbefore)
    · exact Or.inr ⟨_, _, _, _, _, _, _, rfl, hpick, hbatch⟩
    · exact Or.inl (Or.inr hafter)
  | collects hpick | fails hpick | releases hpick | releasesFailed hpick
  | finishes hpick | finishesFailed hpick =>
    left
    simpa [CompressionState.compressed, pick_eq hpick, WorkerPhase.compressed] using htask

variable {state : StorageState}

theorem StorageState.compressed_replace {before after : List Saver} {phase phase' : SaverPhase}
    (hsavers : state.savers = before ++ ⟨task, phase⟩ :: after) :
    state.taskQueue ++ (before ++ ⟨task, phase'⟩ :: after).map Saver.task = state.compressed := by
  simp only [StorageState.compressed, hsavers, map_append, map_cons]

theorem StorageState.compressed_remove {before after : List Saver}
    {saver : Saver} (hsavers : state.savers = before ++ saver :: after) :
    state.taskQueue ++ (before ++ after).map Saver.task ⊆ state.compressed := by
  intro other hother
  simp only [StorageState.compressed, hsavers, map_append, map_cons,
    mem_append, mem_cons] at hother ⊢
  tauto

theorem StorageEffect.compressed {result : StorageState}
    (heffect : StorageEffect config state action result)
    (htask : task ∈ result.compressed) : task ∈ state.compressed := by
  cases heffect with
  | takes hqueue =>
    simp only [StorageState.compressed, hqueue, map_append, map_cons, map_nil, mem_append, mem_cons,
      not_mem_nil, or_false] at htask ⊢
    tauto
  | skips hpick | begins hpick | lands hpick | returns hpick | quiet hpick =>
    exact StorageState.compressed_replace (pick_eq hpick) ▸ htask
  | leaves hpick =>
    exact StorageState.compressed_remove (pick_eq hpick) htask

theorem Pipeline.compressed_step {state next : Pipeline}
    (hstep : state.step config action = some next) (htask : task ∈ next.compressed) :
    task ∈ state.compressed ∨ CompressedBy state.compression action task := by
  cases Pipeline.effect_of_step hstep with
  | submits =>
    left
    unfold Pipeline.submit at htask
    split at htask
    · exact htask
    · exact htask
  | compression heffect =>
    rcases mem_append.mp htask with hmem | hmem
    · exact (heffect.compressed hmem).imp_left (mem_append_left _)
    · exact Or.inl (mem_append_right _ hmem)
  | storage heffect =>
    left
    exact mem_append.mpr ((mem_append.mp htask).imp_right heffect.compressed)
  | notifiesEvicted => exact Or.inl htask
  | emits hpick =>
    left
    simp only [Pipeline.compressed, CompressionState.compressed, StorageState.compressed,
      pick_eq hpick, flatMap_append, flatMap_cons, WorkerPhase.compressed, mem_append, mem_cons,
      not_mem_nil, or_false] at htask ⊢
    tauto
  | reports hpick =>
    left
    simpa [Pipeline.compressed, CompressionState.compressed, pick_eq hpick,
      WorkerPhase.compressed] using htask
  | uploads hpick =>
    left
    refine mem_append.mpr ((mem_append.mp htask).imp_right ?_)
    intro hmem
    exact StorageState.compressed_replace (pick_eq hpick) ▸ hmem
  | storageFails hpick =>
    left
    refine mem_append.mpr ((mem_append.mp htask).imp_right ?_)
    intro hmem
    exact StorageState.compressed_remove (pick_eq hpick) hmem

/-- The payload is split, its own factors carry the task's path and version,
and its key factors come from the same dispatch. -/
structure Produced (task : CompressedTask) (dispatch : Nat) (source : Origin)
    (uuid : Uuid) : Prop where
  payload_eq : task.payload = ⟨true, [], keySvHalf source uuid,
    otherHalf ⟨dispatch, task.cacheKey, task.version⟩ uuid⟩
  source_dispatch : source.dispatch = dispatch

theorem mem_compressBatch {dispatch : Nat} {uuid : Uuid} {ranks sizes : List Nat}
    {batch : List RawTask} (htask : task ∈ compressBatch dispatch uuid ranks sizes batch) :
    (∃ source, Produced task dispatch source uuid) ∧
      ∃ raw ∈ batch, raw.cacheKey = task.cacheKey := by
  cases batch with
  | nil => simp [compressBatch] at htask
  | cons first rest =>
    simp only [compressBatch, mem_map] at htask
    obtain ⟨item, hitem, rfl⟩ := htask
    exact ⟨⟨_, buildCompressedPayload_compressedDict _ _ _, rfl⟩, item.1,
      fst_mem_of_mem_zipIdx hitem, rfl⟩

/-- Every compressed task has the shape the compressor gives. -/
def Pipeline.AllProduced (state : Pipeline) : Prop :=
  ∀ task ∈ state.compressed, ∃ dispatch source uuid, Produced task dispatch source uuid

theorem allProduced_initial (bucket : Bucket) (nextDispatch : Nat) :
    (Pipeline.initialWith bucket nextDispatch).AllProduced := by
  intro task htask
  simp [Pipeline.initialWith, Pipeline.compressed, CompressionState.compressed,
    StorageState.compressed] at htask

theorem Pipeline.AllProduced.step {state next : Pipeline} (hinv : state.AllProduced)
    (hstep : state.step config action = some next) : next.AllProduced := by
  intro task htask
  rcases Pipeline.compressed_step hstep htask with hold | hnew
  · exact hinv task hold
  · obtain ⟨_, _, _, _, _, _, _, _, _, hbatch⟩ := hnew
    obtain ⟨⟨source, hproduced⟩, _⟩ := mem_compressBatch hbatch
    exact ⟨_, source, _, hproduced⟩

end CatKV
