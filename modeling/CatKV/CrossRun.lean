/-
Process runs that share one bucket.  A run starts with fresh version maps and a
fresh uuid counter; only the objects stay.  What `Load` returns for a path of
an earlier run stays the same as long as no later chunk is given the shared
key_sv name that the path reads.
-/
import CatKV.ReadBack

namespace CatKV

structure Process where
  config : PipelineConfig
  pipeline : Pipeline

inductive ProcessAction where
  | act (action : PipelineAction)
  | restart (config : PipelineConfig)
deriving Repr, DecidableEq

/-- The next run over the same bucket.  Dispatches keep being told apart. -/
def Process.restart (process : Process) (config : PipelineConfig) : Process :=
  ⟨config, Pipeline.initialWith process.pipeline.storage.bucket
    process.pipeline.compression.nextDispatch⟩

def Process.step (process : Process) : ProcessAction → Option Process
  | .act action => (process.pipeline.step process.config action).map
      fun pipeline => ⟨process.config, pipeline⟩
  | .restart config => some (process.restart config)

/-- The key_sv object that `Load` reads for a path. -/
def Bucket.keySvName (bucket : Bucket) (path : Bytes) : Option Bytes :=
  (bucket (otherPath path)).bind fun otherPayload =>
    keySvObject path otherPayload.uuidWords

/-- No chunk of the batch is given this key_sv object. -/
def CompressionState.avoids (state : CompressionState) (worker : Nat) (name : Bytes) : Bool :=
  match pick state.workers worker with
  | some (_, ⟨_, .collecting batch⟩, _) =>
    batch.all fun task =>
      keySvObject task.cacheKey (some (state.batchUuid batch)) != some name
  | _ => true

/-- The path is not submitted again, and no other chunk is given the key_sv
object it reads in `bucket`. -/
def avoidsUpload (bucket : Bucket) (path : Bytes) (process : Process) : ProcessAction → Bool
  | .act (.submit other _ _ _ _) => other != path
  | .act (.compress worker _ _) =>
    match bucket.keySvName path with
    | some name => process.pipeline.compression.avoids worker name
    | none => true
  | _ => true

/-- What a run keeps of the path. -/
structure Untouched (bucket : Bucket) (path : Bytes) (state : Pipeline) : Prop where
  consistent : state.Consistent
  produced : state.AllProduced
  fit : state.SavesFit
  unsubmitted : state.ledger.versions path = none
  avoided : ∀ task ∈ state.compressed, ∀ name,
    bucket.keySvName path = some name → task.sharedName ≠ some name
  full : state.storage.bucket path = bucket path
  other : state.storage.bucket (otherPath path) = bucket (otherPath path)
  keySv : ∀ name, bucket.keySvName path = some name → state.storage.bucket name = bucket name

theorem Untouched.load_eq {bucket : Bucket} {path : Bytes} {state : Pipeline}
    (hinv : Untouched bucket path state) : state.storage.bucket.load path = bucket.load path := by
  apply Bucket.load_congr hinv.full hinv.other
  intro otherPayload name hother hname
  apply hinv.keySv
  simp only [Bucket.keySvName, hother, Option.bind_some, hname]

theorem untouched_restart {bucket : Bucket} {path : Bytes} {process : Process}
    (hfull : process.pipeline.storage.bucket path = bucket path)
    (hother : process.pipeline.storage.bucket (otherPath path) = bucket (otherPath path))
    (hkeySv : ∀ name, bucket.keySvName path = some name →
      process.pipeline.storage.bucket name = bucket name) (config : PipelineConfig) :
    Untouched bucket path (process.restart config).pipeline :=
  ⟨consistent_initial _ _, allProduced_initial _ _, savesFit_initial _ _, rfl,
    by simp [Process.restart, Pipeline.initialWith, Pipeline.compressed,
      CompressionState.compressed, StorageState.compressed], hfull, hother, hkeySv⟩

theorem keySvObject_eq {path name : Bytes} {uuid : Option Uuid}
    (hname : keySvObject path uuid = some name) :
    name = keySvPath path ∨ ∃ words layer, parseLayerIdx path = some layer ∧ 2 < layer ∧
        name = sharedKeySvPath words layer path := by
  unfold keySvObject at hname
  split at hname
  · cases hname
  · next layer hlayer =>
    split at hname
    · split at hname
      · next hshared =>
        cases hname
        exact Or.inr ⟨_, layer, hlayer, hshared, rfl⟩
      · cases hname
        exact Or.inl rfl
    · cases hname
      exact Or.inl rfl

section Step

variable {config : PipelineConfig} {bucket : Bucket} {path : Bytes}
  {state next : Pipeline} {action : PipelineAction}

theorem Untouched.object_ne (hinv : Untouched bucket path state) {task : CompressedTask}
    {kind : SaveKind} (hsaver : ⟨task, .saving kind false⟩ ∈ state.storage.savers) :
    otherPath path ≠ kind.object task ∧
      ∀ name, bucket.keySvName path = some name → name ≠ kind.object task := by
  have hfits := hinv.fit _ hsaver kind false rfl
  have hpath : path ≠ task.cacheKey := by
    rintro rfl
    have hversion := LedgerInv.live_current hinv.consistent
      (Pipeline.mem_live_of_saver hsaver (by simp))
    cases hinv.unsubmitted.symm.trans hversion
  refine ⟨(hfits.object_ne hpath).1, ?_⟩
  intro name hname hobject
  obtain ⟨otherPayload, _, hread⟩ := Option.bind_eq_some_iff.mp hname
  cases kind with
  | full => exact hfits.elim
  | keySv =>
    rcases keySvObject_eq hread with hown | ⟨words, layer, hlayer, habove, heq⟩
    · exact hpath (keySvPath_injective (hown.symm.trans hobject))
    · exact keySvPath_ne_shared hfits hlayer habove words (hobject.symm.trans heq)
  | sharedKeySv shared =>
    have hmem : task ∈ state.compressed :=
      List.mem_append_right _ (List.mem_append_right _ (List.mem_map_of_mem hsaver))
    refine hinv.avoided task hmem name hname ?_
    rw [show name = shared from hobject]
    exact hfits
  | other => exact otherPath_ne_keySvObject hread hobject.symm

theorem avoided_of_compressedBy {compression : CompressionState} {worker : Nat}
    {ranks sizes : List Nat} {task : CompressedTask}
    (hnew : CompressedBy compression (.compress worker ranks sizes) task) {name : Bytes}
    (havoids : compression.avoids worker name = true) : task.sharedName ≠ some name := by
  obtain ⟨_, _, _, before, key, batch, after, haction, hpick, hbatch⟩ := hnew
  cases haction
  obtain ⟨⟨source, hproduced⟩, raw, hraw, hpath⟩ := mem_compressBatch hbatch
  intro hname
  simp only [CompressionState.avoids, hpick, List.all_eq_true] at havoids
  have hne := havoids raw hraw
  rw [hpath, ← hproduced.uuidWords.2, hproduced.keySvObject_shared hname] at hne
  simp at hne

theorem Untouched.step (hinv : Untouched bucket path state) (hplain : plainPath path = true)
    (hcondition : avoidsUpload bucket path ⟨config, state⟩ (.act action) = true)
    (hstep : state.step config action = some next) : Untouched bucket path next := by
  -- an object that no save in flight goes to stays as it is
  have hkeeps : ∀ name, (∀ task kind, ⟨task, .saving kind false⟩ ∈ state.storage.savers →
        name ≠ kind.object task) →
      next.storage.bucket name = state.storage.bucket name := by
    intro name hne
    rcases Pipeline.bucket_step hstep name with
      hsame | ⟨task, kind, hsaver, hname⟩
    · exact hsame
    · exact absurd hname (hne task kind hsaver)
  refine ⟨hinv.consistent.step hstep, hinv.produced.step hstep,
    hinv.fit.step hinv.produced hstep, ?_, ?_, ?_, ?_, ?_⟩
  · rw [← Option.not_isSome_iff_eq_none]
    intro hsome
    rcases Pipeline.versions_step hstep hsome with
      hold | ⟨groupUuid, sizeBytes, rssBytes, onSuccess, rfl⟩
    · simp [hinv.unsubmitted] at hold
    · simp [avoidsUpload] at hcondition
  · intro task htask name hname
    rcases Pipeline.compressed_step hstep htask with hold | hnew
    · exact hinv.avoided task hold name hname
    · obtain ⟨worker, ranks, sizes, _, _, _, _, rfl, _⟩ := id hnew
      simp only [avoidsUpload, hname] at hcondition
      exact avoided_of_compressedBy hnew hcondition
  · rw [hkeeps path, hinv.full]
    intro task kind hsaver
    exact (hinv.fit _ hsaver kind false rfl).object_ne_plain hplain
  · rw [hkeeps (otherPath path), hinv.other]
    intro task kind hsaver
    exact (hinv.object_ne hsaver).1
  · intro name hname
    rw [hkeeps name, hinv.keySv name hname]
    intro task kind hsaver
    exact (hinv.object_ne hsaver).2 name hname

end Step

/-- Whatever later runs do to other paths, `Load` returns for a path of an
earlier run what it returned when that run ended, provided no later chunk is
given the key_sv object the path reads. -/
theorem load_eq_of_meets {process final : Process} {config : PipelineConfig} {path : Bytes}
    {actions : List ProcessAction} (hplain : plainPath path = true) (hmeets : Meets Process.step
      (fun current action => avoidsUpload process.pipeline.storage.bucket path
        current action = true) (process.restart config) actions)
    (hrun : runFrom Process.step (process.restart config) actions = some final) :
    final.pipeline.storage.bucket.load path = process.pipeline.storage.bucket.load path := by
  have hkept : ∀ current action next,
      Untouched process.pipeline.storage.bucket path current.pipeline →
      avoidsUpload process.pipeline.storage.bucket path current action = true →
      Process.step current action = some next →
      Untouched process.pipeline.storage.bucket path next.pipeline := by
    intro current action next hinv hcondition hstep
    cases action with
    | act action =>
      obtain ⟨pipeline, hpipeline, rfl⟩ := Option.map_eq_some_iff.mp hstep
      exact hinv.step hplain hcondition hpipeline
    | restart config =>
      cases hstep
      exact untouched_restart hinv.full hinv.other hinv.keySv config
  exact (run_invariant hkept (untouched_restart rfl rfl (fun _ _ => rfl) config) hmeets hrun).load_eq

/-- One chunk without a group, from its submission to its upload. -/
def uploadAlone (path : Bytes) : List ProcessAction :=
  List.map .act (submitAlone [] path ++ writeObject 0 ++ writeObject 0 ++
    [PipelineAction.releaseSave 0, .finalize 0])

def firstProcess : Process := ⟨unlimited, Pipeline.initial⟩

/-- A later chunk on another layer leaves the first one alone. -/
theorem load_eq_other_layer : ∃ process final,
    runFrom Process.step firstProcess (uploadAlone firstChunk) = some process ∧
    runFrom Process.step (process.restart unlimited)
      (uploadAlone (ascii "d/b-layer_4.bin")) = some final ∧
    final.pipeline.storage.bucket.load firstChunk =
      process.pipeline.storage.bucket.load firstChunk := by
  obtain ⟨process, hfirst⟩ : ∃ process, runFrom Process.step firstProcess
      (uploadAlone firstChunk) = some process := ⟨_, rfl⟩
  obtain ⟨final, hsecond⟩ : ∃ final, runFrom Process.step
      (process.restart unlimited) (uploadAlone (ascii "d/b-layer_4.bin")) = some final := by
    cases hfirst
    exact ⟨_, rfl⟩
  refine ⟨process, final, hfirst, hsecond, load_eq_of_meets (by decide) ?_ hsecond⟩
  cases hfirst
  decide +kernel

/-- The second run counts its uuids from 1 again, so its chunk overwrites the
key factors of the first run. -/
theorem load_ne_same_counter : ∃ process final,
    runFrom Process.step firstProcess (uploadAlone firstChunk) = some process ∧
    process.pipeline.ledger.contains firstChunk = true ∧
    runFrom Process.step (process.restart unlimited) (uploadAlone secondChunk) = some final ∧
    final.pipeline.storage.bucket.load firstChunk ≠
      process.pipeline.storage.bucket.load firstChunk := by
  refine ⟨_, _, rfl, by decide +kernel, rfl, by decide +kernel⟩

end CatKV
