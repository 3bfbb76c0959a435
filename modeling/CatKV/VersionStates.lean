/-
The upload state of one path: idle, pending, uploaded or failed.  The four
version maps are changed by callbacks on different threads, each with its own
version check; over every interleaving they describe one task per path.
-/
import CatKV.UploadPresence

namespace CatKV

/-- Tasks in the raw queue, with a compression worker, being evicted, in the
save queue or being saved. -/
def Pipeline.tracked (state : Pipeline) : List TaskId :=
  state.compression.submitters.flatMap (fun submitter => submitter.evicted.toList.map RawTask.id) ++
    (state.compression.taskQueue.map RawTask.id ++
      state.compression.workers.flatMap fun worker => worker.phase.live) ++
    state.storage.live

variable {state : Pipeline}

theorem Pipeline.mem_live_iff {id : TaskId} : id ∈ state.live ↔ id ∈ state.tracked ∨
    ∃ submitter ∈ state.compression.submitters, submitter.task.id = id := by
  have hsubmitters : id ∈ state.compression.submitters.flatMap Submitter.live ↔
      id ∈ state.compression.submitters.flatMap
        (fun submitter => submitter.evicted.toList.map RawTask.id) ∨
      ∃ submitter ∈ state.compression.submitters, submitter.task.id = id := by
    simp only [List.mem_flatMap, Submitter.live, List.mem_cons]
    grind
  simp only [Pipeline.live, CompressionState.live, Pipeline.tracked, List.mem_append, hsubmitters]
  grind

/-- What the version maps and the tasks on their way say about one path.  Between
the critical section of `Submit` and the end of `Enqueue` a task is in the hands
of its submitter only. -/
structure PathState (state : Pipeline) (path : Bytes) : Prop where
  pending_current : ∀ version, state.ledger.pendingVersions path = some version →
      state.ledger.versions path = some version
  uploaded_current : ∀ version, state.ledger.uploadedVersions path = some version →
      state.ledger.versions path = some version
  pending_alone : (state.ledger.pendingVersions path).isSome →
    state.ledger.uploadedVersions path = none ∧ state.ledger.errors path = none
  uploaded_alone : (state.ledger.uploadedVersions path).isSome → state.ledger.errors path = none
  live_once : (state.live.map Prod.fst).count path ≤ 1
  live_where : ∀ version, (path, version) ∈ state.live ↔ (path, version) ∈ state.tracked ∨
      ∃ submitter ∈ state.compression.submitters, submitter.task.id = (path, version)
  pending_iff_live : ∀ version, state.ledger.pendingVersions path = some version ↔
      (path, version) ∈ state.live
  late_callbacks : ∀ version, state.ledger.versions path ≠ some version →
    state.ledger.finalizeSuccess path version = state.ledger ∧
      (∀ error, state.ledger.finalizeError path version error = state.ledger) ∧
      state.ledger.handleEvicted path version = state.ledger

/-- `HandleEvictedTask` compares with the pending version, the other two
callbacks with the current one; for a pending path the two agree. -/
theorem LedgerInv.late_callbacks {ledger : Ledger} {live : List TaskId}
    (hinv : LedgerInv ledger live) {path : Bytes} {version : Nat}
    (hold : ledger.versions path ≠ some version) :
    ledger.finalizeSuccess path version = ledger ∧
      (∀ error, ledger.finalizeError path version error = ledger) ∧
      ledger.handleEvicted path version = ledger := by
  have hpending : ledger.pendingVersions path ≠ some version :=
    fun hpending => hold (hinv.pending_current path version hpending)
  exact ⟨if_neg hold, fun _ => if_neg hold, if_neg hpending⟩

theorem Pipeline.Consistent.pathState (hinv : state.Consistent) (path : Bytes) :
    PathState state path := by
  refine ⟨hinv.pending_current path, ?_, ?_, ?_, ?_, fun _ => Pipeline.mem_live_iff, ?_, ?_⟩
  · intro version huploaded
    exact (hinv.uploaded_current path version huploaded).1
  · intro hpending
    refine ⟨Option.eq_none_iff_forall_ne_some.mpr fun version huploaded => ?_,
      Option.eq_none_iff_forall_ne_some.mpr fun error herror => ?_⟩
    · rw [(hinv.uploaded_current path version huploaded).2] at hpending
      cases hpending
    · rw [(hinv.errors_idle path (by rw [herror]; rfl)).1] at hpending
      cases hpending
  · intro huploaded
    refine Option.eq_none_iff_forall_ne_some.mpr fun error herror => ?_
    rw [(hinv.errors_idle path (by rw [herror]; rfl)).2] at huploaded
    cases huploaded
  · exact List.nodup_iff_count.mp hinv.live_nodup path
  · intro version
    exact ⟨hinv.pending_live path version, fun hlive => hinv.live_pending _ hlive⟩
  · intro version hold
    exact hinv.late_callbacks hold

/-! Versions only grow. -/

/-- Whatever version a path has, it has a version at least as large later. -/
def Ledger.NotBefore (earlier later : Ledger) : Prop :=
  ∀ path version, earlier.versions path = some version →
    ∃ version', later.versions path = some version' ∧ version ≤ version'

theorem Ledger.NotBefore.refl (ledger : Ledger) : ledger.NotBefore ledger :=
  fun _ version hversion => ⟨version, hversion, Nat.le_refl version⟩

theorem Ledger.NotBefore.of_versions_eq {earlier later : Ledger}
    (hversions : later.versions = earlier.versions) : earlier.NotBefore later := by
  intro path version hversion
  exact ⟨version, hversions ▸ hversion, Nat.le_refl version⟩

theorem Ledger.NotBefore.trans {first second third : Ledger} (hfirst : first.NotBefore second)
    (hsecond : second.NotBefore third) : first.NotBefore third := by
  intro path version hversion
  obtain ⟨version', hversion', hle⟩ := hfirst path version hversion
  obtain ⟨version'', hversion'', hle'⟩ := hsecond path version' hversion'
  exact ⟨version'', hversion'', Nat.le_trans hle hle'⟩

theorem Ledger.notBefore_start (ledger : Ledger) (path : Bytes) :
    ledger.NotBefore (ledger.start path) := by
  intro other version hversion
  by_cases hother : other = path
  · subst hother
    refine ⟨version + 1, ?_, Nat.le_succ version⟩
    simp [Ledger.start, Ledger.nextVersion, hversion]
  · refine ⟨version, ?_, Nat.le_refl version⟩
    rw [← hversion]
    exact Function.update_of_ne hother _ _

theorem Ledger.notBefore_submit (ledger : Ledger) (path : Bytes) (overLimit : Bool) :
    ledger.NotBefore (ledger.submit path overLimit).2 := by
  unfold Ledger.submit
  split
  · exact Ledger.NotBefore.refl ledger
  · split
    · exact ledger.notBefore_start path
    · exact ledger.notBefore_start path

variable {config : PipelineConfig}

theorem Pipeline.notBefore_step {next : Pipeline} {action : PipelineAction}
    (hstep : state.step config action = some next) : state.ledger.NotBefore next.ledger := by
  cases Pipeline.effect_of_step hstep with
  | submits =>
    rw [Pipeline.submit_ledger]
    exact Ledger.notBefore_submit _ _ _
  | compression | storage | emits => exact Ledger.NotBefore.refl _
  | notifiesEvicted | reports | uploads | storageFails =>
    exact Ledger.NotBefore.of_versions_eq (by simp)

theorem Pipeline.notBefore_run {final : Pipeline} {actions : List PipelineAction}
    (hrun : runFrom (Pipeline.step config) state actions = some final) :
    state.ledger.NotBefore final.ledger := by
  induction actions generalizing state with
  | nil =>
    cases hrun
    exact Ledger.NotBefore.refl _
  | cons action rest ih =>
    obtain ⟨next, hnext, hrest⟩ := runFrom_cons hrun
    exact (Pipeline.notBefore_step hnext).trans (ih hrest)

theorem Pipeline.consistent_run {bucket : Bucket} {nextDispatch : Nat}
    {actions : List PipelineAction} {final : Pipeline} (hrun : runFrom (Pipeline.step config)
      (Pipeline.initialWith bucket nextDispatch) actions = some final) : final.Consistent :=
  run_invariant (fun _ _ _ hinv _ hstep => hinv.step hstep) (consistent_initial bucket nextDispatch)
    (meets_of_forall_mem fun _ _ => trivial) hrun

/-- In every reachable state the maps agree about every path, and whatever
happens from there on no version goes down. -/
theorem pathState_of_run {config : PipelineConfig} {bucket : Bucket} {nextDispatch : Nat}
    {actions : List PipelineAction} {state : Pipeline} (hrun : runFrom (Pipeline.step config)
      (Pipeline.initialWith bucket nextDispatch) actions = some state) :
    (∀ path, PathState state path) ∧
      ∀ more final, runFrom (Pipeline.step config) state more = some final →
        state.ledger.NotBefore final.ledger :=
  ⟨fun path => (Pipeline.consistent_run hrun).pathState path,
    fun _ _ hmore => Pipeline.notBefore_run hmore⟩

/-- A failed compression, a second version of the path and its eviction by a
caller that finds the raw queue full. -/
def resubmitted : List PipelineAction :=
  [.submit firstChunk [] 1 0 none, .enqueue 0, .dispatch,
    .compressFails 0 "svd", .reportError 0, .releaseRaw 0, .finish 0,
    .submit firstChunk [] 1 0 none, .enqueue 0,
    .submit secondChunk [] 1 0 none, .evict 0]

theorem pathState_resubmitted : ∃ final, runFrom (Pipeline.step ⟨1, 1, 0, false⟩) Pipeline.initial
    resubmitted = some final ∧
    final.ledger.versions firstChunk = some 2 ∧
    (∀ path, PathState final path) ∧
    ∀ more later, runFrom (Pipeline.step ⟨1, 1, 0, false⟩) final more =
      some later → final.ledger.NotBefore later.ledger := by
  obtain ⟨final, hrun⟩ : ∃ final, runFrom (Pipeline.step ⟨1, 1, 0, false⟩)
      Pipeline.initial resubmitted = some final := ⟨_, rfl⟩
  have hversion : final.ledger.versions firstChunk = some 2 := by
    cases hrun
    decide
  exact ⟨final, hrun, hversion, pathState_of_run hrun⟩

/-- With the caller's own task left out, a pending version need not belong to
any task: the second chunk waits for the eviction of the first. -/
theorem not_tracked_of_pending : ∃ final, runFrom (Pipeline.step ⟨1, 1, 0, false⟩) Pipeline.initial
    resubmitted = some final ∧
    final.ledger.pendingVersions secondChunk = some 1 ∧
    (secondChunk, 1) ∉ final.tracked :=
  ⟨_, rfl, by decide, by decide⟩

end CatKV
