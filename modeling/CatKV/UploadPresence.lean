/-
Uploaded means present.  A save worker that writes the shared key_sv object has
claimed its name before; a worker that finds the name claimed goes on without
waiting for that write.  Apart from this every path that the pipeline contains
has both of its objects in the bucket, written by saves that returned.
-/
import CatKV.SaveNames

namespace CatKV

/-- The save of this object returned normally, and the object is there. -/
def ObjectWritten (bucket : Bucket) (written : Bytes → Bool) (name : Bytes) : Prop :=
  written name = true ∧ (bucket name).isSome

/-- Both objects that `Load` reads for a path are written. -/
def UploadPresent (storage : StorageState) (path : Bytes) : Prop :=
  ∃ otherPayload name, storage.bucket (otherPath path) = some otherPayload ∧
    keySvObject path otherPayload.uuidWords = some name ∧
    ObjectWritten storage.bucket storage.written (otherPath path) ∧
    ObjectWritten storage.bucket storage.written name

instance (bucket : Bucket) (written : Bytes → Bool) (name : Bytes) :
    Decidable (ObjectWritten bucket written name) :=
  inferInstanceAs (Decidable (_ ∧ _))

instance (storage : StorageState) (path : Bytes) : Decidable (UploadPresent storage path) :=
  match hother : storage.bucket (otherPath path) with
  | none => isFalse (by
      rintro ⟨otherPayload, name, hpresent, _⟩
      rw [hother] at hpresent
      cases hpresent)
  | some otherPayload =>
    match hname : keySvObject path otherPayload.uuidWords with
    | none => isFalse (by
        rintro ⟨payload, name, hpayload, hobject, _⟩
        rw [hother, Option.some.injEq] at hpayload
        rw [← hpayload, hname] at hobject
        cases hobject)
    | some name => decidable_of_iff (ObjectWritten storage.bucket storage.written (otherPath path) ∧
          ObjectWritten storage.bucket storage.written name)
        ⟨fun hwritten => ⟨otherPayload, name, hother, hname, hwritten⟩, by
          rintro ⟨payload, object, hpayload, hobject, hwritten⟩
          rw [hother, Option.some.injEq] at hpayload
          rw [← hpayload, hname, Option.some.injEq] at hobject
          rwa [← hobject] at hwritten⟩

/-- The worker is about to skip a shared key_sv object that some other worker
has claimed and not yet written. -/
def StorageState.skipsUnwritten (state : StorageState) (saver : Nat) : Bool :=
  match pick state.savers saver with
  | some (_, ⟨task, .taken⟩, _) =>
    match task.sharedName with
    | some name =>
      decide (name ∈ state.savedSharedKeySvPaths) && !state.written name
    | none => false
  | _ => false

/-- Saves go to S3, and a claimed shared object is skipped only once it is
written. -/
def skipsOnlyWritten (config : PipelineConfig) (state : Pipeline) : PipelineAction → Bool
  | .save saver =>
    !config.skipRemoteSave && !state.storage.skipsUnwritten saver
  | _ => true

/-! What a save worker has achieved in each phase. -/

section Progress

variable (bucket : Bucket) (written : Bytes → Bool) (task : CompressedTask)

inductive KeySvWritten : Prop where
  | own (hprivate : PrivateKeySv task.cacheKey)
      (hwritten : ObjectWritten bucket written (keySvPath task.cacheKey))
      (hobject : bucket (keySvPath task.cacheKey) = some task.payload.keySvPayload)
  | shared {name : Bytes} (hname : task.sharedName = some name)
      (hwritten : ObjectWritten bucket written name)

structure OtherWritten : Prop where
  written : ObjectWritten bucket written (otherPath task.cacheKey)
  object : bucket (otherPath task.cacheKey) = some task.payload.otherPayload

/-- Phases in which the worker has promised nothing about the bucket. -/
def SaverPhase.isOpen : SaverPhase → Bool
  | .saving _ _ => true
  | .succeeded => true
  | .succeededReleased => true
  | _ => false

inductive SaverProgress : SaverPhase → Prop where
  | idle {phase : SaverPhase} (hphase : phase.isOpen = false) : SaverProgress phase
  | savingOwn {landed : Bool} (hprivate : PrivateKeySv task.cacheKey) (hlanded : landed = true →
        bucket (keySvPath task.cacheKey) = some task.payload.keySvPayload) :
      SaverProgress (.saving .keySv landed)
  | savingShared {name : Bytes} {landed : Bool} (hname : task.sharedName = some name)
      (hlanded : landed = true → (bucket name).isSome) :
      SaverProgress (.saving (.sharedKeySv name) landed)
  | savingOther {landed : Bool} (hkeySv : KeySvWritten bucket written task)
      (hlanded : landed = true →
        bucket (otherPath task.cacheKey) = some task.payload.otherPayload) :
      SaverProgress (.saving .other landed)
  | succeeded (hkeySv : KeySvWritten bucket written task)
      (hother : OtherWritten bucket written task) : SaverProgress .succeeded
  | succeededReleased (hkeySv : KeySvWritten bucket written task)
      (hother : OtherWritten bucket written task) :
      SaverProgress .succeededReleased

end Progress

variable {task : CompressedTask}

theorem SaverProgress.fits {bucket : Bucket} {written : Bytes → Bool} {kind : SaveKind}
    {landed : Bool} (hprogress : SaverProgress bucket written task (.saving kind landed)) :
    kind.Fits task := by
  cases hprogress with
  | idle hphase => cases hphase
  | savingOwn hprivate => exact hprivate
  | savingShared hname => exact hname
  | savingOther => exact trivial

/-! What other workers write does not undo it. -/

/-- Later contents of the bucket: nothing written is lost, and the objects that
belong to `path` alone are the same. -/
structure KeepsPath (bucket bucket' : Bucket) (written written' : Bytes → Bool)
    (path : Bytes) : Prop where
  written : ∀ name, written name = true → written' name = true
  present : ∀ name, (bucket name).isSome → (bucket' name).isSome
  other : bucket' (otherPath path) = bucket (otherPath path)
  own : PrivateKeySv path → bucket' (keySvPath path) = bucket (keySvPath path)

section Keeps

variable {bucket bucket' : Bucket} {written written' : Bytes → Bool} {task : CompressedTask}

theorem KeepsPath.objectWritten {path name : Bytes}
    (hkeeps : KeepsPath bucket bucket' written written' path)
    (hwritten : ObjectWritten bucket written name) : ObjectWritten bucket' written' name :=
  ⟨hkeeps.written name hwritten.1, hkeeps.present name hwritten.2⟩

theorem KeySvWritten.keeps (hkeySv : KeySvWritten bucket written task)
    (hkeeps : KeepsPath bucket bucket' written written' task.cacheKey) :
    KeySvWritten bucket' written' task := by
  cases hkeySv with
  | own hprivate hwritten hobject =>
    refine .own hprivate (hkeeps.objectWritten hwritten) ?_
    rw [hkeeps.own hprivate, hobject]
  | shared hname hwritten =>
    exact .shared hname (hkeeps.objectWritten hwritten)

theorem OtherWritten.keeps (hother : OtherWritten bucket written task)
    (hkeeps : KeepsPath bucket bucket' written written' task.cacheKey) :
    OtherWritten bucket' written' task := by
  refine ⟨hkeeps.objectWritten hother.written, ?_⟩
  rw [hkeeps.other, hother.object]

theorem SaverProgress.keeps {phase : SaverPhase}
    (hprogress : SaverProgress bucket written task phase) (hkeeps : phase.isOpen = true →
      KeepsPath bucket bucket' written written' task.cacheKey) :
    SaverProgress bucket' written' task phase := by
  cases hprogress with
  | idle hphase => exact .idle hphase
  | savingOwn hprivate hlanded =>
    refine .savingOwn hprivate fun hland => ?_
    rw [(hkeeps rfl).own hprivate, hlanded hland]
  | savingShared hname hlanded =>
    exact .savingShared hname fun hland =>
      (hkeeps rfl).present _ (hlanded hland)
  | savingOther hkeySv hlanded =>
    refine .savingOther (hkeySv.keeps (hkeeps rfl)) fun hland => ?_
    rw [(hkeeps rfl).other, hlanded hland]
  | succeeded hkeySv hother =>
    exact .succeeded (hkeySv.keeps (hkeeps rfl)) (hother.keeps (hkeeps rfl))
  | succeededReleased hkeySv hother =>
    exact .succeededReleased (hkeySv.keeps (hkeeps rfl)) (hother.keeps (hkeeps rfl))

theorem isSome_update {bucket : Bucket} {other : Bytes} (name : Bytes)
    (payload : TensorDict) (hsome : (bucket other).isSome) :
    (Function.update bucket name (some payload) other).isSome := by
  by_cases hname : other = name
  · rw [hname, Function.update_self]
    rfl
  · rwa [Function.update_of_ne hname]

theorem SaverProgress.keepsPath_land {kind : SaveKind} {landed : Bool}
    (hprogress : SaverProgress bucket written task (.saving kind landed))
    {path : Bytes} (hpath : path ≠ task.cacheKey) (payload : TensorDict) :
    KeepsPath bucket (Function.update bucket (kind.object task) (some payload))
      written written path := by
  obtain ⟨hother, hown⟩ := hprogress.fits.object_ne hpath
  refine ⟨fun _ hwritten => hwritten, fun _ hpresent =>
    isSome_update _ payload hpresent, Function.update_of_ne hother _ _, ?_⟩
  intro hprivate
  exact Function.update_of_ne (hown hprivate) _ _

theorem keepsPath_return (name path : Bytes) :
    KeepsPath bucket bucket written (Function.update written name true) path := by
  refine ⟨?_, fun _ hpresent => hpresent, rfl, fun _ => rfl⟩
  intro other hwritten
  by_cases hname : other = name
  · rw [hname, Function.update_self]
  · rwa [Function.update_of_ne hname]

end Keeps

theorem KeepsPath.refl (bucket : Bucket) (written : Bytes → Bool)
    (path : Bytes) : KeepsPath bucket bucket written written path :=
  ⟨fun _ hwritten => hwritten, fun _ hpresent => hpresent, rfl, fun _ => rfl⟩

/-! The invariant. -/

/-- `task` is the upload that made the pipeline contain `path`. -/
structure UploadedBy (state : Pipeline) (path : Bytes) (task : CompressedTask) : Prop where
  produced : ∃ dispatch source uuid, Produced task dispatch source uuid
  path_eq : task.cacheKey = path
  version : state.ledger.versions path = some task.version
  keySv : KeySvWritten state.storage.bucket state.storage.written task
  other : OtherWritten state.storage.bucket state.storage.written task

structure UploadInv (state : Pipeline) : Prop where
  consistent : state.Consistent
  produced : state.AllProduced
  present : ∀ name, state.storage.written name = true → (state.storage.bucket name).isSome
  savers : ∀ saver ∈ state.storage.savers,
    SaverProgress state.storage.bucket state.storage.written saver.task saver.phase
  uploaded : ∀ path, state.ledger.contains path = true → ∃ task, UploadedBy state path task

theorem uploadInv_initial (bucket : Bucket) (nextDispatch : Nat) :
    UploadInv (Pipeline.initialWith bucket nextDispatch) :=
  ⟨consistent_initial bucket nextDispatch, allProduced_initial bucket nextDispatch,
    by simp [Pipeline.initialWith], by simp [Pipeline.initialWith],
    by simp [Pipeline.initialWith, Ledger.initial, Ledger.contains]⟩

theorem UploadedBy.keeps {state next : Pipeline} {path : Bytes}
    (huploaded : UploadedBy state path task)
    (hversions : next.ledger.versions path = state.ledger.versions path)
    (hkeeps : KeepsPath state.storage.bucket next.storage.bucket
      state.storage.written next.storage.written path) : UploadedBy next path task := by
  have hpath := huploaded.path_eq
  subst hpath
  exact ⟨huploaded.produced, rfl, hversions.trans huploaded.version,
    huploaded.keySv.keeps hkeeps, huploaded.other.keeps hkeeps⟩

theorem SaverPhase.ne_notifying_of_isOpen {phase : SaverPhase}
    (hphase : phase.isOpen = true) : phase ≠ .notifying := by
  rintro rfl
  cases hphase

section Step

variable {config : PipelineConfig} {state : Pipeline}

variable {task : CompressedTask}

theorem UploadInv.begins (hinv : UploadInv state) {index : Nat} {before after : List Saver}
    (hpick : pick state.storage.savers index =
      some (before, ⟨task, .taken⟩, after)) (hskips : state.storage.skipsUnwritten index = false) :
    SaverProgress state.storage.bucket state.storage.written task
      (beginSave state.storage.savedSharedKeySvPaths task).2 := by
  obtain ⟨dispatch, source, uuid, hproduced⟩ := hinv.produced.saver (mem_of_pick hpick)
  rcases hproduced.beginSave_cases state.storage.savedSharedKeySvPaths with
    ⟨_, hphase⟩ | ⟨_, hprivate, hphase⟩ | ⟨name, hname, hclaimed, hphase⟩ | ⟨name, hname, _, hphase⟩
  · rw [hphase]
    exact .idle rfl
  · rw [hphase]
    exact .savingOwn hprivate (fun hland => by cases hland)
  · have hwritten : state.storage.written name = true := by
      simpa [StorageState.skipsUnwritten, hpick, hname, hclaimed] using hskips
    rw [hphase]
    exact .savingOther (.shared hname ⟨hwritten, hinv.present name hwritten⟩)
      (fun hland => by cases hland)
  · rw [hphase]
    exact .savingShared hname (fun hland => by cases hland)

variable {bucket : Bucket} {written : Bytes → Bool}

theorem SaverProgress.land {kind : SaveKind}
    (hprogress : SaverProgress bucket written task (.saving kind false)) :
    SaverProgress (Function.update bucket (kind.object task) (some (kind.content task)))
      written task (.saving kind true) := by
  cases hprogress with
  | idle hphase => cases hphase
  | savingOwn hprivate _ =>
    exact .savingOwn hprivate fun _ => Function.update_self _ _ _
  | savingShared hname _ =>
    refine .savingShared hname fun _ => ?_
    rw [SaveKind.object, Function.update_self]
    rfl
  | savingOther hkeySv _ =>
    refine .savingOther ?_ fun _ => Function.update_self _ _ _
    cases hkeySv with
    | own hprivate hwritten hobject =>
      have hne : keySvPath task.cacheKey ≠ otherPath task.cacheKey :=
        (otherPath_ne_keySvPath _ _).symm
      refine .own hprivate ⟨hwritten.1, ?_⟩ ?_
      · rw [SaveKind.object, Function.update_of_ne hne]
        exact hwritten.2
      · rw [SaveKind.object, Function.update_of_ne hne, hobject]
    | shared hname hwritten =>
      refine .shared hname ⟨hwritten.1, ?_⟩
      obtain ⟨layer, uuid, _, _, _, rfl⟩ := CompressedTask.sharedName_eq hname
      rw [SaveKind.object, Function.update_of_ne (otherPath_ne_sharedKeySvPath _ uuid layer _).symm]
      exact hwritten.2

theorem SaverProgress.returns {kind : SaveKind}
    (hprogress : SaverProgress bucket written task (.saving kind true)) :
    (bucket (kind.object task)).isSome ∧ SaverProgress bucket
        (Function.update written (kind.object task) true) task kind.next := by
  cases hprogress with
  | idle hphase => cases hphase
  | savingOwn hprivate hlanded =>
    have hobject := hlanded rfl
    have hsome : (bucket (keySvPath task.cacheKey)).isSome := by
      rw [hobject]
      rfl
    exact ⟨hsome, .savingOther (.own hprivate ⟨Function.update_self _ _ _, hsome⟩ hobject)
      (fun hland => by cases hland)⟩
  | savingShared hname hlanded =>
    exact ⟨hlanded rfl, .savingOther (.shared hname ⟨Function.update_self _ _ _, hlanded rfl⟩)
      (fun hland => by cases hland)⟩
  | savingOther hkeySv hlanded =>
    have hobject := hlanded rfl
    have hsome : (bucket (otherPath task.cacheKey)).isSome := by
      rw [hobject]
      rfl
    exact ⟨hsome, .succeeded (hkeySv.keeps (keepsPath_return _ _))
      ⟨⟨Function.update_self _ _ _, hsome⟩, hobject⟩⟩

theorem SaverProgress.quiet {phase phase' : SaverPhase}
    (hprogress : SaverProgress bucket written task phase) (hquiet : QuietPhase phase phase') :
    SaverProgress bucket written task phase' := by
  cases hquiet with
  | releases =>
    cases hprogress with
    | idle hphase => cases hphase
    | succeeded hkeySv hother => exact .succeededReleased hkeySv hother
  | throwsShared | throws | unclaims | releasesFailed => exact .idle rfl

/-- Storage effects keep the progress of every worker, and everything that
belongs to contained paths. -/
theorem UploadInv.storageEffect (hinv : UploadInv state) {action : PipelineAction}
    {result : StorageState} (hcondition : skipsOnlyWritten config state action = true)
    (heffect : StorageEffect config state.storage action result) :
    (∀ name, result.written name = true → (result.bucket name).isSome) ∧
    (∀ saver ∈ result.savers, SaverProgress result.bucket result.written saver.task saver.phase) ∧
    ∀ path, state.ledger.contains path = true →
      KeepsPath state.storage.bucket result.bucket state.storage.written result.written path := by
  have hothers : ∀ {before after : List Saver} {saver : Saver} {index : Nat},
      pick state.storage.savers index = some (before, saver, after) →
      ∀ other ∈ before ++ after, SaverProgress state.storage.bucket
        state.storage.written other.task other.phase := by
    intro before after saver index hpick other hother
    exact hinv.savers other (mem_of_pick_others hpick hother)
  cases heffect with
  | takes hqueue =>
    refine ⟨hinv.present, ?_, fun path _ => KeepsPath.refl _ _ path⟩
    intro saver hsaver
    rcases List.mem_append.mp hsaver with hold | hnew
    · exact hinv.savers saver hold
    · rw [List.mem_singleton.mp hnew]
      exact .idle rfl
  | skips hpick hskip =>
    simp [skipsOnlyWritten, hskip] at hcondition
  | begins hpick hskip =>
    refine ⟨hinv.present, ?_, fun path _ => KeepsPath.refl _ _ path⟩
    simp only [skipsOnlyWritten, hskip, Bool.not_false, Bool.true_and,
      Bool.not_eq_true'] at hcondition
    exact forall_mem_replace (hothers hpick) (hinv.begins hpick hcondition)
  | @lands index before after task kind hpick =>
    have hsaver := mem_of_pick hpick
    have hprogress := hinv.savers _ hsaver
    refine ⟨fun name hwritten => isSome_update _ _ (hinv.present name hwritten),
      forall_mem_replace ?_ hprogress.land, ?_⟩
    · intro other hother
      refine (hothers hpick other hother).keeps fun hopen => ?_
      exact hprogress.keepsPath_land (hinv.consistent.saver_path_ne (pick_eq hpick) hother (by simp)
        (SaverPhase.ne_notifying_of_isOpen hopen)) _
    · intro path hcontains
      refine hprogress.keepsPath_land ?_ _
      exact (LedgerInv.not_live_of_contains hinv.consistent hcontains
        (Pipeline.mem_live_of_saver hsaver (by simp))).symm
  | @returns index before after task kind hpick =>
    have hprogress := (hinv.savers _ (mem_of_pick hpick)).returns
    refine ⟨?_, forall_mem_replace ?_ hprogress.2, ?_⟩
    · intro name hwritten
      by_cases hname : name = kind.object task
      · rw [hname]
        exact hprogress.1
      · refine hinv.present name ?_
        rwa [← Function.update_of_ne hname true state.storage.written]
    · intro other hother
      exact (hothers hpick other hother).keeps fun _ =>
        keepsPath_return _ _
    · intro path _
      exact keepsPath_return _ path
  | quiet hpick hquiet =>
    refine ⟨hinv.present, ?_, fun path _ => KeepsPath.refl _ _ path⟩
    exact forall_mem_replace (hothers hpick) ((hinv.savers _ (mem_of_pick hpick)).quiet hquiet)
  | leaves hpick =>
    exact ⟨hinv.present, hothers hpick, fun path _ => KeepsPath.refl _ _ path⟩

theorem UploadInv.uploaded_keeps (hinv : UploadInv state) {next : Pipeline}
    (hcontains : ∀ path, next.ledger.contains path = true → state.ledger.contains path = true ∧
        next.ledger.versions path = state.ledger.versions path)
    (hkeeps : ∀ path, state.ledger.contains path = true →
      KeepsPath state.storage.bucket next.storage.bucket
        state.storage.written next.storage.written path) :
    ∀ path, next.ledger.contains path = true → ∃ task, UploadedBy next path task := by
  intro path hpath
  obtain ⟨hold, hversions⟩ := hcontains path hpath
  obtain ⟨task, huploaded⟩ := hinv.uploaded path hold
  exact ⟨task, huploaded.keeps hversions (hkeeps path hold)⟩

theorem UploadInv.step (hinv : UploadInv state) {action : PipelineAction} {next : Pipeline}
    (hcondition : skipsOnlyWritten config state action = true)
    (hstep : state.step config action = some next) : UploadInv next := by
  have hconsistent := hinv.consistent.step hstep
  have hproduced := hinv.produced.step hstep
  have hsame : ∀ path, state.ledger.contains path = true →
      KeepsPath state.storage.bucket state.storage.bucket
        state.storage.written state.storage.written path :=
    fun path _ => KeepsPath.refl _ _ path
  cases Pipeline.effect_of_step hstep with
  | submits path groupUuid sizeBytes rssBytes onSuccess =>
    have hstorage := state.submit_storage config path groupUuid sizeBytes rssBytes onSuccess
    have hledger := state.submit_ledger config path groupUuid sizeBytes rssBytes onSuccess
    refine ⟨hconsistent, hproduced, ?_, ?_, ?_⟩
    · rw [hstorage]
      exact hinv.present
    · rw [hstorage]
      exact hinv.savers
    · apply hinv.uploaded_keeps
      · intro other hother
        rw [hledger, Ledger.contains_submit] at hother
        rw [hledger]
        exact ⟨hother, Ledger.versions_submit hother path _⟩
      · rw [hstorage]
        exact hsame
  | compression | emits =>
    exact ⟨hconsistent, hproduced, hinv.present, hinv.savers,
      hinv.uploaded_keeps (fun path hpath => ⟨hpath, rfl⟩) hsame⟩
  | storage heffect =>
    obtain ⟨hpresent, hsavers, hkeeps⟩ := hinv.storageEffect hcondition heffect
    exact ⟨hconsistent, hproduced, hpresent, hsavers,
      hinv.uploaded_keeps (fun path hpath => ⟨hpath, rfl⟩) hkeeps⟩
  | notifiesEvicted | reports =>
    refine ⟨hconsistent, hproduced, hinv.present, hinv.savers, hinv.uploaded_keeps ?_ hsame⟩
    intro path hpath
    simpa using hpath
  | @uploads index before after task hpick =>
    have hmem := mem_of_pick hpick
    refine ⟨hconsistent, hproduced, hinv.present, ?_, ?_⟩
    · refine forall_mem_replace ?_ (.idle rfl)
      intro other hother
      exact hinv.savers other (mem_of_pick_others hpick hother)
    · intro path hpath
      rcases Ledger.contains_finalizeSuccess.mp hpath with
        hold | ⟨rfl, hversion⟩
      · obtain ⟨uploader, huploaded⟩ := hinv.uploaded path hold
        exact ⟨uploader, huploaded.keeps (by simp) (hsame path hold)⟩
      · cases hinv.savers _ hmem with
        | idle hphase => cases hphase
        | succeededReleased hkeySv hother =>
          exact ⟨task, hinv.produced.saver hmem, rfl, by simpa using hversion,
            hkeySv, hother⟩
  | storageFails hpick =>
    refine ⟨hconsistent, hproduced, hinv.present, ?_, hinv.uploaded_keeps ?_ hsame⟩
    · intro other hother
      exact hinv.savers other (mem_of_pick_others hpick hother)
    · intro path hpath
      simpa using hpath

end Step

theorem UploadedBy.uploadPresent {state : Pipeline} {path : Bytes}
    (huploaded : UploadedBy state path task) : UploadPresent state.storage path := by
  have hpath := huploaded.path_eq
  subst hpath
  obtain ⟨dispatch, source, uuid, hproduced⟩ := huploaded.produced
  cases huploaded.keySv with
  | own hprivate hwritten _ =>
    exact ⟨_, _, huploaded.other.object, keySvObject_private hprivate _,
      huploaded.other.written, hwritten⟩
  | shared hname hwritten =>
    exact ⟨_, _, huploaded.other.object, hproduced.keySvObject_shared hname,
      huploaded.other.written, hwritten⟩

/-- In every run in which workers skip a shared key_sv object only once it is
written, a contained path has both of its objects. -/
theorem uploadPresent_of_meets {config : PipelineConfig} {bucket : Bucket} {nextDispatch : Nat}
    {actions : List PipelineAction} {final : Pipeline} (hmeets : Meets (Pipeline.step config)
      (fun state action => skipsOnlyWritten config state action = true)
      (Pipeline.initialWith bucket nextDispatch) actions) (hrun : runFrom (Pipeline.step config)
      (Pipeline.initialWith bucket nextDispatch) actions = some final) {path : Bytes}
    (hcontains : final.ledger.contains path = true) : UploadPresent final.storage path := by
  have hinv : UploadInv final :=
    run_invariant (fun state action next hinv hcondition hstep =>
      hinv.step hcondition hstep) (uploadInv_initial bucket nextDispatch)
      hmeets hrun
  obtain ⟨task, huploaded⟩ := hinv.uploaded path hcontains
  exact huploaded.uploadPresent

/-! One group of two chunks on layer 3. -/

def unlimited : PipelineConfig := ⟨0, 0, 0, false⟩

def firstChunk : Bytes := ascii "d/a-layer_3.bin"

def secondChunk : Bytes := ascii "d/b-layer_3.bin"

/-- Both chunks are compressed in one dispatch and taken by two workers. -/
def groupTaken : List PipelineAction :=
  [.submit firstChunk (ascii "g") 1 0 none,
    .submit secondChunk (ascii "g") 1 0 none, .enqueue 0, .enqueue 0,
    .dispatch, .compress 0 [1, 1] [1, 1], .emit 0, .releaseRaw 0, .emit 0,
    .releaseRaw 0, .take, .take]

/-- The saver with this index writes one object. -/
def writeObject (saver : Nat) : List PipelineAction := [.land saver, .saveReturns saver]

theorem contains_groupTaken : ∃ final, runFrom (Pipeline.step unlimited) Pipeline.initial
    (groupTaken ++ .save 0 :: writeObject 0 ++ .save 1 :: writeObject 1 ++
      [.releaseSave 1, .finalize 1]) = some final ∧
    final.ledger.contains secondChunk = true :=
  ⟨_, rfl, by decide⟩

theorem uploadPresent_groupTaken : ∃ final, runFrom (Pipeline.step unlimited) Pipeline.initial
    (groupTaken ++ .save 0 :: writeObject 0 ++ .save 1 :: writeObject 1 ++
      [.releaseSave 1, .finalize 1]) = some final ∧
    final.ledger.contains secondChunk = true ∧
    UploadPresent final.storage secondChunk := by
  obtain ⟨final, hrun, hcontains⟩ := contains_groupTaken
  exact ⟨final, hrun, hcontains, uploadPresent_of_meets (by decide +kernel) hrun hcontains⟩

/-- The second worker finds the shared name claimed, skips it, and its chunk is
uploaded while the shared object is still in flight. -/
theorem not_uploadPresent_in_flight : ∃ final, runFrom (Pipeline.step unlimited) Pipeline.initial
    (groupTaken ++ [.save 0, .save 1] ++ writeObject 1 ++
      [.releaseSave 1, .finalize 1]) = some final ∧
    final.ledger.contains secondChunk = true ∧
    ¬ UploadPresent final.storage secondChunk :=
  ⟨_, rfl, by decide, by decide⟩

end CatKV
