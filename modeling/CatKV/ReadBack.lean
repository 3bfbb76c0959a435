/-
Read-back coherence.  `Load` joins the other half of a path with a key_sv
object whose name does not say which compression it came from.  The two halves
belong together as long as every chunk that names a shared object was
compressed in the dispatch that claimed it.
-/
import CatKV.UploadPresence

namespace CatKV

/-- The u and value factors. -/
def otherNames : List TensorName :=
  [.uQuantized, .uMeta, .valueSvQuantized, .valueSvMeta, .valueResidualSv]

/-- The key factors. -/
def keySvNames : List TensorName := [.keySvQuantized, .keySvMeta, .keyResidualSv]

/-- `Load` returns two halves of the compression of the current version. -/
def ReadsBack (state : Pipeline) (path : Bytes) : Prop :=
  ∃ version dispatch dict, state.ledger.versions path = some version ∧
    state.storage.bucket.load path = some dict ∧
    (∀ name ∈ otherNames, dict.lookup name = some (.factor ⟨dispatch, path, version⟩)) ∧
    ∀ name ∈ keySvNames, ∃ source,
      dict.lookup name = some (.factor source) ∧ source.dispatch = dispatch

/-- The shared name the worker is about to use is new, or it was claimed for
the dispatch of the worker's task. -/
def StorageState.claimsOwnDispatch (state : StorageState) (saver : Nat) : Bool :=
  match pick state.savers saver with
  | some (_, ⟨task, .taken⟩, _) =>
    match task.sharedName with
    | some name => state.keySvDispatch name == none ||
        state.keySvDispatch name == task.payload.dispatch
    | none => true
  | _ => true

/-- No unsplit object stands in the way of a submitted path, and no dispatch
uses a shared object of another dispatch or one that is not written. -/
def keepsDispatches (config : PipelineConfig) (state : Pipeline) (action : PipelineAction) : Bool :=
  skipsOnlyWritten config state action &&
    match action with
    | .submit path _ _ _ _ =>
      plainPath path && (state.storage.bucket path).isNone
    | .save saver => state.storage.claimsOwnDispatch saver
    | _ => true

/-! The dispatch of a shared object. -/

variable {task : CompressedTask} {dispatch : Nat}

theorem Produced.dispatch_eq {source : Origin} {uuid : Uuid}
    (hproduced : Produced task dispatch source uuid) : task.payload.dispatch = some dispatch := by
  rw [hproduced.payload_eq, ← hproduced.source_dispatch]
  rfl

/-- The object holds the key factors of this dispatch. -/
def FromDispatch (bucket : Bucket) (name : Bytes) (dispatch : Nat) : Prop :=
  ∃ source uuid, bucket name = some (keySvHalf source uuid) ∧ source.dispatch = dispatch

theorem Produced.fromDispatch {source : Origin} {uuid : Uuid} {bucket : Bucket}
    {name : Bytes} (hproduced : Produced task dispatch source uuid)
    (hobject : bucket name = some task.payload.keySvPayload) :
    FromDispatch bucket name dispatch := by
  refine ⟨source, uuid, ?_, hproduced.source_dispatch⟩
  rw [hobject, hproduced.payload_eq]

theorem StorageState.recordClaim_of_some {state : StorageState} {name : Bytes}
    (hclaim : state.keySvDispatch name = some dispatch) (task : CompressedTask) :
    state.recordClaim task name = some dispatch := by
  simp only [StorageState.recordClaim, hclaim]

theorem StorageState.recordClaim_eq_some {state : StorageState} {name : Bytes}
    (hclaim : state.recordClaim task name = some dispatch) :
    state.keySvDispatch name = some dispatch ∨
      (state.keySvDispatch name = none ∧ task.sharedName = some name) := by
  unfold StorageState.recordClaim at hclaim
  split at hclaim
  · next hold => exact Or.inl (hold.trans hclaim)
  · next hnone =>
    split at hclaim
    · next hname => exact Or.inr ⟨hnone, hname⟩
    · cases hclaim

/-- What a worker knows about the shared object of its task. -/
structure SaverClaims (bucket : Bucket) (keySvDispatch : Bytes → Option Nat)
    (task : CompressedTask) (phase : SaverPhase) : Prop where
  claimed : phase.isOpen = true → ∀ name, task.sharedName = some name →
    keySvDispatch name = task.payload.dispatch
  landed : ∀ name dispatch, phase = .saving (.sharedKeySv name) true →
    task.payload.dispatch = some dispatch → FromDispatch bucket name dispatch

/-- Shared objects come from the dispatch that claimed their name. -/
structure ClaimInv (storage : StorageState) : Prop where
  shared : ∀ name dispatch, storage.keySvDispatch name = some dispatch →
    ∃ sharer : CompressedTask, sharer.sharedName = some name
  claims : ∀ name dispatch, storage.keySvDispatch name = some dispatch →
    storage.written name = true → FromDispatch storage.bucket name dispatch
  claimed : ∀ (sharer : CompressedTask) name, sharer.sharedName = some name →
    storage.written name = true → ∃ dispatch, storage.keySvDispatch name = some dispatch
  savers : ∀ saver ∈ storage.savers,
    SaverClaims storage.bucket storage.keySvDispatch saver.task saver.phase

section Claims

variable {config : PipelineConfig} {state : Pipeline}

variable {task : CompressedTask} {kind : SaveKind}

theorem ClaimInv.fromDispatch_land (hinv : ClaimInv state.storage) (hupload : UploadInv state)
    (hsaver : ⟨task, .saving kind false⟩ ∈ state.storage.savers) {name : Bytes} {dispatch : Nat}
    (hclaim : state.storage.keySvDispatch name = some dispatch)
    (hfrom : FromDispatch state.storage.bucket name dispatch ∨ name = kind.object task) :
    FromDispatch (Function.update state.storage.bucket (kind.object task)
      (some (kind.content task))) name dispatch := by
  by_cases hname : name = kind.object task
  · obtain ⟨sharer, hsharer⟩ := hinv.shared name dispatch hclaim
    obtain ⟨own, source, uuid, hproduced⟩ := hupload.produced.saver hsaver
    rw [hname] at hsharer
    obtain ⟨layer, words, hlayer, habove, _, heq⟩ := CompressedTask.sharedName_eq hsharer
    obtain ⟨shared, rfl, hshared⟩ := (hupload.savers _ hsaver).fits.eq_shared hlayer habove heq
    have hown := (hinv.savers _ hsaver).claimed rfl shared hshared
    rw [show shared = name from hname.symm, hclaim, hproduced.dispatch_eq,
      Option.some.injEq] at hown
    subst hown
    apply hproduced.fromDispatch
    rw [hname, Function.update_self]
    rfl
  · obtain ⟨source, uuid, hobject, hsource⟩ := hfrom.resolve_right hname
    refine ⟨source, uuid, ?_, hsource⟩
    rw [Function.update_of_ne hname, hobject]

theorem SaverClaims.idle {bucket : Bucket} {keySvDispatch : Bytes → Option Nat} {phase : SaverPhase}
    (hphase : phase.isOpen = false) : SaverClaims bucket keySvDispatch task phase := by
  refine ⟨fun hopen => ?_, ?_⟩
  · rw [hphase] at hopen
    cases hopen
  · rintro name dispatch rfl
    cases hphase

variable {before after : List Saver}

theorem ClaimInv.begins (hupload : UploadInv state) {index : Nat}
    (hpick : pick state.storage.savers index =
      some (before, ⟨task, .taken⟩, after)) (hown : state.storage.claimsOwnDispatch index = true) :
    SaverClaims state.storage.bucket (state.storage.recordClaim task) task
      (beginSave state.storage.savedSharedKeySvPaths task).2 := by
  obtain ⟨dispatch, source, uuid, hproduced⟩ := hupload.produced.saver (mem_of_pick hpick)
  refine ⟨?_, ?_⟩
  · intro _ name hname
    rw [hproduced.dispatch_eq]
    simp only [StorageState.claimsOwnDispatch, hpick, hname, Bool.or_eq_true,
      beq_iff_eq, hproduced.dispatch_eq] at hown
    rcases hown with hnone | hsome
    · simp only [StorageState.recordClaim, hname, hnone, ↓reduceIte, hproduced.dispatch_eq]
    · exact StorageState.recordClaim_of_some hsome task
  · intro name other hphase
    rcases hproduced.beginSave_cases state.storage.savedSharedKeySvPaths with
      ⟨_, heq⟩ | ⟨_, _, heq⟩ | ⟨_, _, _, heq⟩ | ⟨_, _, _, heq⟩
    all_goals
      rw [heq] at hphase
      cases hphase

theorem ClaimInv.lands (hinv : ClaimInv state.storage) (hupload : UploadInv state) {index : Nat}
    (hpick : pick state.storage.savers index = some (before, ⟨task, .saving kind false⟩, after)) :
    ClaimInv { state.storage with
      savers := before ++ ⟨task, .saving kind true⟩ :: after
      bucket := Function.update state.storage.bucket (kind.object task)
        (some (kind.content task)) } := by
  have hsaver := mem_of_pick hpick
  refine ⟨hinv.shared, ?_, hinv.claimed, forall_mem_replace ?_ ?_⟩
  · intro name dispatch hclaim hwritten
    exact hinv.fromDispatch_land hupload hsaver hclaim
      (Or.inl (hinv.claims name dispatch hclaim hwritten))
  · intro other hother
    have hmem := mem_of_pick_others hpick hother
    obtain ⟨hclaimed, hlanded⟩ := hinv.savers other hmem
    refine ⟨hclaimed, fun name dispatch hphase hdispatch => ?_⟩
    have hprogress := hupload.savers other hmem
    rw [hphase] at hprogress
    refine hinv.fromDispatch_land hupload hsaver ?_
      (Or.inl (hlanded name dispatch hphase hdispatch))
    rw [hclaimed (by rw [hphase]; rfl) name hprogress.fits, hdispatch]
  · obtain ⟨hclaimed, _⟩ := hinv.savers _ hsaver
    refine ⟨hclaimed, ?_⟩
    rintro name dispatch hphase hdispatch
    cases hphase
    refine hinv.fromDispatch_land hupload hsaver ?_ (Or.inr rfl)
    rw [hclaimed rfl name (hupload.savers _ hsaver).fits, hdispatch]

theorem ClaimInv.returns (hinv : ClaimInv state.storage) (hupload : UploadInv state) {index : Nat}
    (hpick : pick state.storage.savers index = some (before, ⟨task, .saving kind true⟩, after)) :
    ClaimInv { state.storage with
      savers := before ++ ⟨task, kind.next⟩ :: after
      written := Function.update state.storage.written (kind.object task) true } := by
  have hsaver := mem_of_pick hpick
  obtain ⟨own, source, uuid, hproduced⟩ := hupload.produced.saver hsaver
  obtain ⟨hclaimed, hlanded⟩ := hinv.savers _ hsaver
  -- a name that just became written is the shared name of this worker
  have hnew : ∀ {sharer : CompressedTask} {name : Bytes},
      sharer.sharedName = some name → name = kind.object task →
      state.storage.keySvDispatch name = some own ∧ FromDispatch state.storage.bucket name own := by
    intro sharer name hsharer hname
    subst hname
    obtain ⟨layer, words, hlayer, habove, _, heq⟩ := CompressedTask.sharedName_eq hsharer
    obtain ⟨shared, rfl, hshared⟩ := (hupload.savers _ hsaver).fits.eq_shared hlayer habove heq
    exact ⟨(hclaimed rfl shared hshared).trans hproduced.dispatch_eq,
      hlanded shared own rfl hproduced.dispatch_eq⟩
  have hold : ∀ {name : Bytes}, name ≠ kind.object task →
      Function.update state.storage.written (kind.object task) true name =
        state.storage.written name :=
    fun hname => Function.update_of_ne hname _ _
  refine ⟨hinv.shared, ?_, ?_, forall_mem_replace (fun other hother =>
    hinv.savers other (mem_of_pick_others hpick hother)) ?_⟩
  · intro name dispatch hclaim hwritten
    by_cases hname : name = kind.object task
    · obtain ⟨sharer, hsharer⟩ := hinv.shared name dispatch hclaim
      obtain ⟨hown, hfrom⟩ := hnew hsharer hname
      rw [show state.storage.keySvDispatch name = some dispatch from hclaim,
        Option.some.injEq] at hown
      exact hown ▸ hfrom
    · exact hinv.claims name dispatch hclaim ((hold hname).symm.trans hwritten)
  · intro sharer name hsharer hwritten
    by_cases hname : name = kind.object task
    · exact ⟨own, (hnew hsharer hname).1⟩
    · exact hinv.claimed sharer name hsharer ((hold hname).symm.trans hwritten)
  · refine ⟨fun _ => hclaimed rfl, ?_⟩
    intro name dispatch hphase
    cases kind <;> cases hphase

theorem ClaimInv.storageEffect (hinv : ClaimInv state.storage) (hupload : UploadInv state)
    {action : PipelineAction} {result : StorageState}
    (hcondition : keepsDispatches config state action = true)
    (heffect : StorageEffect config state.storage action result) : ClaimInv result := by
  have hothers : ∀ {before after : List Saver} {saver : Saver} {index : Nat},
      pick state.storage.savers index = some (before, saver, after) →
      ∀ other ∈ before ++ after,
        SaverClaims state.storage.bucket state.storage.keySvDispatch other.task other.phase := by
    intro before after saver index hpick other hother
    exact hinv.savers other (mem_of_pick_others hpick hother)
  cases heffect with
  | takes hqueue =>
    exact ⟨hinv.shared, hinv.claims, hinv.claimed,
      forall_mem_concat hinv.savers (SaverClaims.idle rfl)⟩
  | skips hpick hskip =>
    simp [keepsDispatches, skipsOnlyWritten, hskip] at hcondition
  | @begins index before after task hpick hskip =>
    simp only [keepsDispatches, Bool.and_eq_true] at hcondition
    refine ⟨?_, ?_, ?_, forall_mem_replace ?_ (ClaimInv.begins hupload hpick hcondition.2)⟩
    · intro name dispatch hclaim
      rcases StorageState.recordClaim_eq_some hclaim with
        hold | ⟨_, hname⟩
      · exact hinv.shared name dispatch hold
      · exact ⟨task, hname⟩
    · intro name dispatch hclaim hwritten
      rcases StorageState.recordClaim_eq_some hclaim with
        hold | ⟨hnone, hname⟩
      · exact hinv.claims name dispatch hold hwritten
      · obtain ⟨other, hother⟩ := hinv.claimed task name hname hwritten
        rw [hnone] at hother
        cases hother
    · intro sharer name hsharer hwritten
      obtain ⟨dispatch, hold⟩ := hinv.claimed sharer name hsharer hwritten
      exact ⟨dispatch, StorageState.recordClaim_of_some hold task⟩
    · intro other hother
      obtain ⟨hclaimed, hlanded⟩ := hothers hpick other hother
      obtain ⟨dispatch, source, uuid, hproduced⟩ :=
        hupload.produced.saver (mem_of_pick_others hpick hother)
      refine ⟨fun hopen name hname => ?_, hlanded⟩
      have hold := hclaimed hopen name hname
      rw [hproduced.dispatch_eq] at hold ⊢
      exact StorageState.recordClaim_of_some hold task
  | lands hpick => exact hinv.lands hupload hpick
  | returns hpick => exact hinv.returns hupload hpick
  | quiet hpick hquiet =>
    refine ⟨hinv.shared, hinv.claims, hinv.claimed, forall_mem_replace (hothers hpick) ?_⟩
    obtain ⟨hclaimed, _⟩ := hinv.savers _ (mem_of_pick hpick)
    cases hquiet with
    | releases =>
      exact ⟨fun _ => hclaimed rfl, fun _ _ hphase => by cases hphase⟩
    | throwsShared | throws | unclaims | releasesFailed =>
      exact SaverClaims.idle rfl
  | leaves hpick =>
    exact ⟨hinv.shared, hinv.claims, hinv.claimed, hothers hpick⟩

end Claims

/-! The whole pipeline. -/

structure ReadBackInv (state : Pipeline) : Prop where
  upload : UploadInv state
  claim : ClaimInv state.storage
  fresh : ∀ path, (state.ledger.versions path).isSome →
    plainPath path = true ∧ state.storage.bucket path = none
  uploaded : ∀ path own uuid layer, state.ledger.contains path = true →
    state.storage.bucket (otherPath path) = some (otherHalf own uuid) →
    parseLayerIdx path = some layer → 2 < layer →
    state.storage.keySvDispatch (sharedKeySvPath uuid layer path) = some own.dispatch

open Pipeline

theorem readBackInv_initial (bucket : Bucket) (nextDispatch : Nat) :
    ReadBackInv (initialWith bucket nextDispatch) :=
  ⟨uploadInv_initial bucket nextDispatch, ⟨by simp [initialWith], by simp [initialWith],
      by simp [initialWith], by simp [initialWith]⟩,
    by simp [initialWith, Ledger.initial],
    by simp [initialWith, Ledger.initial, Ledger.contains]⟩

section Step

variable {config : PipelineConfig} {state next : Pipeline} {action : PipelineAction}

theorem ClaimInv.step (hinv : ClaimInv state.storage) (hupload : UploadInv state)
    (hcondition : keepsDispatches config state action = true)
    (hstep : state.step config action = some next) : ClaimInv next.storage := by
  cases effect_of_step hstep with
  | submits =>
    rw [submit_storage]
    exact hinv
  | storage heffect => exact hinv.storageEffect hupload hcondition heffect
  | compression | notifiesEvicted | reports => exact hinv
  | emits =>
    exact ⟨hinv.shared, hinv.claims, hinv.claimed, hinv.savers⟩
  | uploads hpick =>
    refine ⟨hinv.shared, hinv.claims, hinv.claimed, forall_mem_replace
      (fun other hother => ?_) (SaverClaims.idle rfl)⟩
    exact hinv.savers other (mem_of_pick_others hpick hother)
  | storageFails hpick =>
    refine ⟨hinv.shared, hinv.claims, hinv.claimed, fun other hother => ?_⟩
    exact hinv.savers other (mem_of_pick_others hpick hother)

theorem Pipeline.keySvDispatch_step (hstep : state.step config action = some next) {name : Bytes}
    {dispatch : Nat} (hclaim : state.storage.keySvDispatch name = some dispatch) :
    next.storage.keySvDispatch name = some dispatch := by
  cases effect_of_step hstep with
  | submits =>
    rw [submit_storage]
    exact hclaim
  | storage heffect =>
    cases heffect with
    | begins => exact StorageState.recordClaim_of_some hclaim _
    | takes | skips | lands | returns | quiet | leaves => exact hclaim
  | compression | notifiesEvicted | emits | reports | uploads
  | storageFails => exact hclaim

theorem ReadBackInv.fresh_step (hinv : ReadBackInv state)
    (hcondition : keepsDispatches config state action = true)
    (hstep : state.step config action = some next) (path : Bytes)
    (hsome : (next.ledger.versions path).isSome) :
    plainPath path = true ∧ next.storage.bucket path = none := by
  have hfresh : plainPath path = true ∧ state.storage.bucket path = none := by
    rcases versions_step hstep hsome with
      hold | ⟨groupUuid, sizeBytes, rssBytes, onSuccess, rfl⟩
    · exact hinv.fresh path hold
    · simpa [keepsDispatches, skipsOnlyWritten] using hcondition
  refine ⟨hfresh.1, ?_⟩
  rcases bucket_step hstep path with hsame | ⟨task, kind, hsaver, hname⟩
  · rw [hsame, hfresh.2]
  · exact absurd hname ((hinv.upload.savers _ hsaver).fits.object_ne_plain hfresh.1)

theorem ReadBackInv.uploaded_step (hinv : ReadBackInv state)
    (hstep : state.step config action = some next) {path : Bytes} {own : Origin} {uuid : Uuid}
    {layer : Int} (hcontains : next.ledger.contains path = true)
    (hobject : next.storage.bucket (otherPath path) =
      some (otherHalf own uuid)) (hlayer : parseLayerIdx path = some layer) (hshared : 2 < layer) :
    next.storage.keySvDispatch (sharedKeySvPath uuid layer path) = some own.dispatch := by
  apply keySvDispatch_step hstep
  rcases contains_step hstep hcontains with
    hold | ⟨task, hsaver, rfl, hsame⟩
  · refine hinv.uploaded path own uuid layer hold ?_ hlayer hshared
    rcases bucket_step hstep (otherPath path) with
      hsame | ⟨task, kind, hsaver, hname⟩
    · rw [← hsame, hobject]
    · have hpath := LedgerInv.not_live_of_contains hinv.upload.consistent hold
        (mem_live_of_saver hsaver (by simp))
      exact absurd hname ((hinv.upload.savers _ hsaver).fits.object_ne hpath.symm).1
  · obtain ⟨dispatch, source, words, hproduced⟩ := hinv.upload.produced.saver hsaver
    cases hinv.upload.savers _ hsaver with
    | idle hphase => cases hphase
    | succeededReleased hkeySv hother =>
      have hhalf := hother.object
      rw [← hsame, hobject, hproduced.payload_eq] at hhalf
      simp only [otherHalf, Option.some.injEq, List.cons.injEq, Prod.mk.injEq,
        TensorValue.factor.injEq, TensorValue.words.injEq, true_and, and_true] at hhalf
      obtain ⟨rfl, -, -, -, -, rfl⟩ := hhalf
      have hname : task.sharedName = some (sharedKeySvPath uuid layer task.cacheKey) := by
        simp only [CompressedTask.sharedName, hlayer,
          hproduced.uuidWords.1, gt_iff_lt, hshared, ↓reduceIte]
      rw [(hinv.claim.savers _ hsaver).claimed rfl _ hname, hproduced.dispatch_eq]

theorem ReadBackInv.step (hinv : ReadBackInv state)
    (hcondition : keepsDispatches config state action = true)
    (hstep : state.step config action = some next) : ReadBackInv next := by
  have hskips : skipsOnlyWritten config state action = true := by
    simp only [keepsDispatches, Bool.and_eq_true] at hcondition
    exact hcondition.1
  refine ⟨hinv.upload.step hskips hstep, hinv.claim.step hinv.upload hcondition hstep,
    hinv.fresh_step hcondition hstep, ?_⟩
  intro path own uuid layer
  exact hinv.uploaded_step hstep

end Step

theorem lookup_insertAll_halves (own source : Origin) (uuid keyUuid : Uuid) : (∀ name ∈ otherNames,
      ((otherHalf own uuid).insertAll (keySvHalf source keyUuid)).lookup name =
        some (.factor own)) ∧
    ∀ name ∈ keySvNames, ((otherHalf own uuid).insertAll (keySvHalf source keyUuid)).lookup name =
        some (.factor source) := by
  constructor
  · intro name hname
    simp only [otherNames, List.mem_cons, List.not_mem_nil, or_false] at hname
    rcases hname with rfl | rfl | rfl | rfl | rfl <;> rfl
  · intro name hname
    simp only [keySvNames, List.mem_cons, List.not_mem_nil, or_false] at hname
    rcases hname with rfl | rfl | rfl <;> rfl

theorem ReadBackInv.readsBack {state : Pipeline} (hinv : ReadBackInv state) {path : Bytes}
    (hcontains : state.ledger.contains path = true) : ReadsBack state path := by
  obtain ⟨task, huploaded⟩ := hinv.upload.uploaded path hcontains
  obtain ⟨dispatch, source, uuid, hproduced⟩ := huploaded.produced
  have hpath := huploaded.path_eq
  subst hpath
  have hversion := huploaded.version
  have hfull := (hinv.fresh task.cacheKey (by rw [hversion]; rfl)).2
  have hother := huploaded.other.object
  rw [hproduced.payload_eq] at hother
  obtain ⟨name, keySource, keyUuid, hname, hobject, hdispatch⟩ : ∃ name
      keySource keyUuid, keySvObject task.cacheKey (some uuid) = some name ∧
      state.storage.bucket name = some (keySvHalf keySource keyUuid) ∧
      keySource.dispatch = dispatch := by
    cases huploaded.keySv with
    | own hprivate _ hobject =>
      obtain ⟨keySource, keyUuid, hfrom⟩ := hproduced.fromDispatch hobject
      exact ⟨_, keySource, keyUuid, keySvObject_private hprivate _, hfrom⟩
    | shared hname hwritten =>
      obtain ⟨layer, words, hlayer, hshared, hwords, rfl⟩ := CompressedTask.sharedName_eq hname
      rw [hproduced.uuidWords.1, Option.some.injEq] at hwords
      subst hwords
      have hclaim := hinv.uploaded _ _ _ _ hcontains hother hlayer hshared
      obtain ⟨keySource, keyUuid, hfrom⟩ := hinv.claim.claims _ _ hclaim hwritten.1
      refine ⟨_, keySource, keyUuid, ?_, hfrom⟩
      simp only [keySvObject, hlayer, gt_iff_lt, hshared, ↓reduceIte]
  obtain ⟨hothers, hkeys⟩ := lookup_insertAll_halves
    ⟨dispatch, task.cacheKey, task.version⟩ keySource uuid keyUuid
  exact ⟨task.version, dispatch, _, hversion, Bucket.load_halves hfull hother hname hobject,
    hothers, fun key hkey => ⟨keySource, hkeys key hkey, hdispatch⟩⟩

/-- In every run in which no dispatch relies on the shared key_sv object of
another one, a contained path reads back the compression of its current
version. -/
theorem readsBack_of_meets {config : PipelineConfig} {bucket : Bucket} {nextDispatch : Nat}
    {actions : List PipelineAction} {final : Pipeline} (hmeets : Meets (Pipeline.step config)
      (fun state action => keepsDispatches config state action = true)
      (Pipeline.initialWith bucket nextDispatch) actions) (hrun : runFrom (Pipeline.step config)
      (Pipeline.initialWith bucket nextDispatch) actions = some final) {path : Bytes}
    (hcontains : final.ledger.contains path = true) : ReadsBack final path := by
  have hinv : ReadBackInv final :=
    run_invariant (fun state action next hinv hcondition hstep =>
      hinv.step hcondition hstep) (readBackInv_initial bucket nextDispatch)
      hmeets hrun
  exact hinv.readsBack hcontains

/-- Both chunks of the group come from one dispatch. -/
theorem readsBack_groupTaken : ∃ final, runFrom (Pipeline.step unlimited) Pipeline.initial
    (groupTaken ++ .save 0 :: writeObject 0 ++ .save 1 :: writeObject 1 ++
      [.releaseSave 1, .finalize 1]) = some final ∧
    final.ledger.contains secondChunk = true ∧
    ReadsBack final secondChunk := by
  obtain ⟨final, hrun, hcontains⟩ := contains_groupTaken
  exact ⟨final, hrun, hcontains, readsBack_of_meets (by decide +kernel) hrun hcontains⟩

/-- One chunk from its submission to the beginning of its save. -/
def submitAlone (groupUuid path : Bytes) : List PipelineAction :=
  [.submit path groupUuid 1 0 none, .enqueue 0, .dispatch,
    .compress 0 [1] [1], .emit 0, .releaseRaw 0, .finish 0, .take, .save 0]

/-- The second chunk is submitted after the first was uploaded. -/
def secondDispatch : List PipelineAction :=
  submitAlone (ascii "g") firstChunk ++ writeObject 0 ++ writeObject 0 ++
    [.releaseSave 0, .finalize 0, .notify 0] ++
    submitAlone (ascii "g") secondChunk ++ writeObject 0 ++
    [.releaseSave 0, .finalize 0]

/-- The second chunk is compressed in a dispatch of its own and never replaces
the key factors of the first. -/
theorem not_readsBack_secondDispatch : ∃ final, runFrom (Pipeline.step unlimited) Pipeline.initial
    secondDispatch = some final ∧
    final.ledger.contains secondChunk = true ∧
    ¬ ReadsBack final secondChunk := by
  obtain ⟨final, hrun⟩ : ∃ final, runFrom (Pipeline.step unlimited)
      Pipeline.initial secondDispatch = some final := ⟨_, rfl⟩
  have hloaded : ((runFrom (Pipeline.step unlimited) Pipeline.initial
      secondDispatch).bind fun state =>
        (state.storage.bucket.load secondChunk).map fun dict =>
          (dict.lookup .uQuantized, dict.lookup .keySvQuantized)) =
      some (some (.factor ⟨1, secondChunk, 1⟩),
        some (.factor ⟨0, firstChunk, 1⟩)) := by decide +kernel
  have hcontains : ((runFrom (Pipeline.step unlimited) Pipeline.initial
      secondDispatch).map fun state => state.ledger.contains secondChunk) =
      some true := by decide +kernel
  rw [hrun] at hloaded hcontains
  refine ⟨final, hrun, Option.some.inj hcontains, ?_⟩
  rintro ⟨version, dispatch, dict, _, hload, hothers, hkeys⟩
  obtain ⟨source, hkey, hsource⟩ := hkeys .keySvQuantized (by decide)
  simp only [Option.bind_some, hload, Option.map_some, hkey, hothers .uQuantized (by decide),
    Option.some.injEq, Prod.mk.injEq, TensorValue.factor.injEq, Origin.mk.injEq] at hloaded
  rw [hloaded.1.1, hloaded.2] at hsource
  cases hsource

end CatKV
