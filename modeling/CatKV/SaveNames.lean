/-
Which objects a save worker writes.  Every save of a compressed chunk goes to
the other half of its path, to its private key_sv object or to its shared one,
and these three families of names never meet.
-/
import CatKV.Provenance

namespace CatKV

/-! The name of the key_sv object of a task. -/

/-- The key_sv object of the path is not shared. -/
def PrivateKeySv (path : Bytes) : Prop := ∃ layer, parseLayerIdx path = some layer ∧ layer ≤ 2

variable {task : CompressedTask} {dispatch : Nat} {source : Origin} {uuid : Uuid}

theorem Produced.uuidWords (hproduced : Produced task dispatch source uuid) :
    task.payload.keySvPayload.uuidWords = some uuid ∧
      task.payload.otherPayload.uuidWords = some uuid := by
  rw [hproduced.payload_eq]
  exact ⟨rfl, rfl⟩

theorem CompressedTask.sharedName_eq {name : Bytes} (hname : task.sharedName = some name) :
    ∃ layer uuid, parseLayerIdx task.cacheKey = some layer ∧ 2 < layer ∧
      task.payload.keySvPayload.uuidWords = some uuid ∧
      name = sharedKeySvPath uuid layer task.cacheKey := by
  unfold CompressedTask.sharedName at hname
  split at hname
  · next layer uuid hlayer huuid =>
    split at hname
    · next hshared =>
      cases hname
      exact ⟨layer, uuid, hlayer, hshared, huuid, rfl⟩
    · cases hname
  · cases hname

theorem Produced.keySvObject_shared {name : Bytes} (hproduced : Produced task dispatch source uuid)
    (hname : task.sharedName = some name) :
    keySvObject task.cacheKey task.payload.otherPayload.uuidWords = some name := by
  obtain ⟨layer, words, hlayer, hshared, hwords, rfl⟩ := CompressedTask.sharedName_eq hname
  rw [hproduced.uuidWords.1, Option.some.injEq] at hwords
  subst hwords
  simp only [keySvObject, hlayer, hproduced.uuidWords.2, gt_iff_lt, hshared, ↓reduceIte]

variable {path : Bytes}

theorem keySvObject_private (hprivate : PrivateKeySv path) (uuid : Option Uuid) :
    keySvObject path uuid = some (keySvPath path) := by
  obtain ⟨layer, hlayer, hle⟩ := hprivate
  have hnot : ¬ layer > 2 := by omega
  cases uuid with
  | none => simp only [keySvObject, hlayer]
  | some words => simp only [keySvObject, hlayer, hnot, ↓reduceIte]

theorem keySvPath_ne_shared {base : Bytes} (hprivate : PrivateKeySv path) {layer : Int}
    (hlayer : parseLayerIdx base = some layer) (hshared : 2 < layer) (uuid : Uuid) :
    keySvPath path ≠ sharedKeySvPath uuid layer base := by
  intro heq
  have hlt := parseLayerIdx_le hlayer
  obtain ⟨number, rfl⟩ : ∃ number : Nat, layer = number := ⟨layer.toNat, by omega⟩
  obtain ⟨own, hown, hle⟩ := hprivate
  have hparse := parseLayerIdx_of_keySvPath_eq_shared (by omega) heq
  rw [hown, Option.some.injEq] at hparse
  omega

theorem Produced.beginSave_cases
    (hproduced : Produced task dispatch source uuid) (claimed : List Bytes) :
    (task.sharedName = none ∧ (beginSave claimed task).2 = .failed layerRangeError) ∨
    (task.sharedName = none ∧ PrivateKeySv task.cacheKey ∧
      (beginSave claimed task).2 = .saving .keySv false) ∨
    (∃ name, task.sharedName = some name ∧ name ∈ claimed ∧
      (beginSave claimed task).2 = .saving .other false) ∨
    (∃ name, task.sharedName = some name ∧ name ∉ claimed ∧
      (beginSave claimed task).2 = .saving (.sharedKeySv name) false) := by
  have hsplit : task.payload.isSplit = true := by
    rw [hproduced.payload_eq]
  have huuid := hproduced.uuidWords.1
  unfold beginSave CompressedTask.sharedName
  simp only [hsplit, Bool.not_true, Bool.false_eq_true, ↓reduceIte, huuid]
  cases hlayer : parseLayerIdx task.cacheKey with
  | none => exact Or.inl ⟨rfl, rfl⟩
  | some layer =>
    by_cases hshared : layer > 2
    · simp only [hshared, ↓reduceIte, Option.some.injEq, exists_eq_left']
      by_cases hclaimed : sharedKeySvPath uuid layer task.cacheKey ∈ claimed
      · exact Or.inr (Or.inr (Or.inl ⟨hclaimed, by rw [if_pos hclaimed]⟩))
      · exact Or.inr (Or.inr (Or.inr ⟨hclaimed, by rw [if_neg hclaimed]⟩))
    · simp only [hshared, ↓reduceIte]
      exact Or.inr (Or.inl ⟨trivial, ⟨layer, hlayer, by omega⟩, trivial⟩)

/-- The path is not itself the name of a half. -/
def plainPath (path : Bytes) : Bool := !otherSuffix.isSuffixOf path && !keySvSuffix.isSuffixOf path

theorem ne_append_suffix (hplain : plainPath path = true) (before : Bytes) :
    path ≠ before ++ otherSuffix ∧ path ≠ before ++ keySvSuffix := by
  simp only [plainPath, Bool.and_eq_true, Bool.not_eq_true',
    ← Bool.not_eq_true, List.isSuffixOf_iff_suffix] at hplain
  exact ⟨fun heq => hplain.1 ⟨before, heq.symm⟩, fun heq => hplain.2 ⟨before, heq.symm⟩⟩

/-- The object a worker saves is one of its task's own. -/
def SaveKind.Fits (task : CompressedTask) : SaveKind → Prop
  | .full => False
  | .keySv => PrivateKeySv task.cacheKey
  | .sharedKeySv name => task.sharedName = some name
  | .other => True

variable {kind : SaveKind}

theorem SaveKind.Fits.object_ne (hfits : kind.Fits task) (hpath : path ≠ task.cacheKey) :
    otherPath path ≠ kind.object task ∧
      (PrivateKeySv path → keySvPath path ≠ kind.object task) := by
  cases kind with
  | full => exact hfits.elim
  | keySv =>
    constructor
    · exact otherPath_ne_keySvPath path task.cacheKey
    · intro _ heq
      exact hpath (keySvPath_injective heq)
  | sharedKeySv name =>
    obtain ⟨layer, uuid, hlayer, hshared, _, rfl⟩ := CompressedTask.sharedName_eq hfits
    constructor
    · exact otherPath_ne_sharedKeySvPath path uuid layer task.cacheKey
    · intro hprivate
      exact keySvPath_ne_shared hprivate hlayer hshared uuid
  | other =>
    constructor
    · intro heq
      exact hpath (otherPath_injective heq)
    · intro _
      exact (otherPath_ne_keySvPath task.cacheKey path).symm

theorem SaveKind.Fits.object_ne_plain (hfits : kind.Fits task)
    (hplain : plainPath path = true) : path ≠ kind.object task := by
  cases kind with
  | full => exact hfits.elim
  | keySv => exact (ne_append_suffix hplain task.cacheKey).2
  | sharedKeySv name =>
    obtain ⟨layer, uuid, _, _, _, rfl⟩ := CompressedTask.sharedName_eq hfits
    exact (ne_append_suffix hplain _).2
  | other => exact (ne_append_suffix hplain task.cacheKey).1

theorem SaveKind.Fits.eq_shared (hfits : kind.Fits task) {base : Bytes} {layer : Int}
    (hlayer : parseLayerIdx base = some layer) (hshared : 2 < layer)
    (hobject : kind.object task = sharedKeySvPath uuid layer base) :
    ∃ name, kind = .sharedKeySv name ∧ task.sharedName = some name := by
  cases kind with
  | full => exact hfits.elim
  | keySv =>
    exact absurd hobject (keySvPath_ne_shared hfits hlayer hshared uuid)
  | sharedKeySv name => exact ⟨name, rfl, hfits⟩
  | other =>
    exact absurd hobject (otherPath_ne_sharedKeySvPath task.cacheKey uuid layer base)

/-- Every save in flight goes to an object of its task. -/
def Pipeline.SavesFit (state : Pipeline) : Prop :=
  ∀ saver ∈ state.storage.savers, ∀ kind landed,
    saver.phase = .saving kind landed → kind.Fits saver.task

theorem savesFit_initial (bucket : Bucket) (nextDispatch : Nat) :
    (Pipeline.initialWith bucket nextDispatch).SavesFit := by
  simp [Pipeline.SavesFit, Pipeline.initialWith]

theorem Produced.beginSave_fits (hproduced : Produced task dispatch source uuid)
    {claimed : List Bytes} {landed : Bool}
    (hphase : (beginSave claimed task).2 = .saving kind landed) : kind.Fits task := by
  rcases hproduced.beginSave_cases claimed with
    ⟨_, heq⟩ | ⟨_, hprivate, heq⟩ | ⟨name, _, _, heq⟩ | ⟨name, hname, _, heq⟩
  all_goals
    rw [heq] at hphase
    cases hphase
  · exact hprivate
  · exact trivial
  · exact hname

variable {state : Pipeline}

theorem Pipeline.AllProduced.saver (hproduced : state.AllProduced)
    {saver : Saver} (hsaver : saver ∈ state.storage.savers) :
    ∃ dispatch source uuid, Produced saver.task dispatch source uuid := by
  refine hproduced saver.task (List.mem_append_right _ ?_)
  exact List.mem_append_right _ (List.mem_map_of_mem hsaver)

theorem StorageEffect.savesFit {config : PipelineConfig} {action : PipelineAction}
    {result : StorageState} (hinv : state.SavesFit) (hproduced : state.AllProduced)
    (heffect : StorageEffect config state.storage action result) :
    Pipeline.SavesFit { state with storage := result } := by
  have hothers : ∀ {before after : List Saver} {saver : Saver} {index : Nat},
      pick state.storage.savers index = some (before, saver, after) →
      ∀ other ∈ before ++ after, ∀ kind landed,
        other.phase = .saving kind landed → kind.Fits other.task := by
    intro before after saver index hpick other hother
    exact hinv other (mem_of_pick_others hpick hother)
  cases heffect with
  | takes hqueue =>
    intro saver hsaver kind landed hphase
    rcases List.mem_append.mp hsaver with hold | hnew
    · exact hinv saver hold kind landed hphase
    · rw [List.mem_singleton.mp hnew] at hphase
      cases hphase
  | skips hpick =>
    exact forall_mem_replace (hothers hpick) (fun kind landed hphase => by cases hphase)
  | begins hpick =>
    obtain ⟨dispatch, source, uuid, htask⟩ := hproduced.saver (mem_of_pick hpick)
    exact forall_mem_replace (hothers hpick) (fun kind landed hphase => htask.beginSave_fits hphase)
  | lands hpick =>
    refine forall_mem_replace (hothers hpick) fun kind landed hphase => ?_
    cases hphase
    exact hinv _ (mem_of_pick hpick) _ false rfl
  | @returns index before after task kind hpick =>
    refine forall_mem_replace (hothers hpick) fun next landed hphase => ?_
    cases kind <;> cases hphase <;> exact trivial
  | quiet hpick hquiet =>
    refine forall_mem_replace (hothers hpick) fun kind landed hphase => ?_
    cases hquiet <;> cases hphase
  | leaves hpick => exact hothers hpick

theorem Pipeline.SavesFit.step {config : PipelineConfig} {next : Pipeline} {action : PipelineAction}
    (hinv : state.SavesFit) (hproduced : state.AllProduced)
    (hstep : state.step config action = some next) : next.SavesFit := by
  cases Pipeline.effect_of_step hstep with
  | submits =>
    unfold Pipeline.SavesFit
    rw [Pipeline.submit_storage]
    exact hinv
  | storage heffect => exact heffect.savesFit hinv hproduced
  | compression | notifiesEvicted | emits | reports => exact hinv
  | uploads hpick =>
    refine forall_mem_replace (fun other hother => ?_) (fun kind landed hphase => by cases hphase)
    exact hinv other (mem_of_pick_others hpick hother)
  | storageFails hpick =>
    intro other hother
    exact hinv other (mem_of_pick_others hpick hother)

end CatKV
