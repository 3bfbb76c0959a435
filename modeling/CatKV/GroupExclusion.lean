/-
Batches of the compression workers.  The key a group is dispatched under names
its group id and layer uniquely, a worker only collects tasks of its own key,
and a key stays active for as long as its worker holds the batch.
-/
import CatKV.PipelineLive

namespace CatKV

open List

def layerKeyMarker : Bytes := ascii "|layer="

/-- The key of a group id and a cache key, as `DispatchGroupKey` builds it. -/
def memberKey (member : Bytes × Bytes) : Option Bytes :=
  if member.1 = [] then some []
  else (parseLayerIdx member.2).map fun layer =>
    member.1 ++ layerKeyMarker ++ decimalInt layer

def RawTask.member (task : RawTask) : Bytes × Bytes := (task.groupUuid, task.cacheKey)

def CompressedTask.member (task : CompressedTask) : Bytes × Bytes := (task.groupUuid, task.cacheKey)

theorem dispatchGroupKey_eq (task : RawTask) : dispatchGroupKey task = memberKey task.member := rfl

/-- The tasks of its batch a worker still has to deal with. -/
def WorkerPhase.members : WorkerPhase → List (Bytes × Bytes)
  | .collecting batch => batch.map RawTask.member
  | .emitting tasks => tasks.map CompressedTask.member
  | .releasing _ tasks => tasks.map CompressedTask.member
  | .reporting _ failed => failed.map RawTask.member
  | .releasingFailed _ _ failed => failed.map RawTask.member

/-- At most one task, without a group, or tasks of one group and one layer. -/
def OneGroup (members : List (Bytes × Bytes)) : Prop :=
  (members.length ≤ 1 ∧ ∀ member ∈ members, member.1 = []) ∨
    ∃ groupUuid layer, groupUuid ≠ [] ∧ ∀ member ∈ members,
      member.1 = groupUuid ∧ parseLayerIdx member.2 = some layer

/-! The key determines the group and the layer. -/

/-- The layer number has no bar, so the marker found last is the one before
it, whatever the group id contains. -/
theorem rfind_layerKey (groupUuid : Bytes) (layer : Int) :
    rfind layerKeyMarker (groupUuid ++ layerKeyMarker ++ decimalInt layer) =
      some groupUuid.length := by
  refine rfind_append groupUuid (decimalInt layer) (rfind_eq_none_of_head_not_mem ?_)
  simp only [mem_append, not_or]
  exact ⟨by decide, not_mem_decimalInt (by decide) (by decide) layer⟩

theorem layerKey_injective {left right : Bytes} {layer layer' : Int}
    (heq : left ++ layerKeyMarker ++ decimalInt layer =
      right ++ layerKeyMarker ++ decimalInt layer') : left = right ∧ layer = layer' := by
  have hlength : left.length = right.length := by
    have hfind := congrArg (rfind layerKeyMarker) heq
    simpa only [rfind_layerKey, Option.some.injEq] using hfind
  simp only [append_assoc] at heq
  obtain ⟨hgroup, hrest⟩ := append_inj heq hlength
  exact ⟨hgroup, decimalInt_injective (append_cancel_left hrest)⟩

variable {member : Bytes × Bytes}

theorem memberKey_eq_nil (hkey : memberKey member = some []) : member.1 = [] := by
  unfold memberKey at hkey
  split at hkey
  · assumption
  · obtain ⟨layer, _, hlayer⟩ := Option.map_eq_some_iff.mp hkey
    have hlength := congrArg List.length hlayer
    simp [layerKeyMarker, ascii] at hlength

variable {key : Bytes}

theorem memberKey_eq (hkey : memberKey member = some key) (hne : key ≠ []) :
    member.1 ≠ [] ∧ ∃ layer, parseLayerIdx member.2 = some layer ∧
      key = member.1 ++ layerKeyMarker ++ decimalInt layer := by
  unfold memberKey at hkey
  split at hkey
  · cases hkey
    exact absurd rfl hne
  · next hgroup =>
    obtain ⟨layer, hlayer, hkey⟩ := Option.map_eq_some_iff.mp hkey
    exact ⟨hgroup, layer, hlayer, hkey.symm⟩

theorem oneGroup_of_key {members : List (Bytes × Bytes)}
    (hkeyed : ∀ member ∈ members, memberKey member = some key)
    (hsingle : key = [] → members.length ≤ 1) : OneGroup members := by
  by_cases hkey : key = []
  · subst hkey
    exact Or.inl ⟨hsingle rfl, fun member hmember => memberKey_eq_nil (hkeyed member hmember)⟩
  · cases members with
    | nil => exact Or.inl ⟨Nat.zero_le 1, by simp⟩
    | cons first rest =>
      obtain ⟨hgroup, layer, hlayer, hfirst⟩ := memberKey_eq (hkeyed first mem_cons_self) hkey
      refine Or.inr ⟨first.1, layer, hgroup, fun member hmember => ?_⟩
      obtain ⟨_, layer', hlayer', hother⟩ := memberKey_eq (hkeyed member hmember) hkey
      obtain ⟨hsame, rfl⟩ := layerKey_injective (hother ▸ hfirst)
      exact ⟨hsame, hlayer'⟩

/-! Keys of the workers. -/

theorem takeDispatchable_key {active : List Bytes} {queue rest : List RawTask} {task : RawTask}
    (htake : takeDispatchable active queue = some (key, task, rest)) :
    dispatchGroupKey task = some key ∧ (key ≠ [] → key ∉ active) := by
  induction queue generalizing rest with
  | nil => simp [takeDispatchable] at htake
  | cons head tail ih =>
    unfold takeDispatchable at htake
    split at htake
    · cases htake
    · next found hfound =>
      split at htake
      · split at htake
        · cases htake
        · next hrest =>
          cases htake
          exact ih hrest
      · next hinactive =>
        cases htake
        exact ⟨hfound, fun hne hmem => hinactive ⟨hne, hmem⟩⟩

structure GroupsInv (state : CompressionState) : Prop where
  keyed : ∀ worker ∈ state.workers, ∀ member ∈ worker.phase.members,
    memberKey member = some worker.groupKey
  single : ∀ worker ∈ state.workers, worker.groupKey = [] → worker.phase.members.length ≤ 1
  active : ∀ worker ∈ state.workers, worker.groupKey ≠ [] → worker.groupKey ∈ state.activeGroupKeys
  exclusive : ∀ key, key ≠ [] → (state.workers.map Worker.groupKey).count key ≤ 1

theorem groupsInv_initial (uuidCounter nextDispatch : Nat) :
    GroupsInv ⟨[], [], 0, [], [], uuidCounter, nextDispatch⟩ :=
  ⟨by simp, by simp, by simp, by simp⟩

variable {state result : CompressionState}

theorem GroupsInv.of_workers_eq (hinv : GroupsInv state) (hworkers : result.workers = state.workers)
    (hactive : result.activeGroupKeys = state.activeGroupKeys) : GroupsInv result :=
  ⟨by rw [hworkers]; exact hinv.keyed, by rw [hworkers]; exact hinv.single,
    by rw [hworkers, hactive]; exact hinv.active,
    by rw [hworkers]; exact hinv.exclusive⟩

variable {before after : List Worker} {phase : WorkerPhase}

theorem GroupsInv.replace (hinv : GroupsInv state) {phase' : WorkerPhase}
    (hworkers : state.workers = before ++ ⟨key, phase⟩ :: after)
    (hworkers' : result.workers = before ++ ⟨key, phase'⟩ :: after)
    (hactive : result.activeGroupKeys = state.activeGroupKeys)
    (hkeyed : ∀ member ∈ phase'.members, memberKey member = some key)
    (hsingle : key = [] → phase'.members.length ≤ 1) : GroupsInv result := by
  have hmem : (⟨key, phase⟩ : Worker) ∈ state.workers := by
    rw [hworkers]
    simp
  have hothers : ∀ other ∈ before ++ after, other ∈ state.workers := by
    intro other hother
    rw [hworkers]
    simp only [mem_append, mem_cons] at hother ⊢
    tauto
  refine ⟨?_, ?_, ?_, ?_⟩
  · rw [hworkers']
    exact forall_mem_replace (fun other hother => hinv.keyed other (hothers other hother)) hkeyed
  · rw [hworkers']
    exact forall_mem_replace (fun other hother => hinv.single other (hothers other hother)) hsingle
  · rw [hworkers', hactive]
    exact forall_mem_replace (fun other hother => hinv.active other (hothers other hother))
      (hinv.active ⟨key, phase⟩ hmem)
  · have hkeys : result.workers.map Worker.groupKey = state.workers.map Worker.groupKey := by
      rw [hworkers, hworkers']
      simp
    rw [hkeys]
    exact hinv.exclusive

theorem GroupsInv.shrink (hinv : GroupsInv state) {phase' : WorkerPhase} {index : Nat}
    (hpick : pick state.workers index = some (before, ⟨key, phase⟩, after))
    (hworkers' : result.workers = before ++ ⟨key, phase'⟩ :: after)
    (hactive : result.activeGroupKeys = state.activeGroupKeys)
    (hsublist : phase'.members.Sublist phase.members) : GroupsInv result := by
  have hmem := mem_of_pick hpick
  refine hinv.replace (pick_eq hpick) hworkers' hactive ?_ ?_
  · exact fun member hmember =>
      hinv.keyed _ hmem member (hsublist.subset hmember)
  · exact fun hkey => hsublist.length_le.trans (hinv.single _ hmem hkey)

theorem GroupsInv.dispatch (hinv : GroupsInv state)
    (hworkers : result.workers = state.workers ++ [⟨key, phase⟩])
    (hactive : ∀ other ∈ state.activeGroupKeys,
      other ∈ result.activeGroupKeys) (hkey : key ≠ [] → key ∈ result.activeGroupKeys ∧
      key ∉ state.activeGroupKeys) (hkeyed : ∀ member ∈ phase.members, memberKey member = some key)
    (hsingle : key = [] → phase.members.length ≤ 1) : GroupsInv result := by
  refine ⟨?_, ?_, ?_, ?_⟩
  · simp only [hworkers, forall_mem_append, forall_mem_singleton]
    exact ⟨hinv.keyed, hkeyed⟩
  · simp only [hworkers, forall_mem_append, forall_mem_singleton]
    exact ⟨hinv.single, hsingle⟩
  · simp only [hworkers, forall_mem_append, forall_mem_singleton]
    exact ⟨fun worker hworker hne =>
      hactive _ (hinv.active worker hworker hne), fun hne => (hkey hne).1⟩
  · intro other hne
    have hle := hinv.exclusive other hne
    simp only [hworkers, map_append, map_cons, map_nil, count_append, count_singleton]
    split
    · next hsame =>
      have hsame : key = other := by simpa using hsame
      subst hsame
      have hfresh : key ∉ state.workers.map Worker.groupKey := by
        intro hmem
        obtain ⟨worker, hworker, hkey'⟩ := mem_map.mp hmem
        exact (hkey hne).2 (hkey' ▸ hinv.active worker hworker (hkey'.symm ▸ hne))
      rw [count_eq_zero_of_not_mem hfresh]
    · omega

theorem GroupsInv.leave (hinv : GroupsInv state) {index : Nat}
    (hpick : pick state.workers index = some (before, ⟨key, phase⟩, after)) :
    GroupsInv { state with
      activeGroupKeys := state.activeGroupKeys.erase key
      workers := before ++ after } := by
  have hothers : ∀ other ∈ before ++ after, other ∈ state.workers :=
    fun other hother => mem_of_pick_others hpick hother
  refine ⟨fun worker hworker => hinv.keyed worker (hothers worker hworker),
    fun worker hworker => hinv.single worker (hothers worker hworker), ?_, ?_⟩
  · intro worker hworker hne
    have hother : worker.groupKey ≠ key := by
      rintro hsame
      have hle := hinv.exclusive worker.groupKey hne
      have hpos := count_pos_iff.mpr (mem_map_of_mem hworker : worker.groupKey ∈ _)
      simp only [pick_eq hpick, map_append, map_cons, count_append, count_cons, hsame, BEq.rfl,
        if_true] at hle hpos
      omega
    exact (mem_erase_of_ne hother).mpr (hinv.active worker (hothers worker hworker) hne)
  · intro other hne
    have hle := hinv.exclusive other hne
    simp only [pick_eq hpick, map_append, map_cons, count_append, count_cons] at hle ⊢
    omega

theorem memberKey_of_inGroup {queue : List RawTask}
    (hmember : member ∈ (queue.filter (inGroup key)).map RawTask.member) :
    memberKey member = some key := by
  obtain ⟨task, htask, rfl⟩ := mem_map.mp hmember
  have hgroup := (mem_filter.mp htask).2
  simpa only [inGroup, beq_iff_eq, dispatchGroupKey_eq] using hgroup

theorem compressBatch_members (dispatch : Nat) (uuid : Uuid)
    (ranks sizes : List Nat) (batch : List RawTask) :
    (compressBatch dispatch uuid ranks sizes batch).map CompressedTask.member =
      batch.map RawTask.member :=
  compressBatch_map (fun _ _ _ => rfl) dispatch uuid ranks sizes batch

theorem CompressionEffect.groups {config : PipelineConfig} {action : PipelineAction}
    (heffect : CompressionEffect config state action result) (hinv : GroupsInv state) :
    GroupsInv result := by
  cases heffect with
  | evicts | enqueues => exact hinv.of_workers_eq rfl rfl
  | dispatchesSingle htake =>
    refine hinv.dispatch rfl (fun _ hother => hother)
      (fun hne => absurd rfl hne) ?_ fun _ => Nat.le_refl 1
    simp only [WorkerPhase.members, map_cons, map_nil, forall_mem_singleton]
    exact (takeDispatchable_key htake).1
  | dispatchesGroup htake hkey =>
    obtain ⟨htask, hinactive⟩ := takeDispatchable_key htake
    refine hinv.dispatch rfl (fun _ hother => mem_cons_of_mem _ hother)
      (fun hne => ⟨mem_cons_self, hinactive hne⟩) ?_
      fun hnil => absurd hnil hkey
    simp only [WorkerPhase.members, map_cons, forall_mem_cons]
    exact ⟨htask, fun member hmember => memberKey_of_inGroup hmember⟩
  | collects hpick hkey =>
    refine hinv.replace (pick_eq hpick) rfl rfl ?_ fun hnil => absurd hnil hkey
    simp only [WorkerPhase.members, map_append, forall_mem_append]
    exact ⟨hinv.keyed _ (mem_of_pick hpick), fun member hmember => memberKey_of_inGroup hmember⟩
  | compresses hpick =>
    refine hinv.shrink hpick rfl rfl ?_
    simp only [WorkerPhase.members, compressBatch_members]
    exact List.Sublist.refl _
  | fails hpick | releases hpick | releasesFailed hpick =>
    exact hinv.shrink hpick rfl rfl (.refl _)
  | finishes hpick | finishesFailed hpick => exact hinv.leave hpick

theorem GroupsInv.step {config : PipelineConfig} {state next : Pipeline}
    (hinv : GroupsInv state.compression) {action : PipelineAction}
    (hstep : state.step config action = some next) : GroupsInv next.compression := by
  cases Pipeline.effect_of_step hstep with
  | submits =>
    unfold Pipeline.submit
    split
    · exact hinv.of_workers_eq rfl rfl
    · exact hinv
  | compression heffect => exact heffect.groups hinv
  | notifiesEvicted => exact hinv.of_workers_eq rfl rfl
  | emits hpick | reports hpick =>
    exact hinv.shrink hpick rfl rfl (sublist_cons_self _ _)
  | storage | uploads | storageFails => exact hinv

end CatKV
