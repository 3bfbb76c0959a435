/-
Several prefetches outstanding at once.  A request with a miss is kept under the
number of its load; a request that hits in full is kept under its first path,
which another request may share.  What a load returns are views of the arenas,
which a later load may be given before the result is fetched.
-/
import Mathlib.Data.List.Nodup
import Mathlib.Data.List.Pairwise
import CatKV.ArenaSafety
import CatKV.PrefetchAlignment

namespace CatKV

open List

variable {α : Type}

/-! The memory of the loads. -/

/-- The loads with a region that another load was given too or that lies in a
block which was freed. -/
def ArenaState.clashing (state : ArenaState) : List Nat :=
  (state.cpuLive.filter fun region => state.cpuLive.any fun other =>
    other.owner != region.owner && !decide (region.span.Separate other.span)).map (·.owner) ++
  (state.gpuLive.filter fun region => region.placement.arena != state.gpu.arena ||
    state.gpuLive.any fun other => other.owner != region.owner &&
      !decide (region.span.Separate other.span)).map (·.owner)

theorem ArenaInv.clashing_eq {state : ArenaState} (hinv : ArenaInv state) :
    state.clashing = [] := by
  have hcpu : Std.Symm fun left right : CpuRegion => left.span.Separate right.span :=
    ⟨fun _ _ => Interval.Separate.symm⟩
  have hgpu : Std.Symm fun left right : GpuRegion => left.span.Separate right.span :=
    ⟨fun _ _ => Interval.Separate.symm⟩
  simp only [ArenaState.clashing, append_eq_nil_iff, map_eq_nil_iff, filter_eq_nil_iff,
    Bool.or_eq_true, any_eq_true, Bool.and_eq_true, bne_iff_ne, Bool.not_eq_true',
    decide_eq_false_iff_not]
  refine ⟨fun region hregion => ?_, fun region hregion => ?_⟩
  · rintro ⟨other, hother, howner, hclash⟩
    exact hclash (hinv.cpu.separate.forall hregion hother
      fun heq => howner (congrArg CpuRegion.owner heq.symm))
  · rintro (hfreed | ⟨other, hother, howner, hclash⟩)
    · exact hfreed (hinv.gpu.current region hregion).2
    · exact hclash (hinv.gpu.separate.forall hregion hother
        fun heq => howner (congrArg GpuRegion.owner heq.symm))

/-- The arenas with the load of each task that began, the loads whose bytes
others were given too, and those that raised. -/
structure LoadMemory where
  arenas : ArenaState
  loadOf : Nat → Option Nat
  overwritten : List Nat
  failed : List Nat

def LoadMemory.start (capacity : Nat) : LoadMemory := ⟨.initial capacity, fun _ => none, [], []⟩

/-- A load that is no longer in progress has returned or failed. -/
def LoadMemory.step (memory : LoadMemory) (action : ArenaAction) : Option LoadMemory :=
  (memory.arenas.step action).map fun arenas =>
    { memory with
      arenas
      overwritten := memory.overwritten ++ arenas.clashing
      failed := memory.failed ++ match action with
        | .returnsCpu _ | .returnsGpu _ => []
        | _ => ((memory.arenas.downloading ++ memory.arenas.copying).map Load.id).filter
          fun load => !arenas.inProgress load }

theorem LoadMemory.intact_step {memory next : LoadMemory} {action : ArenaAction}
    (hinv : ArenaInv memory.arenas ∧ memory.overwritten = [])
    (hroom : ArenaRoom memory.arenas action) (hstep : memory.step action = some next) :
    ArenaInv next.arenas ∧ next.overwritten = [] := by
  obtain ⟨arenas, harenas, rfl⟩ := Option.map_eq_some_iff.mp hstep
  have hnext := arenaInv_step _ _ _ hinv.1 hroom harenas
  exact ⟨hnext, append_eq_nil_iff.mpr ⟨hinv.2, hnext.clashing_eq⟩⟩

/-! The client. -/

/-- One call of `prefetch_remote`, with what the CPU store returned for it. -/
structure PrefetchRequest (α : Type) where
  paths : List Bytes
  cpuData : List (NamedTensors α)
  dedup : Option DedupGroups
  paths_ne_nil : paths ≠ []
  length_eq : cpuData.length = paths.length

/-- What one call of `get_prefetch_result` gave when the load saw the bucket;
no result when it raised. -/
structure PrefetchOutcome (α : Type) where
  request : PrefetchRequest α
  bucket : Bytes → Option (NamedTensors α)
  result : Option (List (Option (NamedTensors α)))

/-- The call returned the data of its own prefetch. -/
def PrefetchOutcome.Own (outcome : PrefetchOutcome α) : Prop :=
  outcome.result = some ((alignedResult outcome.bucket outcome.request.paths
    outcome.request.cpuData outcome.request.dedup).map some)

/-- `get_prefetch_result` when the load raised: both have lost the task, and only
the plan is left. -/
def PrefetchAdapter.loadRaises (adapter : PrefetchAdapter α) (number : Nat) : PrefetchAdapter α :=
  { adapter with
    key := Function.update adapter.key (.task number) none
    scheduler := adapter.scheduler.take number }

instance [DecidableEq α] (outcome : PrefetchOutcome α) : Decidable outcome.Own := by
  unfold PrefetchOutcome.Own
  infer_instance

structure PrefetchClient (α : Type) where
  adapter : PrefetchAdapter α
  memory : LoadMemory
  outstanding : List (PrefetchId × PrefetchRequest α)
  outcomes : List (PrefetchOutcome α)

def PrefetchClient.start (capacity : Nat) : PrefetchClient α := ⟨.start, .start capacity, [], []⟩

/-- The pool begins the load of a task, or some load or holder of tensors moves
on in the arenas.  A fetch comes with what the load saw in the bucket and with
what stands in the arenas where its tensors are, if others were given them. -/
inductive PrefetchAction (α : Type) where
  | prefetch (request : PrefetchRequest α)
  | load (number : Nat) (sizes : List Nat) (deviceId : Option Nat)
  | arena (action : ArenaAction)
  | fetch (index : Nat) (bucket views : Bytes → Option (NamedTensors α)) (onDevice : Bool)
  | loadRaises (index : Nat)

namespace PrefetchClient

def loadOf (client : PrefetchClient α) : PrefetchId → Option Nat
  | .task number => client.memory.loadOf number
  | .path _ => none

/-- The future of a task holds the tensors until they are fetched. -/
def holds (client : PrefetchClient α) : ArenaAction → Bool
  | .dropCpu owner | .dropGpu owner =>
    client.outstanding.any fun entry => client.loadOf entry.1 == some owner
  | _ => false

/-- A load that a fetch would wait for has returned. -/
def ready (client : PrefetchClient α) : PrefetchId → Bool
  | .path _ => true
  | .task number => (client.memory.loadOf number).any fun load =>
    !client.memory.arenas.inProgress load && !client.memory.failed.contains load

/-- What the tensors of a load show. -/
def shown (client : PrefetchClient α) (id : PrefetchId)
    (bucket views : Bytes → Option (NamedTensors α)) : Bytes → Option (NamedTensors α) :=
  if (client.loadOf id).any client.memory.overwritten.contains then views else bucket

/-- Results are fetched in any order, once for each prefetch.  A fetch that
raises for another reason than its own load does so at the first dictionary and
leaves it as it is. -/
def step (client : PrefetchClient α) : PrefetchAction α → Option (PrefetchClient α)
  | .prefetch request =>
    (client.adapter.prefetchRemote request.paths request.cpuData
      request.dedup).map fun (id, adapter) =>
        { client with
          adapter
          outstanding := client.outstanding ++ [(id, request)] }
  | .load number sizes deviceId =>
    if (client.adapter.scheduler.loadFutures number).any (·.length == sizes.length) &&
        (client.memory.loadOf number).isNone then
      (client.memory.step (.batchLoad sizes deviceId)).map fun memory =>
        { client with memory := { memory with
          loadOf := Function.update memory.loadOf number (some client.memory.arenas.nextLoad) } }
    else none
  | .arena action =>
    if client.holds action then none
    else (client.memory.step action).map fun memory => { client with memory }
  | .fetch index bucket views onDevice =>
    (pick client.outstanding index).bind fun (before, (id, request), after) =>
      if client.ready id then
        match client.adapter.getPrefetchResult (client.shown id bucket views) onDevice id with
        | some (result, adapter) => some { client with
          adapter
          outstanding := before ++ after
          outcomes := client.outcomes ++ [⟨request, bucket, some result⟩] }
        | none => some { client with
          outstanding := before ++ after
          outcomes := client.outcomes ++ [⟨request, bucket, none⟩] }
      else none
  | .loadRaises index =>
    (pick client.outstanding index).bind fun (before, (id, _), after) =>
      match id with
      | .path _ => none
      | .task number =>
        if (client.memory.loadOf number).all client.memory.failed.contains then some { client with
          adapter := client.adapter.loadRaises number
          outstanding := before ++ after }
        else none

/-- A request that hits in full does not share its first path with an
outstanding one that did. -/
def FirstPathFree (client : PrefetchClient α) (request : PrefetchRequest α) : Prop :=
  (∀ data ∈ request.cpuData, data.isEmpty = false) → ∀ entry ∈ client.outstanding,
    entry.1 ≠ .path (request.paths.headD [])

/-- First paths are free, and the cursors of the arenas keep their distance from
what is still referenced. -/
def Careful (client : PrefetchClient α) : PrefetchAction α → Prop
  | .prefetch request => client.FirstPathFree request
  | .load _ sizes deviceId => ArenaRoom client.memory.arenas (.batchLoad sizes deviceId)
  | .arena action => ArenaRoom client.memory.arenas action
  | _ => True

end PrefetchClient

namespace PrefetchAdapter

variable {adapter next : PrefetchAdapter α}

variable {id : PrefetchId}

theorem Holds.of_eq {paths : List Bytes} {cpuData : List (NamedTensors α)}
    {dedup : Option DedupGroups} (hholds : adapter.Holds id paths cpuData dedup)
    (hkey : next.key id = adapter.key id)
    (hplan : next.splitPrefetchTasks id = adapter.splitPrefetchTasks id)
    (hload : ∀ number, id = .task number →
      next.scheduler.loadFutures number =
        adapter.scheduler.loadFutures number) : next.Holds id paths cpuData dedup := by
  rcases hholds with ⟨hnone, hentry⟩ | ⟨number, rfl, hentry, htask, hfuture⟩
  · exact Or.inl ⟨hnone, hkey.trans hentry⟩
  · exact Or.inr ⟨number, rfl, hkey.trans hentry, hplan.trans htask,
      (hload number rfl).trans hfuture⟩

theorem prefetchRemote_effect {paths : List Bytes}
    {cpuData : List (NamedTensors α)} {dedup : Option DedupGroups}
    (hstep : adapter.prefetchRemote paths cpuData dedup = some (id, next)) :
    next.Holds id paths cpuData dedup ∧
    (∀ other paths' cpuData' dedup', other ≠ id → (∀ number, other = .task number →
        number < adapter.scheduler.nextTaskId) →
      adapter.Holds other paths' cpuData' dedup' →
      next.Holds other paths' cpuData' dedup') ∧
    ((id = .path (paths.headD []) ∧ (prefetchPlan paths cpuData dedup).remotePaths = [] ∧
        next.scheduler = adapter.scheduler) ∨
      (id = .task adapter.scheduler.nextTaskId ∧
        next.scheduler.nextTaskId = adapter.scheduler.nextTaskId + 1)) := by
  cases paths with
  | nil => cases hstep
  | cons first rest =>
    obtain ⟨id', next', hstep', hholds⟩ :=
      adapter.prefetchRemote_holds cpuData dedup (cons_ne_nil first rest)
    obtain ⟨rfl, rfl⟩ : id' = id ∧ next' = next := by
      simpa using hstep'.symm.trans hstep
    refine ⟨hholds, ?_⟩
    simp only [prefetchRemote] at hstep
    split at hstep
    · next hempty =>
      cases hstep
      refine ⟨fun other _ _ _ hother _ hold => ?_, Or.inl ⟨rfl, isEmpty_iff.mp hempty, rfl⟩⟩
      exact hold.of_eq (Function.update_of_ne hother _ _) rfl fun _ _ => rfl
    · cases hstep
      refine ⟨fun other _ _ _ hother hissued hold => ?_, Or.inr ⟨rfl, rfl⟩⟩
      refine hold.of_eq (Function.update_of_ne hother _ _)
        (Function.update_of_ne hother _ _) fun number hnumber => ?_
      exact Function.update_of_ne (Nat.ne_of_lt (hissued number hnumber)) _ _

theorem getPrefetchResult_frame {bucket : Bytes → Option (NamedTensors α)}
    {onDevice : Bool} {result : List (Option (NamedTensors α))}
    (hstep : adapter.getPrefetchResult bucket onDevice id = some (result, next)) :
    next.scheduler.nextTaskId = adapter.scheduler.nextTaskId ∧
    ∀ other paths cpuData dedup, other ≠ id → adapter.Holds other paths cpuData dedup →
      next.Holds other paths cpuData dedup := by
  unfold getPrefetchResult at hstep
  split at hstep
  · cases hstep
  · cases hstep
    refine ⟨rfl, fun other paths cpuData dedup hother hold => ?_⟩
    exact hold.of_eq (Function.update_of_ne hother _ _) rfl fun _ _ => rfl
  · split at hstep
    · cases hstep
    · next number _ =>
      split at hstep
      · cases hstep
      · obtain ⟨filled, -, heq⟩ := Option.map_eq_some_iff.mp hstep
        cases heq
        refine ⟨rfl, fun other paths cpuData dedup hother hold => ?_⟩
        refine hold.of_eq (Function.update_of_ne hother _ _)
          (Function.update_of_ne hother _ _) fun number' hnumber => ?_
        refine Function.update_of_ne (fun heq => hother ?_) _ _
        rw [hnumber, heq]

theorem loadRaises_frame {number : Nat} {other : PrefetchId} {paths : List Bytes}
    {cpuData : List (NamedTensors α)} {dedup : Option DedupGroups} (hother : other ≠ .task number)
    (hholds : adapter.Holds other paths cpuData dedup) :
    (adapter.loadRaises number).Holds other paths cpuData dedup := by
  refine hholds.of_eq (Function.update_of_ne hother _ _) rfl fun number' hnumber => ?_
  refine Function.update_of_ne (fun heq => hother ?_) _ _
  rw [hnumber, heq]

end PrefetchAdapter

namespace PrefetchClient

/-- The ids of the outstanding prefetches are different, each is kept under its
own, and nothing in the arenas was overwritten. -/
structure Inv (client : PrefetchClient α) : Prop where
  nodup : (client.outstanding.map Prod.fst).Nodup
  held : ∀ entry ∈ client.outstanding, client.adapter.Holds entry.1
    entry.2.paths entry.2.cpuData entry.2.dedup
  issued : ∀ entry ∈ client.outstanding, ∀ number, entry.1 = .task number →
    number < client.adapter.scheduler.nextTaskId
  own : ∀ outcome ∈ client.outcomes, outcome.Own
  intact : ArenaInv client.memory.arenas ∧ client.memory.overwritten = []

theorem inv_start (capacity : Nat) : Inv (start capacity : PrefetchClient α) := by
  refine ⟨nodup_nil, ?_, ?_, ?_, arenaInv_initial capacity, rfl⟩ <;> simp [start]

variable {client : PrefetchClient α}

theorem Inv.fresh {request : PrefetchRequest α} {id : PrefetchId} {adapter : PrefetchAdapter α}
    (hinv : client.Inv) (hfree : client.FirstPathFree request)
    (hprefetch : client.adapter.prefetchRemote request.paths request.cpuData
      request.dedup = some (id, adapter)) : ∀ entry ∈ client.outstanding, entry.1 ≠ id := by
  intro entry hentry heq
  rcases (PrefetchAdapter.prefetchRemote_effect hprefetch).2.2 with
    ⟨rfl, hnone, -⟩ | ⟨rfl, -⟩
  · refine hfree ?_ entry hentry heq
    have hmisses := PrefetchAdapter.missIndices_of_remotePaths hnone
    rw [missIndices_eq request.length_eq, map_eq_nil_iff, filter_eq_nil_iff] at hmisses
    intro data hdata
    obtain ⟨idx, hidx⟩ := mem_iff_getElem?.mp hdata
    exact Bool.eq_false_iff.mpr (hmisses (data, idx) (mem_zipIdx_iff_getElem?.mpr hidx))
  · exact Nat.lt_irrefl _ (hinv.issued entry hentry _ heq)

theorem Inv.prefetch {request : PrefetchRequest α} {id : PrefetchId} {adapter : PrefetchAdapter α}
    (hinv : client.Inv) (hfree : client.FirstPathFree request)
    (hprefetch : client.adapter.prefetchRemote request.paths request.cpuData
      request.dedup = some (id, adapter)) :
    Inv { client with
      adapter := adapter
      outstanding := client.outstanding ++ [(id, request)] } := by
  have hfresh := hinv.fresh hfree hprefetch
  obtain ⟨hholds, hframe, hid⟩ := PrefetchAdapter.prefetchRemote_effect hprefetch
  have hless : client.adapter.scheduler.nextTaskId ≤ adapter.scheduler.nextTaskId := by
    rcases hid with ⟨-, -, hsame⟩ | ⟨-, hsucc⟩
    · rw [hsame]
    · omega
  refine ⟨?_, ?_, ?_, hinv.own, hinv.intact⟩
  · rw [map_append, nodup_append]
    refine ⟨hinv.nodup, nodup_singleton _, ?_⟩
    intro other hother last hlast
    obtain ⟨entry, hentry, rfl⟩ := mem_map.mp hother
    rw [mem_singleton.mp hlast]
    exact hfresh entry hentry
  · refine forall_mem_concat (fun entry hold => ?_) hholds
    exact hframe _ _ _ _ (hfresh entry hold) (hinv.issued entry hold) (hinv.held entry hold)
  · intro entry hentry number hnumber
    rcases mem_append.mp hentry with hold | hnew
    · exact Nat.lt_of_lt_of_le (hinv.issued entry hold number hnumber) hless
    · rw [mem_singleton.mp hnew] at hnumber
      rcases hid with ⟨hpath, -, -⟩ | ⟨htask, hsucc⟩
      · rw [hpath] at hnumber
        cases hnumber
      · obtain rfl := PrefetchId.task.inj (htask.symm.trans hnumber)
        exact hsucc ▸ Nat.lt_succ_self _

/-- An outstanding prefetch goes and the others are still held. -/
theorem Inv.remove {index : Nat} {before after : List (PrefetchId × PrefetchRequest α)}
    {entry : PrefetchId × PrefetchRequest α} {adapter : PrefetchAdapter α}
    {outcomes : List (PrefetchOutcome α)} (hinv : client.Inv)
    (hpick : pick client.outstanding index = some (before, entry, after))
    (hsame : adapter.scheduler.nextTaskId = client.adapter.scheduler.nextTaskId)
    (hframe : ∀ other paths cpuData dedup, other ≠ entry.1 →
      client.adapter.Holds other paths cpuData dedup → adapter.Holds other paths cpuData dedup)
    (hown : ∀ outcome ∈ outcomes, outcome.Own) :
    Inv { client with adapter, outstanding := before ++ after, outcomes } := by
  have hothers : ∀ other ∈ before ++ after, other ∈ client.outstanding :=
    fun other hother => mem_of_pick_others hpick hother
  have hnodup := hinv.nodup
  rw [pick_eq hpick, map_append, map_cons, nodup_middle, ← map_append, nodup_cons] at hnodup
  refine ⟨hnodup.2, ?_, ?_, hown, hinv.intact⟩
  · intro other hother
    refine hframe _ _ _ _ (fun heq => ?_) (hinv.held other (hothers other hother))
    exact hnodup.1 (mem_map.mpr ⟨other, hother, heq⟩)
  · intro other hother
    exact hsame ▸ hinv.issued other (hothers other hother)

theorem Inv.fetch {next : PrefetchClient α} {index : Nat}
    {bucket views : Bytes → Option (NamedTensors α)} {onDevice : Bool} (hinv : client.Inv)
    (hstep : client.step (.fetch index bucket views onDevice) = some next) : next.Inv := by
  obtain ⟨⟨before, ⟨id, request⟩, after⟩, hpick, hnext⟩ := Option.bind_eq_some_iff.mp hstep
  have hshown : client.shown id bucket views = bucket := by
    unfold shown
    rw [hinv.intact.2]
    cases client.loadOf id <;> rfl
  obtain ⟨adapter, hresult⟩ := PrefetchAdapter.getPrefetchResult_of_holds
    bucket onDevice request.length_eq (hinv.held _ (mem_of_pick hpick))
  obtain ⟨hsame, hframe⟩ := PrefetchAdapter.getPrefetchResult_frame hresult
  simp only [hshown, hresult] at hnext
  split at hnext
  · cases hnext
    exact hinv.remove hpick hsame hframe (forall_mem_concat hinv.own rfl)
  · cases hnext

theorem Inv.loadRaises {next : PrefetchClient α} {index : Nat} (hinv : client.Inv)
    (hstep : client.step (.loadRaises index) = some next) : next.Inv := by
  obtain ⟨⟨before, ⟨id, request⟩, after⟩, hpick, hnext⟩ := Option.bind_eq_some_iff.mp hstep
  cases id with
  | path first => cases hnext
  | task number =>
    dsimp only at hnext
    split at hnext
    · cases hnext
      exact hinv.remove hpick rfl
        (fun _ _ _ _ hother => PrefetchAdapter.loadRaises_frame hother) hinv.own
    · cases hnext

theorem inv_step {next : PrefetchClient α} {action : PrefetchAction α} (hinv : client.Inv)
    (hcareful : client.Careful action) (hstep : client.step action = some next) : next.Inv := by
  cases action with
  | prefetch request =>
    obtain ⟨⟨id, adapter⟩, hprefetch, rfl⟩ := Option.map_eq_some_iff.mp hstep
    exact hinv.prefetch hcareful hprefetch
  | load number sizes deviceId =>
    simp only [step] at hstep
    split at hstep
    · obtain ⟨memory, hmemory, rfl⟩ := Option.map_eq_some_iff.mp hstep
      have hroom : ArenaRoom client.memory.arenas (.batchLoad sizes deviceId) := hcareful
      have hintact := LoadMemory.intact_step hinv.intact hroom hmemory
      exact ⟨hinv.nodup, hinv.held, hinv.issued, hinv.own, hintact⟩
    · cases hstep
  | arena action =>
    simp only [step] at hstep
    split at hstep
    · cases hstep
    · obtain ⟨memory, hmemory, rfl⟩ := Option.map_eq_some_iff.mp hstep
      have hintact := LoadMemory.intact_step hinv.intact hcareful hmemory
      exact ⟨hinv.nodup, hinv.held, hinv.issued, hinv.own, hintact⟩
  | fetch index bucket views onDevice => exact hinv.fetch hstep
  | loadRaises index => exact hinv.loadRaises hstep

end PrefetchClient

/-- In every run in which full hits do not share their first path with an
outstanding one and the arenas do not come round to tensors that are still
referenced, each prefetch gets its own data. -/
theorem prefetchOutcomes_own {capacity : Nat} {actions : List (PrefetchAction α)}
    {final : PrefetchClient α}
    (hmeets : Meets PrefetchClient.step PrefetchClient.Careful (.start capacity) actions)
    (hrun : runFrom PrefetchClient.step (.start capacity) actions = some final) :
    ∀ outcome ∈ final.outcomes, outcome.Own := by
  have hinv : final.Inv := run_invariant
    (fun _ _ _ => PrefetchClient.inv_step) (PrefetchClient.inv_start capacity) hmeets hrun
  exact hinv.own

/-- A request that hits in full on one path. -/
def fullHit (first : Bytes) (payload : Nat) : PrefetchRequest Nat :=
  ⟨[first], [[(ascii "u", payload)]], none, by simp, rfl⟩

/-- A request of one path that the CPU store does not have. -/
def fullMiss (first : Bytes) : PrefetchRequest Nat := ⟨[first], [[]], none, by simp, rfl⟩

/-- A hit and a miss on one path, fetched in the other order. -/
def hitThenMiss : List (PrefetchAction Nat) :=
  [.prefetch (fullHit (ascii "a") 1), .prefetch (fullMiss (ascii "a")), .load 0 [100, 200] (some 0),
    .arena (.gpuAllocate 0 true), .arena (.returnsGpu 0),
    .fetch 1 (fun _ => none) (fun _ => none) true, .fetch 0 (fun _ => none) (fun _ => none) true]

theorem prefetchOutcomes_hitAndMiss : ∃ final, runFrom PrefetchClient.step (.start 8192)
      hitThenMiss = some final ∧
    final.outcomes.map (·.result) = [some [some []], some [some [(ascii "u", 1)]]] ∧
    ∀ outcome ∈ final.outcomes, outcome.Own := by
  obtain ⟨final, hrun⟩ : ∃ final, runFrom PrefetchClient.step (.start 8192)
      hitThenMiss = some final := ⟨_, rfl⟩
  refine ⟨final, hrun, ?_, prefetchOutcomes_own ?_ hrun⟩
  · cases hrun
    rfl
  refine meets_cons (fun _ _ hentry => by cases hentry) rfl ?_
  refine meets_cons (fun hhit => by cases hhit [] (List.Mem.head _)) rfl ?_
  refine meets_cons ⟨by decide, fun _ => by decide⟩ rfl ?_
  refine meets_cons ?_ rfl ?_
  · intro before load after deviceId hpick hdevice
    cases hpick
    cases hdevice
    exact ⟨rfl, by decide⟩
  exact meets_cons trivial rfl (meets_cons trivial rfl (meets_cons trivial rfl trivial))

/-- Both halves of a chunk in one object. -/
def bothHalves (payload : Nat) : NamedTensors Nat :=
  (requiredKeySvKeys ++ requiredOtherKeys).map fun name => (ascii name, payload)

/-- Two full hits on one path. -/
def sharedPath : List (PrefetchAction Nat) :=
  [.prefetch (fullHit (ascii "a") 1), .prefetch (fullHit (ascii "a") 2),
    .fetch 0 (fun _ => none) (fun _ => none) true, .fetch 0 (fun _ => none) (fun _ => none) true]

/-- Two misses in an arena with room for one of them. -/
def sharedArena : List (PrefetchAction Nat) :=
  [.prefetch (fullMiss (ascii "a")), .prefetch (fullMiss (ascii "b")), .load 0 [4096, 4096] none,
    .arena (.returnsCpu 0), .load 1 [4096, 4096] none,
    .fetch 0 (fun _ => some (bothHalves 1)) (fun _ => some (bothHalves 2)) false]

/-- With a shared path the first fetch returns the data of the second prefetch,
and the second fetch raises.  With a shared arena the first fetch shows what the
second load wrote. -/
theorem prefetchOutcomes_sharedFirstPath :
    (∃ final, runFrom PrefetchClient.step (.start 8192) sharedPath = some final ∧
      final.outcomes.map (·.result) = [some [some [(ascii "u", 2)]], none] ∧
      ¬ ∀ outcome ∈ final.outcomes, outcome.Own) ∧
    ∃ final, runFrom PrefetchClient.step (.start 8192) sharedArena = some final ∧
      final.outcomes.map (·.result) = [some [some (bothHalves 2)]] ∧
      ¬ ∀ outcome ∈ final.outcomes, outcome.Own := by
  constructor
  · obtain ⟨final, hrun⟩ : ∃ final, runFrom PrefetchClient.step (.start 8192) sharedPath =
      some final := ⟨_, rfl⟩
    refine ⟨final, hrun, ?_⟩
    cases hrun
    refine ⟨rfl, fun hown => ?_⟩
    have hraised := hown _ (List.Mem.tail _ (List.Mem.head _))
    cases hraised
  · obtain ⟨final, hrun⟩ : ∃ final, runFrom PrefetchClient.step (.start 8192) sharedArena =
      some final := ⟨_, rfl⟩
    refine ⟨final, hrun, ?_⟩
    cases hrun
    exact ⟨rfl, by decide +kernel⟩

end CatKV
