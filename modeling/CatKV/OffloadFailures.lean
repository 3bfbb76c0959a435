/-
Failures on the way of an offload through `CPUMemoryStore`.  The entry of a path
is in the store before its tensors are prepared by the caller and copied by a
worker, and readers wait until it has data or is marked as failed.

No code marks an entry as failed.  An exception in the caller leaves the entry
without data for ever, and nothing catches an exception in a worker thread: it
ends the process.
-/
import CatKV.ByteString
import CatKV.OrderedDict
import CatKV.Transition
import Mathlib.Data.List.Perm.Basic
import Mathlib.Logic.Function.Basic

namespace CatKV

open List

namespace CpuOffload

inductive Device where
  | cpu
  | cuda
deriving Repr, DecidableEq

inductive ScalarType where
  | bfloat16
  | half
  | float
  | double
  | byte
  | int
  | long
  | bool
deriving Repr, DecidableEq

structure Tensor where
  device : Device
  scalarType : ScalarType
  dim : Nat
deriving Repr, DecidableEq

abbrev TensorMap := OrderedDict Bytes Tensor

/-- The tensors after their copies to the CPU. -/
def TensorMap.toCpu (data : TensorMap) : TensorMap where
  entries := data.entries.map fun entry =>
    (entry.1, { entry.2 with device := .cpu })
  nodup := by
    rw [List.map_map]
    exact data.nodup

/-- The lookups of `NormalizeKV` with the checks of `SnapshotCpuKV`. -/
def snapshotTensor (data : TensorMap) (shortName longName : String) : Bool :=
  ((data.get? (ascii shortName)).or (data.get? (ascii longName))).any
    fun tensor => tensor.device = .cpu ∧ (tensor.dim = 3 ∨ tensor.dim = 4)

/-- Whether `SnapshotCpuKV` returns. -/
def snapshotCpuKV (data : TensorMap) : Bool :=
  data.entries.length = 2 && snapshotTensor data "k" "key" && snapshotTensor data "v" "value"

structure Entry where
  data : Option TensorMap
  failed : Bool
  error : Bytes

def Entry.new : Entry := ⟨none, false, []⟩

/-- What `Load` and `WaitRemoteReady` wait for. -/
def Entry.ready (entry : Entry) : Bool := entry.data.isSome || entry.failed

structure OffloadCPUJob where
  path : Bytes
  entry : Nat
  data : TensorMap

/-- The tensors that are still to be copied, in the order of the map. -/
def OffloadCPUJob.tensors (job : OffloadCPUJob) : List Tensor := job.data.entries.map Prod.snd

inductive Worker where
  | idle
  | copying (job : OffloadCPUJob) (pending : List Tensor)
  | submitting (job : OffloadCPUJob)

/-- `preparing` are callers of `Offload` after its critical section, and
`readers` wait for an entry; `remotePipeline` says whether there is one. -/
structure StoreState where
  storage : Bytes → Option Nat
  entries : List Entry
  remotePipeline : Bool
  remoteSeenPaths : List Bytes
  preparing : List (OffloadCPUJob × List Tensor)
  jobs : List OffloadCPUJob
  workers : List Worker
  readers : List Nat
  terminated : Bool

/-- `ok` says whether the CUDA calls and allocations of the stage succeed,
`accepts` whether the pipeline takes a submission that passed its checks, and
`opens` whether a pipeline can be made. -/
inductive StoreAction where
  | offload (path : Bytes) (data : TensorMap)
  | prepare (caller : Nat) (ok : Bool)
  | take (worker : Nat)
  | copy (worker : Nat) (ok : Bool)
  | submitRemote (worker : Nat) (accepts : Bool)
  | forget (path : Bytes)
  | clear
  | enableRemoteUpload (opens : Bool)
  | wait (path : Bytes)
  | wake (reader : Nat)

namespace StoreState

def start (workers : Nat) : StoreState where
  storage := fun _ => none
  entries := []
  remotePipeline := false
  remoteSeenPaths := []
  preparing := []
  jobs := []
  workers := List.replicate workers .idle
  readers := []
  terminated := false

variable (state : StoreState)

/-- The data of an entry is set and its readers are woken. -/
def setData (job : OffloadCPUJob) : StoreState :=
  { state with
    entries := state.entries.modify job.entry fun entry =>
      { entry with data := some job.data.toCpu } }

/-- The critical section of `Offload`. -/
def insertEntry (path : Bytes) (data : TensorMap) : StoreState :=
  let job : OffloadCPUJob := ⟨path, state.entries.length, data⟩
  { state with
    storage := Function.update state.storage path (some job.entry)
    entries := state.entries ++ [.new]
    remoteSeenPaths :=
      if state.remotePipeline then path :: state.remoteSeenPaths else state.remoteSeenPaths
    preparing := state.preparing ++ [(job, job.tensors)] }

/-- Bad arguments are rejected; with remote upload a path is taken once. -/
def offload (path : Bytes) (data : TensorMap) : StoreState :=
  if path = [] ∨ data.entries = [] ∨ [] ∈ data.keys then state
  else if state.remotePipeline ∧ path ∈ state.remoteSeenPaths then state
  else state.insertEntry path data

/-- The caller copies one tensor or records its event; in the end it sets the
data if all tensors are on the CPU, and else hands over the job.  In the first
case it also submits the data, and an exception of that is the caller's. -/
def prepare (caller : Nat) (ok : Bool) : Option StoreState :=
  match pick state.preparing caller with
  | none => none
  | some (before, (job, _ :: rest), after) =>
    if ok then some { state with preparing := before ++ (job, rest) :: after }
    else some { state with preparing := before ++ after }
  | some (before, (job, []), after) =>
    if job.tensors.all (·.device = .cpu) then
      some { state.setData job with preparing := before ++ after }
    else some { state with
      preparing := before ++ after
      jobs := state.jobs ++ [job] }

/-- The copy of one tensor returns: `ScheduleOffload` takes only bfloat16. -/
def copies (tensor : Tensor) (ok : Bool) : Bool :=
  tensor.device = .cpu || tensor.scalarType = .bfloat16 && ok

def copy (worker : Nat) (ok : Bool) : Option StoreState :=
  match pick state.workers worker with
  | some (before, .copying job (tensor :: rest), after) =>
    if copies tensor ok then some { state with workers := before ++ .copying job rest :: after }
    else some { state with terminated := true }
  | some (before, .copying job [], after) =>
    some { state.setData job with
      workers := before ++ .submitting job :: after }
  | _ => none

/-- The submission of a job returns. -/
def submits (job : OffloadCPUJob) (accepts : Bool) : Bool :=
  !state.remotePipeline || snapshotCpuKV job.data.toCpu && accepts

def submitRemote (worker : Nat) (accepts : Bool) : Option StoreState :=
  match pick state.workers worker with
  | some (before, .submitting job, after) =>
    if state.submits job accepts then some { state with workers := before ++ .idle :: after }
    else some { state with terminated := true }
  | _ => none

def take (worker : Nat) : Option StoreState :=
  match pick state.workers worker, state.jobs with
  | some (before, .idle, after), job :: rest =>
    some { state with
      jobs := rest
      workers := before ++ .copying job job.tensors :: after }
  | _, _ => none

/-- A path without an entry is answered at once. -/
def wait (path : Bytes) : StoreState :=
  match state.storage path with
  | none => state
  | some entry => { state with readers := state.readers ++ [entry] }

/-- A reader returns or throws once the entry is ready. -/
def wake (reader : Nat) : Option StoreState :=
  match pick state.readers reader with
  | some (before, entry, after) =>
    if state.entries[entry]?.any Entry.ready then some { state with readers := before ++ after }
    else none
  | none => none

def step : StoreAction → Option StoreState := fun action =>
  if state.terminated then none
  else
    match action with
    | .offload path data => some (state.offload path data)
    | .prepare caller ok => state.prepare caller ok
    | .take worker => state.take worker
    | .copy worker ok => state.copy worker ok
    | .submitRemote worker accepts => state.submitRemote worker accepts
    | .forget path =>
      some { state with storage := Function.update state.storage path none }
    | .clear => some { state with storage := fun _ => none, remoteSeenPaths := [] }
    | .enableRemoteUpload opens =>
      some { state with remotePipeline := state.remotePipeline || opens }
    | .wait path => some (state.wait path)
    | .wake reader => state.wake reader

end StoreState

/-! Entries and the jobs that are on their way to them. -/

/-- Every job on its way has an entry of its own that is not ready yet. -/
structure Tracks (entries : List Entry) (flying : List Nat) : Prop where
  nodup : flying.Nodup
  unready : ∀ id ∈ flying, ∃ entry, entries[id]? = some entry ∧ entry.ready = false

/-- Every entry is ready or a job is on its way to it. -/
def Ends (entries : List Entry) (flying : List Nat) : Prop :=
  ∀ (id : Nat) entry, entries[id]? = some entry → entry.ready = true ∨ id ∈ flying

section Tracks

variable {entries : List Entry} {flying other : List Nat} {id : Nat}

theorem Tracks.perm (htracks : Tracks entries flying)
    (hperm : other.Perm flying) : Tracks entries other :=
  ⟨hperm.nodup_iff.mpr htracks.nodup, fun id hid => htracks.unready id (hperm.mem_iff.mp hid)⟩

theorem Ends.perm (hends : Ends entries flying) (hperm : other.Perm flying) : Ends entries other :=
  fun id entry hentry => (hends id entry hentry).imp_right hperm.mem_iff.mpr

theorem Tracks.lt_length (htracks : Tracks entries flying) (hid : id ∈ flying) :
    id < entries.length := by
  obtain ⟨entry, hentry, -⟩ := htracks.unready id hid
  exact (List.getElem?_eq_some_iff.mp hentry).1

theorem Tracks.add (htracks : Tracks entries flying) :
    Tracks (entries ++ [.new]) (entries.length :: flying) := by
  refine ⟨nodup_cons.mpr ⟨fun hmem => ?_, htracks.nodup⟩, ?_⟩
  · exact absurd (htracks.lt_length hmem) (Nat.lt_irrefl _)
  · rw [forall_mem_cons]
    refine ⟨⟨.new, by simp, rfl⟩, fun id hid => ?_⟩
    obtain ⟨entry, hentry, hready⟩ := htracks.unready id hid
    rw [getElem?_append_left (htracks.lt_length hid)]
    exact ⟨entry, hentry, hready⟩

theorem Ends.add (hends : Ends entries flying) :
    Ends (entries ++ [.new]) (entries.length :: flying) := by
  intro id entry hentry
  by_cases hold : id < entries.length
  · rw [getElem?_append_left hold] at hentry
    exact (hends id entry hentry).imp_right (mem_cons_of_mem _)
  · have hlt := (List.getElem?_eq_some_iff.mp hentry).1
    rw [length_append, length_singleton] at hlt
    obtain rfl : id = entries.length := by omega
    exact Or.inr mem_cons_self

theorem Tracks.finish (htracks : Tracks entries (id :: flying)) (data : TensorMap) :
    Tracks (entries.modify id fun entry => { entry with data := some data }) flying := by
  obtain ⟨hnew, hnodup⟩ := nodup_cons.mp htracks.nodup
  refine ⟨hnodup, fun other hother => ?_⟩
  obtain ⟨entry, hentry, hready⟩ := htracks.unready other (mem_cons_of_mem id hother)
  have hne : id ≠ other := fun heq => hnew (heq ▸ hother)
  refine ⟨entry, ?_, hready⟩
  rw [getElem?_modify, hentry]
  exact congrArg some (if_neg hne)

theorem Ends.finish (hends : Ends entries (id :: flying)) (data : TensorMap) :
    Ends (entries.modify id fun entry => { entry with data := some data }) flying := by
  intro other entry hentry
  rw [getElem?_modify] at hentry
  obtain ⟨before, hbefore, heq⟩ := Option.map_eq_some_iff.mp hentry
  by_cases hid : id = other
  · rw [if_pos hid] at heq
    subst heq
    exact Or.inl rfl
  · rw [if_neg hid] at heq
    rcases hends other before hbefore with hready | hmem
    · exact Or.inl (heq ▸ hready)
    · exact Or.inr ((mem_cons.mp hmem).resolve_left fun hsame => hid hsame.symm)

theorem Tracks.lose (htracks : Tracks entries (id :: flying)) : Tracks entries flying :=
  ⟨(nodup_cons.mp htracks.nodup).2, fun other hother =>
    htracks.unready other (mem_cons_of_mem id hother)⟩

theorem Tracks.not_ends (htracks : Tracks entries (id :: flying)) : ¬ Ends entries flying := by
  intro hends
  obtain ⟨entry, hentry, hready⟩ := htracks.unready id mem_cons_self
  rcases hends id entry hentry with htrue | hmem
  · rw [hready] at htrue
    cases htrue
  · exact (nodup_cons.mp htracks.nodup).1 hmem

end Tracks

/-! What is asked of every state, and what it takes. -/

/-- The entry of the job that a worker has not copied yet. -/
def Worker.flying : Worker → List Nat
  | .copying job _ => [job.entry]
  | _ => []

/-- The next tensor of the worker's job can be copied. -/
def Worker.Copies (ok : Bool) : Worker → Prop
  | .copying _ (tensor :: _) => StoreState.copies tensor ok = true
  | _ => True

instance (ok : Bool) : (worker : Worker) → Decidable (worker.Copies ok)
  | .copying _ (_ :: _) => inferInstanceAs (Decidable (_ = true))
  | .copying _ [] | .idle | .submitting _ => inferInstanceAs (Decidable True)

/-- The worker's job can be submitted. -/
def Worker.Submits (state : StoreState) (accepts : Bool) : Worker → Prop
  | .submitting job => state.submits job accepts = true
  | _ => True

instance (state : StoreState) (accepts : Bool) :
    (worker : Worker) → Decidable (worker.Submits state accepts)
  | .submitting _ => inferInstanceAs (Decidable (_ = true))
  | .copying _ _ | .idle => inferInstanceAs (Decidable True)

namespace StoreState

/-- The entries that jobs are on their way to. -/
def flying (state : StoreState) : List Nat :=
  state.preparing.map (fun stage => stage.1.entry) ++ state.jobs.map OffloadCPUJob.entry ++
    state.workers.flatMap Worker.flying

/-- The workers live, and every entry, so also every one that is waited for,
is ready or will be when its job is through. -/
structure Reported (state : StoreState) : Prop where
  survives : state.terminated = false
  ends : Ends state.entries state.flying
  waits : ∀ id ∈ state.readers, ∃ entry, state.entries[id]? = some entry ∧
    (entry.ready = true ∨ id ∈ state.flying)

/-- Nothing fails in the caller once the entry is in the store, a worker copies
only tensors of bfloat16 and without errors, and what it submits is taken. -/
def Orderly (state : StoreState) : StoreAction → Prop
  | .prepare caller ok =>
    ∀ stage ∈ state.preparing[caller]?, stage.2 ≠ [] → ok = true
  | .copy worker ok => ∀ stage ∈ state.workers[worker]?, stage.Copies ok
  | .submitRemote worker accepts =>
    ∀ stage ∈ state.workers[worker]?, stage.Submits state accepts
  | _ => True

instance (state : StoreState) : (action : StoreAction) → Decidable (state.Orderly action)
  | .prepare _ _ | .copy _ _ | .submitRemote _ _ => inferInstanceAs (Decidable (∀ stage ∈ _, _))
  | .offload _ _ | .take _ | .forget _ | .clear | .enableRemoteUpload _ | .wait _ | .wake _ =>
    inferInstanceAs (Decidable True)

/-- Entries come into the store with `Offload`, and readers find them there. -/
structure Frame (state next : StoreState) : Prop where
  storage : ∀ path id, next.storage path = some id →
    state.storage path = some id ∨ id < next.entries.length
  readers : ∀ id ∈ next.readers, id ∈ state.readers ∨ ∃ path, state.storage path = some id

theorem Frame.of_same {state next : StoreState} (hstorage : next.storage = state.storage)
    (hreaders : next.readers = state.readers) : Frame state next := by
  refine ⟨fun path id hid => Or.inl ?_, fun id hid => Or.inl ?_⟩
  · rw [← hstorage]
    exact hid
  · rw [← hreaders]
    exact hid

/-- What a step does to entries and jobs. -/
inductive Move (state : StoreState) (action : StoreAction) (next : StoreState) : Prop where
  | keeps (hframe : Frame state next) (horderly : state.Orderly action)
      (halive : next.terminated = state.terminated)
      (hentries : next.entries = state.entries)
      (hflying : next.flying.Perm state.flying)
  | adds (hframe : Frame state next) (horderly : state.Orderly action)
      (halive : next.terminated = state.terminated)
      (hentries : next.entries = state.entries ++ [.new])
      (hflying : next.flying.Perm (state.entries.length :: state.flying))
  | finishes (hframe : Frame state next) (horderly : state.Orderly action)
      (halive : next.terminated = state.terminated) (id : Nat)
      (data : TensorMap)
      (hentries : next.entries = state.entries.modify id fun entry =>
        { entry with data := some data })
      (hflying : state.flying.Perm (id :: next.flying))
  | loses (hframe : Frame state next) (hfails : ¬ state.Orderly action) (id : Nat)
      (hentries : next.entries = state.entries)
      (hflying : state.flying.Perm (id :: next.flying))
  | terminates (hframe : Frame state next) (hfails : ¬ state.Orderly action)
      (hdead : next.terminated = true)
      (hentries : next.entries = state.entries)
      (hflying : next.flying = state.flying)

variable {state next : StoreState}

theorem count_flying (id : Nat) : state.flying.count id =
    (state.preparing.map (fun stage => stage.1.entry)).count id +
      (state.jobs.map OffloadCPUJob.entry).count id +
      (state.workers.flatMap Worker.flying).count id := by
  simp only [flying, count_append]

theorem move_offload (path : Bytes) (data : TensorMap) : Move state (.offload path data)
    (state.offload path data) := by
  unfold offload
  split
  · exact .keeps (.of_same rfl rfl) trivial rfl rfl .rfl
  · split
    · exact .keeps (.of_same rfl rfl) trivial rfl rfl .rfl
    · refine .adds ⟨?_, fun _ => Or.inl⟩ trivial rfl rfl ?_
      · intro other id hid
        simp only [insertEntry, Function.update_apply] at hid ⊢
        split at hid
        · cases hid
          exact Or.inr (by simp)
        · exact Or.inl hid
      · rw [perm_iff_count]
        intro id
        rw [count_cons, count_flying, count_flying]
        simp only [insertEntry, map_append, map_cons, map_nil, count_append, count_cons, count_nil]
        omega

theorem move_prepare {caller : Nat} {ok : Bool} (hstep : state.prepare caller ok = some next) :
    Move state (.prepare caller ok) next := by
  unfold prepare at hstep
  split at hstep
  · cases hstep
  · next before job tensor rest after hpick =>
    have hstage := getElem?_of_pick hpick
    split at hstep
    · next hok =>
      cases hstep
      refine .keeps (.of_same rfl rfl) (fun _ _ _ => hok) rfl rfl ?_
      simp only [flying, pick_eq hpick, map_append, map_cons]
      exact List.Perm.refl _
    · next hok =>
      cases hstep
      refine .loses (.of_same rfl rfl) (fun horderly => hok (horderly _ hstage
        (cons_ne_nil _ _))) job.entry rfl ?_
      rw [perm_iff_count]
      intro id
      rw [count_cons, count_flying, count_flying, pick_eq hpick]
      simp only [map_append, map_cons, count_append, count_cons]
      omega
  · next before job after hpick =>
    have horderly : state.Orderly (.prepare caller ok) := by
      intro stage hmem hne
      rw [getElem?_of_pick hpick, Option.mem_some] at hmem
      exact absurd rfl (hmem ▸ hne)
    split at hstep
    · cases hstep
      refine .finishes (.of_same rfl rfl) horderly rfl job.entry _ rfl ?_
      rw [perm_iff_count]
      intro id
      rw [count_cons, count_flying, count_flying, pick_eq hpick]
      simp only [setData, map_append, map_cons, count_append, count_cons]
      omega
    · cases hstep
      refine .keeps (.of_same rfl rfl) horderly rfl rfl ?_
      rw [perm_iff_count]
      intro id
      rw [count_flying, count_flying, pick_eq hpick]
      simp only [map_append, map_cons, map_nil, count_append, count_cons, count_nil]
      omega

theorem move_take {worker : Nat} (hstep : state.take worker = some next) :
    Move state (.take worker) next := by
  unfold take at hstep
  split at hstep
  · next before after job rest hpick hjobs =>
    cases hstep
    refine .keeps (.of_same rfl rfl) trivial rfl rfl ?_
    rw [perm_iff_count]
    intro id
    rw [count_flying, count_flying, pick_eq hpick, hjobs]
    simp only [flatMap_append, flatMap_cons, Worker.flying, nil_append, map_cons, count_append,
      count_cons, count_nil]
    omega
  · cases hstep

theorem move_copy {worker : Nat} {ok : Bool} (hstep : state.copy worker ok = some next) :
    Move state (.copy worker ok) next := by
  unfold copy at hstep
  split at hstep
  · next before job tensor rest after hpick =>
    have hstage := getElem?_of_pick hpick
    split at hstep
    · next hcopies =>
      cases hstep
      refine .keeps (.of_same rfl rfl) (fun stage hmem => ?_) rfl rfl ?_
      · rw [hstage, Option.mem_some] at hmem
        exact hmem ▸ hcopies
      · simp only [flying, pick_eq hpick, flatMap_append, flatMap_cons]
        exact List.Perm.refl _
    · next hcopies =>
      cases hstep
      exact .terminates (.of_same rfl rfl) (fun horderly => hcopies (horderly _ hstage)) rfl rfl rfl
  · next before job after hpick =>
    cases hstep
    refine .finishes (.of_same rfl rfl) (fun stage hmem => ?_) rfl job.entry
      _ rfl ?_
    · rw [getElem?_of_pick hpick, Option.mem_some] at hmem
      exact hmem ▸ trivial
    · rw [perm_iff_count]
      intro id
      rw [count_cons, count_flying, count_flying, pick_eq hpick]
      simp only [setData, flatMap_append, flatMap_cons, Worker.flying, nil_append, count_append,
        count_cons, count_nil]
      omega
  · cases hstep

theorem move_submitRemote {worker : Nat} {accepts : Bool}
    (hstep : state.submitRemote worker accepts = some next) :
    Move state (.submitRemote worker accepts) next := by
  unfold submitRemote at hstep
  split at hstep
  · next before job after hpick =>
    have hstage := getElem?_of_pick hpick
    split at hstep
    · next hsubmits =>
      cases hstep
      refine .keeps (.of_same rfl rfl) (fun stage hmem => ?_) rfl rfl ?_
      · rw [hstage, Option.mem_some] at hmem
        exact hmem ▸ hsubmits
      · simp only [flying, pick_eq hpick, flatMap_append, flatMap_cons, Worker.flying]
        exact List.Perm.refl _
    · next hsubmits =>
      cases hstep
      exact .terminates (.of_same rfl rfl)
        (fun horderly => hsubmits (horderly _ hstage)) rfl rfl rfl
  · cases hstep

variable {action : StoreAction}

theorem move_of_step (hstep : state.step action = some next) :
    Move state action next := by
  unfold step at hstep
  split at hstep
  · cases hstep
  · cases action with
    | offload path data =>
      cases hstep
      exact move_offload path data
    | prepare caller ok => exact move_prepare hstep
    | take worker => exact move_take hstep
    | copy worker ok => exact move_copy hstep
    | submitRemote worker accepts => exact move_submitRemote hstep
    | forget path =>
      cases hstep
      refine .keeps ⟨fun other id hid => ?_, fun _ => Or.inl⟩ trivial rfl rfl .rfl
      simp only [Function.update_apply] at hid
      split at hid
      · cases hid
      · exact Or.inl hid
    | clear =>
      cases hstep
      exact .keeps ⟨fun _ _ => nofun, fun _ => Or.inl⟩ trivial rfl rfl .rfl
    | enableRemoteUpload opens =>
      cases hstep
      exact .keeps (.of_same rfl rfl) trivial rfl rfl .rfl
    | wait path =>
      cases hstep
      unfold wait
      split
      · exact .keeps (.of_same rfl rfl) trivial rfl rfl .rfl
      · next entry hentry =>
        refine .keeps ⟨fun _ _ => Or.inl, fun id hid => ?_⟩ trivial rfl rfl .rfl
        rcases mem_append.mp hid with hold | hnew
        · exact Or.inl hold
        · exact Or.inr ⟨path, mem_singleton.mp hnew ▸ hentry⟩
    | wake reader =>
      simp only [wake] at hstep
      split at hstep
      · next before entry after hpick =>
        split at hstep
        · cases hstep
          exact .keeps ⟨fun _ _ => Or.inl, fun id hid =>
            Or.inl (mem_of_pick_others hpick hid)⟩ trivial rfl rfl .rfl
        · cases hstep
      · cases hstep

/-- Readers and the store only know entries that exist. -/
structure WellFormed (state : StoreState) : Prop where
  tracks : Tracks state.entries state.flying
  stored : ∀ path id, state.storage path = some id → id < state.entries.length
  known : ∀ id ∈ state.readers, id < state.entries.length

theorem Move.frame (hmove : Move state action next) : Frame state next := by
  cases hmove with
  | keeps hframe | adds hframe | finishes hframe | loses hframe
  | terminates hframe => exact hframe

theorem length_le_of_move (hmove : Move state action next) :
    state.entries.length ≤ next.entries.length := by
  cases hmove with
  | keeps _ _ _ hentries | loses _ _ _ hentries | terminates _ _ _ hentries =>
    rw [hentries]
  | adds _ _ _ hentries => simp [hentries]
  | finishes _ _ _ _ _ hentries => rw [hentries, length_modify]

theorem wellFormed_step (hwell : WellFormed state)
    (hstep : state.step action = some next) : WellFormed next := by
  have hmove := move_of_step hstep
  have hframe := hmove.frame
  have hle := length_le_of_move hmove
  refine ⟨?_, ?_, ?_⟩
  · cases hmove with
    | keeps _ _ _ hentries hflying =>
      rw [hentries]
      exact hwell.tracks.perm hflying
    | adds _ _ _ hentries hflying =>
      rw [hentries]
      exact hwell.tracks.add.perm hflying
    | finishes _ _ _ id data hentries hflying =>
      rw [hentries]
      exact (hwell.tracks.perm hflying.symm).finish data
    | loses _ _ id hentries hflying =>
      rw [hentries]
      exact (hwell.tracks.perm hflying.symm).lose
    | terminates _ _ _ hentries hflying =>
      rw [hentries, hflying]
      exact hwell.tracks
  · intro path id hid
    rcases hframe.storage path id hid with hold | hnew
    · exact (hwell.stored path id hold).trans_le hle
    · exact hnew
  · intro id hid
    rcases hframe.readers id hid with hold | ⟨path, hpath⟩
    · exact (hwell.known id hold).trans_le hle
    · exact (hwell.stored path id hpath).trans_le hle

theorem reported_iff (hwell : WellFormed state) : Reported state ↔
    state.terminated = false ∧ Ends state.entries state.flying := by
  constructor
  · exact fun hreported => ⟨hreported.survives, hreported.ends⟩
  · rintro ⟨halive, hends⟩
    refine ⟨halive, hends, fun id hid => ?_⟩
    have hentry := getElem?_eq_getElem (hwell.known id hid)
    exact ⟨_, hentry, hends id _ hentry⟩

theorem reported_step_iff (hwell : WellFormed state) (hreported : Reported state)
    (hstep : state.step action = some next) :
    Reported next ↔ state.Orderly action := by
  rw [reported_iff (wellFormed_step hwell hstep)]
  have hends := hreported.ends
  cases move_of_step hstep with
  | keeps _ horderly halive hentries hflying =>
    rw [hentries, halive]
    exact ⟨fun _ => horderly, fun _ => ⟨hreported.survives, hends.perm hflying⟩⟩
  | adds _ horderly halive hentries hflying =>
    rw [hentries, halive]
    exact ⟨fun _ => horderly, fun _ => ⟨hreported.survives, hends.add.perm hflying⟩⟩
  | finishes _ horderly halive id data hentries hflying =>
    rw [hentries, halive]
    exact ⟨fun _ => horderly, fun _ => ⟨hreported.survives, (hends.perm hflying.symm).finish data⟩⟩
  | loses _ hfails id hentries hflying =>
    rw [hentries]
    have hlost := (hwell.tracks.perm hflying.symm).not_ends
    exact ⟨fun hnext => absurd hnext.2 hlost, fun horderly => absurd horderly hfails⟩
  | terminates _ hfails hdead hentries hflying =>
    rw [hdead]
    exact ⟨fun hnext => Bool.noConfusion hnext.1, fun horderly => absurd horderly hfails⟩

theorem start_flying (workers : Nat) : (start workers).flying = [] := by
  have hworkers : (List.replicate workers Worker.idle).flatMap Worker.flying = [] := by
    rw [flatMap_eq_nil_iff]
    intro worker hmem
    rw [eq_of_mem_replicate hmem]
    rfl
  simp [flying, start, hworkers]

theorem wellFormed_start (workers : Nat) : WellFormed (start workers) := by
  refine ⟨?_, ?_, forall_mem_nil _⟩
  · rw [start_flying]
    exact ⟨nodup_nil, forall_mem_nil _⟩
  · intro path id hid
    cases hid

theorem reported_start (workers : Nat) : Reported (start workers) := by
  rw [reported_iff (wellFormed_start workers)]
  refine ⟨rfl, fun id entry hentry => ?_⟩
  cases hentry

end StoreState

namespace OneWorker

def tensor (device : Device) (scalarType : ScalarType) : Tensor := ⟨device, scalarType, 4⟩

def kv (device : Device) (scalarType : ScalarType) : TensorMap :=
  (OrderedDict.empty.set (ascii "k") (tensor device scalarType)).set
    (ascii "v") (tensor device scalarType)

/-- Only one tensor, under another name. -/
def lone : TensorMap := OrderedDict.empty.set (ascii "x") (tensor .cuda .bfloat16)

def handOver (data : TensorMap) : List StoreAction :=
  .offload (ascii "a") data ::
    List.replicate (data.entries.length + 1) (.prepare 0 true) ++ [.take 0]

/-- The second tensor cannot be prepared; a reader comes later. -/
def eventFails : List StoreAction :=
  [.offload (ascii "a") (kv .cuda .bfloat16), .prepare 0 true, .prepare 0 false, .wait (ascii "a")]

/-- The worker gets tensors of another type. -/
def wrongType : List StoreAction := handOver (kv .cuda .half) ++ [.copy 0 true]

/-- The pipeline does not take what the worker submits. -/
def rejected : List StoreAction :=
  handOver lone ++ [.copy 0 true, .copy 0 true, .submitRemote 0 true]

/-- The store is cleared while the job is on its way. -/
def plain : List StoreAction :=
  handOver (kv .cuda .bfloat16) ++ [.wait (ascii "a"), .copy 0 true, .clear,
    .copy 0 true, .copy 0 true, .submitRemote 0 true, .wake 0]

def run (actions : List StoreAction) : Option StoreState :=
  runFrom StoreState.step (.start 1) (.enableRemoteUpload true :: actions)

end OneWorker

end CpuOffload

end CatKV
