/-
The cluster controller.  `RegistrationController` keeps the workers with their
sockets, `KVController` keeps which worker holds which chunk, and
`LMCacheControllerManager` hands every worker message to one of the two.

A handler that raises leaves what it has done so far; `Except.error` carries
that state.
-/
import Mathlib.Data.List.Sort
import CatKV.ChunkedTokens
import CatKV.OrderedDict
import CatKV.PythonText

namespace CatKV

structure KVChunkMetadata where
  instanceId : Text
  workerId : Int
  location : Text
deriving Repr, DecidableEq

/-- `KVAdmitMsg` and `KVEvictMsg`. -/
structure KVChunkMsg where
  instanceId : Text
  workerId : Int
  key : Int
  location : Text
deriving Repr, DecidableEq

/-- `RegisterMsg`, and `HeartbeatMsg` with the same fields. -/
structure RegisterMsg where
  instanceId : Text
  workerId : Int
  ip : Text
  port : Int
  distributedUrl : Text
deriving Repr, DecidableEq

structure DeRegisterMsg where
  instanceId : Text
  workerId : Int
  ip : Text
  port : Int
deriving Repr, DecidableEq

inductive WorkerMsg where
  | heartbeat (msg : RegisterMsg)
  | register (msg : RegisterMsg)
  | deRegister (msg : DeRegisterMsg)
  | kvAdmit (msg : KVChunkMsg)
  | kvEvict (msg : KVChunkMsg)
deriving Repr, DecidableEq

/-- A message with what the world answers while it is handled: whether a socket
to the worker can be opened, and the time. -/
structure Arrival where
  msg : WorkerMsg
  socketOpens : Bool
  time : Nat
deriving Repr, DecidableEq

/-! `KVController`. -/

abbrev KVPool := OrderedDict Text (List KVChunkMetadata)

def KVChunkMsg.metadata (msg : KVChunkMsg) : KVChunkMetadata :=
  ⟨msg.instanceId, msg.workerId, msg.location⟩

/-- `str(msg.key)`. -/
def keyText (key : Int) : Text := intText 10 key

/-- The holders belong to this worker. -/
def KVChunkMetadata.ofWorker (metadata : KVChunkMetadata) (instanceId : Text)
    (workerId : Int) : Bool :=
  decide (metadata.instanceId = instanceId ∧ metadata.workerId = workerId)

namespace KVController

def admitChunk (kvPool : KVPool) (msg : KVChunkMsg) : KVPool :=
  kvPool.set (keyText msg.key) ((kvPool.get? (keyText msg.key)).getD [] ++ [msg.metadata])

/-- `kv_pool[key] = remaining`, or the key goes when nothing remains. -/
def keepRemaining (kvPool : KVPool) (key : Text) (remaining : List KVChunkMetadata) : KVPool :=
  if remaining = [] then kvPool.pop key else kvPool.set key remaining

def evict (kvPool : KVPool) (msg : KVChunkMsg) : KVPool :=
  match kvPool.get? (keyText msg.key) with
  | none => kvPool
  | some holders => keepRemaining kvPool (keyText msg.key)
      (holders.filter fun holder => decide (holder ≠ msg.metadata))

/-- The loop of `deregister` over the keys that the iterator has not given yet.
The iterator raises as soon as the size of the dictionary is not the one it
started with. -/
def deregisterFrom (instanceId : Text) (workerId : Int) (size : Nat) :
    KVPool → List Text → Except KVPool KVPool
  | kvPool, keys =>
    if kvPool.entries.length ≠ size then .error kvPool
    else
      match keys with
      | [] => .ok kvPool
      | key :: rest =>
        deregisterFrom instanceId workerId size (keepRemaining kvPool key
            (((kvPool.get? key).getD []).filter fun holder =>
              !holder.ofWorker instanceId workerId)) rest

/-- What the coroutine of `deregister` does once it is awaited. -/
def deregister (kvPool : KVPool) (instanceId : Text) (workerId : Int) : Except KVPool KVPool :=
  deregisterFrom instanceId workerId kvPool.entries.length kvPool kvPool.keys

abbrev LayoutInfo := OrderedDict Text (Text × Nat)

/-- The loop of `lookup`; `kv_pool[key][0]` raises on an empty list. -/
def lookupFrom (kvPool : KVPool) : LayoutInfo → List (TokenChunk Int) → Option LayoutInfo
  | layoutInfo, [] => some layoutInfo
  | layoutInfo, chunk :: rest =>
    match kvPool.get? (keyText chunk.key) with
    | none => some layoutInfo
    | some [] => none
    | some (first :: _) => lookupFrom kvPool
        (layoutInfo.set first.instanceId (first.location, chunk.stop)) rest

/-- `ChunkedTokenDatabase()`, with its defaults. -/
def tokenDatabase (initHash : Int) (hashTokens : Int → List Nat → Int) :
    ChunkedTokenDatabase Int where
  chunkSize := 256
  saveUnfullChunk := true
  initHash := initHash
  hashTokens := hashTokens
  chunkSize_pos := by decide

def lookup (database : ChunkedTokenDatabase Int) (kvPool : KVPool)
    (tokens : List Nat) : Option LayoutInfo :=
  (database.processTokens tokens 0).bind (lookupFrom kvPool OrderedDict.empty)

end KVController

/-! `RegistrationController`. -/

structure WorkerInfo where
  instanceId : Text
  workerId : Int
  ip : Text
  port : Int
  distributedUrl : Text
  registrationTime : Nat
  lastHeartbeatTime : Nat
deriving Repr, DecidableEq

/-- A socket is the address it is connected to. -/
structure RegistrationController where
  workerMapping : OrderedDict Text (List Int)
  distributedUrlMapping : OrderedDict (Text × Int) Text
  socketMapping : OrderedDict (Text × Int) Text
  instanceMapping : OrderedDict Text Text
  workerInfoMapping : OrderedDict (Text × Int) WorkerInfo

namespace RegistrationController

def init : RegistrationController := ⟨.empty, .empty, .empty, .empty, .empty⟩

def register (controller : RegistrationController) (msg : RegisterMsg)
    (socketOpens : Bool) (time : Nat) :
    Except RegistrationController RegistrationController :=
  let worker := (msg.instanceId, msg.workerId)
  let known := { controller with
    distributedUrlMapping := controller.distributedUrlMapping.set worker msg.distributedUrl
    instanceMapping := controller.instanceMapping.set msg.ip msg.instanceId }
  if socketOpens = false then .error known
  else .ok { known with
    socketMapping := known.socketMapping.set worker (msg.ip ++ ':' :: intText 10 msg.port)
    workerInfoMapping := known.workerInfoMapping.set worker
      ⟨msg.instanceId, msg.workerId, msg.ip, msg.port, msg.distributedUrl, time, time⟩
    workerMapping := known.workerMapping.set msg.instanceId
      ((((known.workerMapping.get? msg.instanceId).getD []) ++
        [msg.workerId]).insertionSort fun first second => first ≤ second) }

/-- `deregister` past `worker_mapping`.  `self.kv_controller.deregister(..)` is
the call of an `async def` without an `await`: it makes a coroutine that is
dropped, and nothing of its body runs. -/
def forgetWorker (controller : RegistrationController) (msg : DeRegisterMsg) :
    RegistrationController :=
  let worker := (msg.instanceId, msg.workerId)
  { controller with
    distributedUrlMapping := controller.distributedUrlMapping.pop worker
    socketMapping := controller.socketMapping.pop worker
    workerInfoMapping := controller.workerInfoMapping.pop worker }

/-- `worker_mapping[instance_id] = workers`, or the instance goes. -/
def keepWorkers (controller : RegistrationController) (instanceId : Text)
    (workers : List Int) : RegistrationController :=
  { controller with
    workerMapping :=
      if workers = [] then controller.workerMapping.pop instanceId
      else controller.workerMapping.set instanceId workers }

/-- `list.remove` raises for a worker that is not in the list. -/
def deregister (controller : RegistrationController) (msg : DeRegisterMsg) :
    Except RegistrationController RegistrationController :=
  let known := { controller with
    instanceMapping := controller.instanceMapping.pop msg.ip }
  match known.workerMapping.get? msg.instanceId with
  | none => .ok (known.forgetWorker msg)
  | some workers =>
    if msg.workerId ∈ workers then
      .ok ((known.keepWorkers msg.instanceId (workers.erase msg.workerId)).forgetWorker msg)
    else .error known

/-- A worker that is not known is registered again. -/
def heartbeat (controller : RegistrationController) (msg : RegisterMsg)
    (socketOpens : Bool) (time : Nat) :
    Except RegistrationController RegistrationController :=
  let worker := (msg.instanceId, msg.workerId)
  match controller.workerInfoMapping.get? worker with
  | none => controller.register msg socketOpens time
  | some info => .ok { controller with
      workerInfoMapping := controller.workerInfoMapping.set worker
        { info with lastHeartbeatTime := time } }

end RegistrationController

/-! `LMCacheControllerManager`. -/

structure ControllerManager where
  kvPool : KVPool
  regController : RegistrationController

namespace ControllerManager

def init : ControllerManager := ⟨.empty, .init⟩

/-- A call of the registration controller. -/
def registration (manager : ControllerManager) :
    Except RegistrationController RegistrationController →
      Except ControllerManager ControllerManager
  | .ok controller => .ok { manager with regController := controller }
  | .error controller => .error { manager with regController := controller }

def handleWorkerMessage (manager : ControllerManager) (arrival : Arrival) :
    Except ControllerManager ControllerManager :=
  match arrival.msg with
  | .heartbeat msg => manager.registration
      (manager.regController.heartbeat msg arrival.socketOpens arrival.time)
  | .register msg => manager.registration
      (manager.regController.register msg arrival.socketOpens arrival.time)
  | .deRegister msg => manager.registration (manager.regController.deregister msg)
  | .kvAdmit msg =>
    .ok { manager with kvPool := KVController.admitChunk manager.kvPool msg }
  | .kvEvict msg =>
    .ok { manager with kvPool := KVController.evict manager.kvPool msg }

/-- The loop of `handle_batched_request` goes on after an exception. -/
def handleNext (manager : ControllerManager) (arrival : Arrival) : ControllerManager :=
  match manager.handleWorkerMessage arrival with
  | .ok next => next
  | .error next => next

def handled (arrivals : List Arrival) : ControllerManager := arrivals.foldl handleNext init

end ControllerManager

/-! The dictionary of chunks. -/

namespace KVController

variable {kvPool : KVPool}

/-- The pool has this entry. -/
def Holds (kvPool : KVPool) (key : Int) (metadata : KVChunkMetadata) : Prop :=
  ∃ holders, kvPool.get? (keyText key) = some holders ∧ metadata ∈ holders

theorem keyText_injective {key other : Int} (heq : keyText key = keyText other) : key = other := by
  have hparse := congrArg (parseInt 10) heq
  unfold keyText at hparse
  rw [parseInt_intText (by decide) (by decide),
    parseInt_intText (by decide) (by decide), Option.some.injEq] at hparse
  exact hparse

/-- No key maps to an empty list. -/
def NoEmpty (kvPool : KVPool) : Prop := ∀ entry ∈ kvPool.entries, entry.2 ≠ []

variable {key : Text} {holders : List KVChunkMetadata}

theorem NoEmpty.ne_nil (hne : NoEmpty kvPool)
    (hholders : kvPool.get? key = some holders) : holders ≠ [] :=
  hne _ (OrderedDict.get?_eq_some_iff.mp hholders)

theorem NoEmpty.set (hne : NoEmpty kvPool) (key : Text)
    (hholders : holders ≠ []) : NoEmpty (kvPool.set key holders) := by
  intro entry hentry
  rcases OrderedDict.mem_set.mp hentry with rfl | ⟨hmem, _⟩
  · exact hholders
  · exact hne entry hmem

theorem NoEmpty.keepRemaining (hne : NoEmpty kvPool) (key : Text)
    (remaining : List KVChunkMetadata) : NoEmpty (keepRemaining kvPool key remaining) := by
  unfold KVController.keepRemaining
  split
  · exact fun entry hentry => hne entry (OrderedDict.mem_pop.mp hentry).1
  · next hremaining => exact hne.set key hremaining

theorem NoEmpty.admitChunk (hne : NoEmpty kvPool) (msg : KVChunkMsg) :
    NoEmpty (admitChunk kvPool msg) := by
  apply hne.set
  simp

theorem NoEmpty.evict (hne : NoEmpty kvPool) (msg : KVChunkMsg) : NoEmpty (evict kvPool msg) := by
  unfold KVController.evict
  split
  · exact hne
  · exact hne.keepRemaining _ _

theorem get?_keepRemaining (key other : Text) (remaining : List KVChunkMetadata) :
    ((keepRemaining kvPool key remaining).get? other).getD [] =
      if other = key then remaining else (kvPool.get? other).getD [] := by
  unfold keepRemaining
  by_cases hnil : remaining = []
  · rw [if_pos hnil, OrderedDict.get?_pop, hnil]
    split <;> rfl
  · rw [if_neg hnil, OrderedDict.get?_set]
    split <;> rfl

variable {metadata : KVChunkMetadata}

theorem holds_iff {key : Int} : Holds kvPool key metadata ↔
    metadata ∈ (kvPool.get? (keyText key)).getD [] := by
  unfold Holds
  cases kvPool.get? (keyText key) with
  | none => simp
  | some holders => simp

theorem holds_admit {msg : KVChunkMsg} {key : Int} : Holds (admitChunk kvPool msg) key metadata ↔
    (key = msg.key ∧ metadata = msg.metadata) ∨ Holds kvPool key metadata := by
  rw [holds_iff, holds_iff, admitChunk, OrderedDict.get?_set]
  by_cases hkey : key = msg.key
  · rw [if_pos (congrArg keyText hkey), Option.getD_some, List.mem_append,
      List.mem_singleton, or_comm, hkey]
    simp
  · rw [if_neg (mt keyText_injective hkey)]
    simp [hkey]

theorem holds_evict {msg : KVChunkMsg} {key : Int} :
    Holds (evict kvPool msg) key metadata ↔ Holds kvPool key metadata ∧
      ¬ (key = msg.key ∧ metadata = msg.metadata) := by
  rw [holds_iff, holds_iff]
  cases hfound : kvPool.get? (keyText msg.key) with
  | none =>
    simp only [evict, hfound]
    constructor
    · intro hmem
      refine ⟨hmem, ?_⟩
      rintro ⟨rfl, -⟩
      rw [hfound] at hmem
      simp at hmem
    · exact And.left
  | some holders =>
    simp only [evict, hfound]
    rw [get?_keepRemaining]
    by_cases hkey : key = msg.key
    · rw [if_pos (congrArg keyText hkey), hkey, hfound, List.mem_filter, Option.getD_some]
      simp
    · rw [if_neg (mt keyText_injective hkey)]
      simp [hkey]

/-! The coroutine of `deregister`. -/

theorem length_set_of_mem (hkey : key ∈ kvPool.keys) :
    (kvPool.set key holders).entries.length = kvPool.entries.length := by
  rw [OrderedDict.set, dif_pos hkey, List.length_map]

theorem length_pop_of_mem (hkey : key ∈ kvPool.keys) :
    (kvPool.pop key).entries.length + 1 = kvPool.entries.length := by
  obtain ⟨holders, hentry⟩ := OrderedDict.mem_keys.mp hkey
  exact (OrderedDict.perm_pop hentry).length_eq.symm

/-- Somebody else holds the chunk too. -/
def SharedKey (kvPool : KVPool) (instanceId : Text) (workerId : Int) (key : Text) : Prop :=
  ∃ holder ∈ (kvPool.get? key).getD [], holder.ofWorker instanceId workerId = false

variable {instanceId : Text} {workerId : Int}

theorem sharedKey_iff : SharedKey kvPool instanceId workerId key ↔
    ((kvPool.get? key).getD []).filter
      (fun holder => !holder.ofWorker instanceId workerId) ≠ [] := by
  unfold SharedKey
  rw [ne_eq, List.filter_eq_nil_iff]
  simp

theorem deregisterFrom_of_length_ne {size : Nat} (hsize : kvPool.entries.length ≠ size)
    (keys : List Text) : deregisterFrom instanceId workerId size kvPool keys = .error kvPool := by
  cases keys with
  | nil => rw [deregisterFrom, if_pos hsize]
  | cons key rest => rw [deregisterFrom, if_pos hsize]

/-- Awaited, the sweep would raise as soon as it comes to a chunk that only
this worker holds: it deletes the key it stands on. -/
theorem deregisterFrom_isOk_iff {keys : List Text} (hnodup : keys.Nodup)
    (hkeys : ∀ key ∈ keys, key ∈ kvPool.keys) :
    (∃ next, deregisterFrom instanceId workerId kvPool.entries.length kvPool keys = .ok next) ↔
        ∀ key ∈ keys, SharedKey kvPool instanceId workerId key := by
  generalize hsize : kvPool.entries.length = size
  induction keys generalizing kvPool with
  | nil =>
    rw [deregisterFrom, if_neg (not_not.mpr hsize)]
    simp
  | cons key rest ih =>
    rw [deregisterFrom, if_neg (not_not.mpr hsize)]
    obtain ⟨hnotMem, hrest⟩ := List.nodup_cons.mp hnodup
    have hkey := hkeys key List.mem_cons_self
    by_cases hshared : SharedKey kvPool instanceId workerId key
    · have hremaining := sharedKey_iff.mp hshared
      rw [keepRemaining, if_neg hremaining]
      rw [ih hrest (fun other hother => OrderedDict.mem_keys_set.mpr
        (Or.inr (hkeys other (List.mem_cons_of_mem _ hother))))
          ((length_set_of_mem hkey).trans hsize), List.forall_mem_cons]
      have hsame : ∀ other ∈ rest, SharedKey (kvPool.set key
          (((kvPool.get? key).getD []).filter fun holder =>
            !holder.ofWorker instanceId workerId)) instanceId workerId
              other ↔ SharedKey kvPool instanceId workerId other := by
        intro other hother
        have hne : other ≠ key := fun heq => hnotMem (heq ▸ hother)
        unfold SharedKey
        rw [OrderedDict.get?_set, if_neg hne]
      exact ⟨fun hall => ⟨hshared, fun other hother =>
        (hsame other hother).mp (hall other hother)⟩, fun hall other hother =>
          (hsame other hother).mpr (hall.2 other hother)⟩
    · have hnil := not_not.mp (mt sharedKey_iff.mpr hshared)
      have hpop := length_pop_of_mem hkey
      rw [keepRemaining, if_pos hnil, deregisterFrom_of_length_ne (by omega)]
      constructor
      · rintro ⟨next, hnext⟩
        cases hnext
      · exact fun hall => absurd (hall key List.mem_cons_self) hshared

/-- The loop of `deregister` gets to its end when no key is the worker's alone:
removing such a key changes the dictionary that is gone through. -/
theorem deregister_finishes_iff : (∃ next, deregister kvPool instanceId workerId = .ok next) ↔
    ∀ key ∈ kvPool.keys, SharedKey kvPool instanceId workerId key :=
  deregisterFrom_isOk_iff kvPool.nodup (fun _ hkey => hkey)

end KVController

end CatKV
