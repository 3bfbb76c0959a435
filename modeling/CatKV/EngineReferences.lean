/-
`LMCacheEngine.store` and `retrieve` as far as reference counts go: what the
engine, the storage manager, the backends, the serializer and the connector
wrapper take and give back.  Put jobs end later, with success or not.  This is
the engine without Nixl, so nothing is removed after it has been retrieved.
-/
import CatKV.LocalCpuBackend
import CatKV.ReferenceCount
import CatKV.Retrieve

namespace CatKV

/-- The backends behind the CPU memory.  A remote connector may support batched
puts; the sentinel connector gives back a reference in its own `put`. -/
inductive BackendKind where
  | localDisk
  | gds
  | remote (supportBatchedPut mlaWorkerIdAs0 releasesItself : Bool)
deriving Repr, DecidableEq

structure PutBackend (κ : Type) where
  kind : BackendKind
  connected : Bool
  putTasks : List (EngineKey κ)
deriving Repr, DecidableEq

/-- A put that has been handed to a thread or an event loop. -/
structure PutJob (κ : Type) where
  backend : Nat
  batched : Bool
  entries : List (EngineKey κ × Nat)
deriving Repr, DecidableEq

/-- How a loop of `allocate` goes: evictions, and whether memory is found in
the end. -/
structure AllocOutcome where
  evictions : Nat
  granted : Bool
deriving Repr, DecidableEq

/-- How a get of a backend other than the CPU memory goes; it may fail after
it has allocated. -/
inductive GetOutcome where
  | missing
  | loaded (evictions : Nat)
  | lost (evictions : Nat)
deriving Repr, DecidableEq

inductive Location where
  | cpu
  | backend (index : Nat)
deriving Repr, DecidableEq

namespace LocalCpuBackend

variable {κ : Type} [DecidableEq κ]

def evictTimes : Nat → LocalCpuBackend κ → Option (LocalCpuBackend κ)
  | 0, backend => some backend
  | evictions + 1, backend => backend.evict.bind (evictTimes evictions)

def allocate (backend : LocalCpuBackend κ) (outcome : AllocOutcome) :
    Option (Option Nat × LocalCpuBackend κ) :=
  (evictTimes outcome.evictions backend).map fun next =>
    if outcome.granted then
      (some next.memory.length, { next with memory := next.memory ++ [⟨⟨1, 0⟩, true⟩] })
    else (none, next)

end LocalCpuBackend

/-- The engine with its backends and the put jobs that have not ended. -/
structure EngineRun (κ : Type) where
  cpu : LocalCpuBackend κ
  backends : List (PutBackend κ)
  jobs : List (PutJob κ)

namespace EngineRun

variable {κ : Type} [DecidableEq κ] (run : EngineRun κ)

def start (policy : CachePolicy) (useHot : Bool)
    (backends : List (BackendKind × Bool)) : EngineRun κ where
  cpu := LocalCpuBackend.start policy useHot
  backends := backends.map fun backend => ⟨backend.1, backend.2, []⟩
  jobs := []

def call (id : Nat) (objectCall : ObjectCall) : EngineRun κ :=
  { run with cpu := { run.cpu with
      memory := callObject run.cpu.memory id objectCall } }

def insertPutTask (index : Nat) (key : EngineKey κ) : EngineRun κ :=
  { run with backends := run.backends.modify index fun backend =>
      { backend with putTasks := backend.putTasks ++ [key] } }

def removePutTasks (index : Nat) (keys : List (EngineKey κ)) : EngineRun κ :=
  { run with backends := run.backends.modify index fun backend =>
      { backend with
        putTasks := backend.putTasks.filter fun key => decide (key ∉ keys) } }

def addJob (job : PutJob κ) : EngineRun κ := { run with jobs := run.jobs ++ [job] }

/-- The serializer raises the count of the object it returns. -/
def serialize (id : Nat) : EngineRun κ :=
  ((run.call id .refCountUp).call id .refCountUp).call id .refCountDown

/-- `submit_put_task`; the flag says whether the disk finds room. -/
def submitPutTask (index : Nat) (admits : Bool) (key : EngineKey κ) (id : Nat) : EngineRun κ :=
  match run.backends[index]? with
  | none => run
  | some backend =>
    match backend.kind with
    | .localDisk =>
      if key ∈ backend.putTasks then run
      else if !admits then run.insertPutTask index key
      else ((run.insertPutTask index key).call id .refCountUp).addJob ⟨index, false, [(key, id)]⟩
    | .gds =>
      ((run.call id .refCountUp).insertPutTask index key).addJob ⟨index, false, [(key, id)]⟩
    | .remote _ mlaWorkerIdAs0 _ =>
      if !backend.connected || mlaWorkerIdAs0 || decide (key ∈ backend.putTasks) then run
      else ((run.insertPutTask index key).serialize id).addJob ⟨index, false, [(key, id)]⟩

def batchedSubmitPutTask (index : Nat) (admits : EngineKey κ → Bool)
    (items : List (EngineKey κ × Nat)) : EngineRun κ :=
  let oneByOne := items.foldl (fun run item =>
    run.submitPutTask index (admits item.1) item.1 item.2) run
  match run.backends[index]? with
  | none => run
  | some backend =>
    match backend.kind with
    | .remote true mlaWorkerIdAs0 _ =>
      if !backend.connected || mlaWorkerIdAs0 then run
      else (items.foldl (fun run item => run.serialize item.2) run).addJob ⟨index, true, items⟩
    | .remote false _ _ => if !backend.connected then run else oneByOne
    | .localDisk | .gds => oneByOne

/-- `batched_put` of the storage manager, the CPU memory first. -/
def batchedPut (admits : Nat → EngineKey κ → Bool)
    (items : List (EngineKey κ × Nat)) : EngineRun κ :=
  let cached :=
    if run.cpu.useHot then
      { run with cpu := items.foldl (fun cpu item =>
          cpu.submitPutTask item.1 item.2) run.cpu }
    else run
  let submitted := (List.range run.backends.length).foldl (fun run index =>
    run.batchedSubmitPutTask index (admits index) items) cached
  items.foldl (fun run item => run.call item.2 .refCountDown) submitted

/-- The loop of `store` over the chunks; it ends at the first one that gets no
memory. -/
def allocateChunks : List (EngineKey κ × AllocOutcome) → LocalCpuBackend κ →
    Option (List (EngineKey κ × Nat) × LocalCpuBackend κ)
  | [], cpu => some ([], cpu)
  | (key, outcome) :: rest, cpu =>
    (cpu.allocate outcome).bind fun allocated =>
      match allocated.1 with
      | none => some ([], allocated.2)
      | some id =>
        (allocateChunks rest allocated.2).map fun later =>
          ((key, id) :: later.1, later.2)

def store (chunks : List (EngineKey κ × AllocOutcome))
    (admits : Nat → EngineKey κ → Bool) : Option (EngineRun κ) :=
  (allocateChunks chunks run.cpu).map fun allocated =>
    let next := { run with cpu := allocated.2 }
    if allocated.1 = [] then next else next.batchedPut admits allocated.1

/-- One get in a backend. -/
def getBlocking (location : Location) (outcome : EngineKey κ → GetOutcome)
    (cpu : LocalCpuBackend κ) (key : EngineKey κ) :
    Option (Option Nat × LocalCpuBackend κ) :=
  match location with
  | .cpu => some (cpu.getBlocking key)
  | .backend _ =>
    match outcome key with
    | .missing => some (none, cpu)
    | .loaded evictions => cpu.allocate ⟨evictions, true⟩
    | .lost evictions =>
      (cpu.allocate ⟨evictions, true⟩).map fun allocated =>
        (none, allocated.2)

def batchedGetBlocking (location : Location) (outcome : EngineKey κ → GetOutcome) :
    LocalCpuBackend κ → List (EngineKey κ) → Option (List (Option Nat) × LocalCpuBackend κ)
  | cpu, [] => some ([], cpu)
  | cpu, key :: rest =>
    (getBlocking location outcome cpu key).bind fun found =>
      (batchedGetBlocking location outcome found.2 rest).map fun later =>
        (found.1 :: later.1, later.2)

/-- One round of the loop over `block_mapping`. -/
def fetchLocation (outcome : EngineKey κ → GetOutcome)
    (state : Fetched (EngineKey κ) Nat × LocalCpuBackend κ)
    (entry : Location × List (TokenChunk (EngineKey κ))) :
    Option (Fetched (EngineKey κ) Nat × LocalCpuBackend κ) :=
  (batchedGetBlocking entry.1 outcome state.2 (entry.2.map (·.key))).map
    fun got =>
      let collected := collectBlocks (entry.2.zip got.1)
      (⟨state.1.reorderedChunks ++ collected.1,
        laterStart state.1.lastFailedBlockStart collected.2⟩, got.2)

/-- `retrieve` with the locations that `contains` has answered; only the chunks
that are not cut back are given back. -/
def retrieve (located : List (Location × TokenChunk (EngineKey κ)))
    (outcome : EngineKey κ → GetOutcome) : Option (EngineRun κ) :=
  ((blockMapping located).foldlM (fetchLocation outcome) (⟨[], none⟩, run.cpu)).map fun state =>
      { run with
        cpu := { state.2 with
          memory := ((cutBack [] state.1).reorderedChunks.map Prod.snd).foldl
            (callObject · · .refCountDown) state.2.memory } }

/-- The end of a put job.  Only a save that succeeds reaches its
`ref_count_down`; the wrapper of a single remote put always does, the one of a
batched put has none. -/
def endJob (job : PutJob κ) (succeeded : Bool) : EngineRun κ :=
  let downAll (run : EngineRun κ) : EngineRun κ :=
    job.entries.foldl (fun run item => run.call item.2 .refCountDown) run
  let keys := job.entries.map Prod.fst
  match run.backends[job.backend]? with
  | none => run
  | some backend =>
    match backend.kind with
    | .localDisk | .gds =>
      if succeeded then (downAll run).removePutTasks job.backend keys
      else run
    | .remote _ _ releasesItself =>
      if job.batched then run.removePutTasks job.backend keys
      else
        let put := if releasesItself && succeeded then downAll run else run
        (downAll put).removePutTasks job.backend keys

end EngineRun

inductive EngineAction (κ : Type) where
  | store (chunks : List (EngineKey κ × AllocOutcome)) (admits : Nat → EngineKey κ → Bool)
  | retrieve (located : List (Location × TokenChunk (EngineKey κ)))
    (outcome : EngineKey κ → GetOutcome)
  | pin (key : EngineKey κ)
  | unpin (key : EngineKey κ)
  | connection (index : Nat) (connected : Bool)
  | endJob (index : Nat) (succeeded : Bool)

namespace EngineRun

variable {κ : Type} [DecidableEq κ] (run : EngineRun κ)

def step : EngineAction κ → Option (EngineRun κ)
  | .store chunks admits => run.store chunks admits
  | .retrieve located outcome => run.retrieve located outcome
  | .pin key => some { run with cpu := run.cpu.callKey key .pin }
  | .unpin key => some { run with cpu := run.cpu.callKey key .unpin }
  | .connection index connected =>
    some { run with backends := run.backends.modify index fun backend =>
      { backend with connected := connected } }
  | .endJob index succeeded =>
    match run.jobs[index]? with
    | none => some run
    | some job =>
      some { run.endJob job succeeded with
        jobs := run.jobs.eraseIdx index }

/-- Once all put jobs have ended, the count of every object is the number of
entries of the cache that hold it, and none of these has been freed. -/
def Conserved : Prop := run.jobs = [] → Counted run.cpu.memory run.cpu.refs

end EngineRun

/-! When references are conserved. -/

def GetOutcome.isLoaded : GetOutcome → Bool
  | .loaded _ => true
  | _ => false

/-- Nothing is evicted for the chunks of other backends. -/
def quietGets {κ : Type} (outcome : EngineKey κ → GetOutcome)
    (located : List (Location × TokenChunk (EngineKey κ))) : Bool :=
  located.all fun entry =>
    entry.1 == .cpu || outcome entry.2.key == .loaded 0

/-- No put goes out as a batch. -/
def PutBackend.TakesSingly {κ : Type} (backend : PutBackend κ) : Bool :=
  match backend.kind with
  | .remote true mlaWorkerIdAs0 _ => !backend.connected || mlaWorkerIdAs0
  | _ => true

/-- A job that ends gives back one reference. -/
def PutBackend.GivesBack {κ : Type} (backend : PutBackend κ) (succeeded : Bool) : Bool :=
  match backend.kind with
  | .localDisk | .gds => succeeded
  | .remote _ _ releasesItself => !(releasesItself && succeeded)

namespace EngineRun

variable {κ : Type} [DecidableEq κ] (run : EngineRun κ)

/-- The chunk is fetched: it is in the CPU memory and is not evicted before, or
another backend gives it. -/
def Fetches (outcome : EngineKey κ → GetOutcome) (quiet : Bool)
    (entry : Location × TokenChunk (EngineKey κ)) : Bool :=
  match entry.1 with
  | .cpu => (run.cpu.hotCache.get? entry.2.key).any fun id =>
    quiet || (run.cpu.memory[id]?).any (·.isPinned)
  | .backend _ => (outcome entry.2.key).isLoaded

/-- The chunk is not there, and nothing is allocated for it. -/
def Misses (outcome : EngineKey κ → GetOutcome)
    (entry : Location × TokenChunk (EngineKey κ)) : Bool :=
  match entry.1 with
  | .cpu => !run.cpu.hotCache.contains entry.2.key
  | .backend _ => outcome entry.2.key == .missing

/-- No remote put is batched, a retrieve fetches all its chunks or none, saves
to disk do not fail, and no connector gives back the wrapper's reference. -/
def Balanced : EngineAction κ → Prop
  | .store _ _ => ∀ backend ∈ run.backends, backend.TakesSingly = true
  | .retrieve located outcome =>
    (∀ entry ∈ located, run.Fetches outcome (quietGets outcome located) entry = true) ∨
      ∀ entry ∈ located, run.Misses outcome entry = true
  | .endJob index succeeded =>
    (run.jobs[index]?).all (fun job =>
      (run.backends[job.backend]?).all (·.GivesBack succeeded)) = true
  | .pin _ | .unpin _ | .connection _ _ => True

end EngineRun

end CatKV
