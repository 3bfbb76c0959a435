/-
`LocalCPUBackend`: the hot cache in CPU memory with its eviction policies.
The locked sections of a call are single actions here, so the attempts of
`allocate` and the evictions between them may interleave with other calls.
Whether the allocator has memory is left open.
-/
import Mathlib.Data.List.Sort
import CatKV.ChunkedTokens
import CatKV.MemoryObject
import CatKV.OrderedDict
import CatKV.Transition

namespace CatKV

inductive CachePolicy where
  | fifo
  | lru
  | mru
  | lfu
deriving Repr, DecidableEq

/-- The objects of the allocator, the cache and the state of its policy.  The
frequencies are those of the LFU policy, in the order in which the keys came
into their buckets. -/
structure LocalCpuBackend (κ : Type) where
  policy : CachePolicy
  useHot : Bool
  memory : List MemoryObj
  hotCache : OrderedDict (EngineKey κ) Nat
  frequencies : OrderedDict (EngineKey κ) Nat
  keysInRequest : List (EngineKey κ)

namespace LocalCpuBackend

variable {κ : Type} [DecidableEq κ] (backend : LocalCpuBackend κ)

def start (policy : CachePolicy) (useHot : Bool) : LocalCpuBackend κ where
  policy := policy
  useHot := useHot
  memory := []
  hotCache := OrderedDict.empty
  frequencies := OrderedDict.empty
  keysInRequest := []

/-- The references of the cache. -/
def refs : List Nat := backend.hotCache.entries.map Prod.snd

def canEvict (id : Nat) : Bool := (backend.memory[id]?).any (·.canEvict)

/-! The policies. -/

/-- `update_on_hit`, which raises for a key that is not there. -/
def updateOnHit (key : EngineKey κ) : Option (LocalCpuBackend κ) :=
  match backend.policy with
  | .fifo => some backend
  | .lru | .mru =>
    if backend.hotCache.contains key then
      some { backend with hotCache := backend.hotCache.moveToEnd key }
    else none
  | .lfu =>
    (backend.frequencies.get? key).map fun currFreq =>
      { backend with
        frequencies := (backend.frequencies.pop key).set key (currFreq + 1) }

def updateOnPut (key : EngineKey κ) : LocalCpuBackend κ :=
  if backend.policy = .lfu then { backend with frequencies := backend.frequencies.set key 1 }
  else backend

def updateOnForceEvict (key : EngineKey κ) : LocalCpuBackend κ :=
  if backend.policy = .lfu then { backend with frequencies := backend.frequencies.pop key }
  else backend

/-- The keys in the order in which they are looked at. -/
def evictOrder : List (EngineKey κ) :=
  match backend.policy with
  | .fifo | .lru => backend.hotCache.keys
  | .mru => backend.hotCache.keys.reverse
  | .lfu => (backend.frequencies.entries.insertionSort
      fun first second => first.2 ≤ second.2).map Prod.fst

/-- The first key whose object can be evicted; a key that is not in the cache
raises. -/
def firstEvictable : List (EngineKey κ) → Option (Option (EngineKey κ))
  | [] => some none
  | key :: rest =>
    match backend.hotCache.get? key with
    | none => none
    | some id =>
      if backend.canEvict id then some (some key)
      else firstEvictable rest

/-- `get_evict_candidates` for one candidate; LFU forgets what it gives. -/
def getEvictCandidates : Option (Option (EngineKey κ) × LocalCpuBackend κ) :=
  (backend.firstEvictable backend.evictOrder).map fun candidate =>
    (candidate, candidate.elim backend backend.updateOnForceEvict)

/-! The calls. -/

def contains (key : EngineKey κ) (pin : Bool) : Bool × LocalCpuBackend κ :=
  match backend.hotCache.get? key with
  | none => (false, backend)
  | some id =>
    if pin then
      (true, { backend with
        memory := callObject backend.memory id .pin
        keysInRequest := backend.keysInRequest ++ [key] })
    else (true, backend)

/-- The loop of `touch_cache`; it stops at a key that raises. -/
def hitAll : LocalCpuBackend κ → List (EngineKey κ) → LocalCpuBackend κ × Bool
  | backend, [] => (backend, false)
  | backend, key :: rest =>
    match backend.updateOnHit key with
    | none => (backend, true)
    | some next => hitAll next rest

def touchCache : LocalCpuBackend κ × Bool :=
  match hitAll backend backend.keysInRequest.reverse with
  | (next, true) => (next, true)
  | (next, false) => ({ next with keysInRequest := [] }, false)

def submitPutTask (key : EngineKey κ) (id : Nat) : LocalCpuBackend κ :=
  if backend.hotCache.contains key then backend
  else
    updateOnPut { backend with
      memory := callObject backend.memory id .refCountUp
      hotCache := backend.hotCache.set key id } key

def getBlocking (key : EngineKey κ) : Option Nat × LocalCpuBackend κ :=
  match backend.hotCache.get? key with
  | none => (none, backend)
  | some id =>
    (some id, { backend with
      memory := callObject backend.memory id .refCountUp })

/-- `pin` and `unpin` by key. -/
def callKey (key : EngineKey κ) (objectCall : ObjectCall) : LocalCpuBackend κ :=
  match backend.hotCache.get? key with
  | none => backend
  | some id =>
    { backend with memory := callObject backend.memory id objectCall }

def remove (key : EngineKey κ) (force : Bool) : LocalCpuBackend κ :=
  match backend.hotCache.get? key with
  | none => backend
  | some id =>
    let next := { backend with
      hotCache := backend.hotCache.pop key
      memory := callObject backend.memory id .refCountDown }
    if force then next.updateOnForceEvict key else next

/-- The locked section of the loop of `allocate`. -/
def evict : Option (LocalCpuBackend κ) :=
  if backend.useHot then
    backend.getEvictCandidates.map fun found =>
      found.1.elim found.2 (found.2.remove · false)
  else some backend

/-- The loop over the layers of a key: their objects are collected while the
keys go.  A missing key raises. -/
def popLayers : LocalCpuBackend κ → List (EngineKey κ) → Option (List Nat × LocalCpuBackend κ)
  | backend, [] => some ([], backend)
  | backend, key :: rest =>
    (backend.hotCache.get? key).bind fun id =>
      let evicted := backend.updateOnForceEvict key
      (popLayers { evicted with
        hotCache := evicted.hotCache.pop key } rest).map fun popped =>
          (id :: popped.1, popped.2)

/-- The locked section of the loop of `batched_allocate`: the objects of all
layers of the candidate are freed in the allocator, which raises for an empty
list. -/
def batchedEvict (batchSize : Nat) : Option (LocalCpuBackend κ) :=
  if backend.useHot then
    backend.getEvictCandidates.bind fun found =>
      match found.1 with
      | none => some found.2
      | some key =>
        (popLayers found.2 (splitLayers key.chunkKey batchSize)).bind
          fun popped =>
            if popped.1 = [] then none
            else some { popped.2 with
              memory := freeObjects popped.2.memory popped.1 }
  else some backend

/-- The keys that `clear` collects. -/
def clearKeys : List (EngineKey κ) :=
  (backend.hotCache.entries.filter fun entry =>
    !backend.canEvict entry.2).map Prod.fst

def clear : LocalCpuBackend κ :=
  if backend.useHot then backend.clearKeys.foldl (·.remove · true) backend
  else backend

end LocalCpuBackend

inductive CpuAction (κ : Type) where
  | grant (batchSize : Nat)
  | submitPutTask (key : EngineKey κ) (id : Nat)
  | getBlocking (key : EngineKey κ)
  | contains (key : EngineKey κ) (pin : Bool)
  | touchCache
  | pin (key : EngineKey κ)
  | unpin (key : EngineKey κ)
  | release (id : Nat)
  | evict
  | batchedEvict (batchSize : Nat)
  | clear
deriving Repr, DecidableEq

/-- The backend, and the references that callers have and not given back. -/
structure CpuRun (κ : Type) where
  backend : LocalCpuBackend κ
  users : List Nat

namespace CpuRun

variable {κ : Type} [DecidableEq κ] (run : CpuRun κ)

def start (policy : CachePolicy) (useHot : Bool) : CpuRun κ :=
  ⟨LocalCpuBackend.start policy useHot, []⟩

/-- One call, or one locked section of one; there is no next state when it
raises.  Callers put and release objects that they hold; an attempt that the
allocator refuses changes nothing. -/
def step : CpuAction κ → Option (CpuRun κ)
  | .grant batchSize =>
    let length := run.backend.memory.length
    some
      { backend := { run.backend with
          memory := run.backend.memory ++ List.replicate batchSize ⟨⟨1, 0⟩, true⟩ }
        users := run.users ++ (List.range batchSize).map (length + ·) }
  | .submitPutTask key id =>
    if id ∈ run.users then some { run with backend := run.backend.submitPutTask key id }
    else some run
  | .getBlocking key =>
    let (found, next) := run.backend.getBlocking key
    some ⟨next, run.users ++ found.toList⟩
  | .contains key pin =>
    some { run with backend := (run.backend.contains key pin).2 }
  | .touchCache => some { run with backend := run.backend.touchCache.1 }
  | .pin key => some { run with backend := run.backend.callKey key .pin }
  | .unpin key => some { run with backend := run.backend.callKey key .unpin }
  | .release id =>
    if id ∈ run.users then
      some
        { backend := { run.backend with
            memory := callObject run.backend.memory id .refCountDown }
          users := run.users.erase id }
    else some run
  | .evict => run.backend.evict.map ({ run with backend := · })
  | .batchedEvict batchSize =>
    (run.backend.batchedEvict batchSize).map ({ run with backend := · })
  | .clear => some { run with backend := run.backend.clear }

/-- Pinned, or referenced by someone besides the cache. -/
def InUse (id : Nat) : Prop := (run.backend.memory[id]?).any (·.isPinned) = true ∨ id ∈ run.users

/-- Entries in use stay, with their memory. -/
def KeepsInUse (next : CpuRun κ) : Prop :=
  ∀ key id, (key, id) ∈ run.backend.hotCache.entries → run.InUse id →
    (key, id) ∈ next.backend.hotCache.entries ∧ (next.backend.memory[id]?).any (·.valid) = true

/-- The step does not raise and keeps what is in use; `clear` leaves nothing
that could have been evicted. -/
def Protects (action : CpuAction κ) : Prop :=
  ∃ next, run.step action = some next ∧ run.KeepsInUse next ∧
    (action = .clear → ∀ entry ∈ run.backend.hotCache.entries, run.backend.canEvict entry.2 = true →
        entry ∉ next.backend.hotCache.entries)

/-- At a batched eviction the chunks with a layer that can be evicted are
there with all layers, which can be evicted too; the cache is cleared when
there is nothing to do. -/
def Whole : CpuAction κ → Prop
  | .batchedEvict batchSize => 0 < batchSize ∧ ∀ entry ∈ run.backend.hotCache.entries,
        run.backend.canEvict entry.2 = true → ∀ layerKey ∈ splitLayers entry.1.chunkKey batchSize,
            (run.backend.hotCache.get? layerKey).any run.backend.canEvict = true
  | .clear =>
    (∀ entry ∈ run.backend.hotCache.entries, run.backend.canEvict entry.2 = false) ∧
        (run.backend.useHot = true → run.backend.hotCache.entries = [])
  | _ => True

end CpuRun

end CatKV
