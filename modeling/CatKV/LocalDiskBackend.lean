/-
`LocalDiskBackend`: a dictionary of what is stored, files, and the calls that
work on them.  A locked section, a write, a read and a removal of a file are
single steps, and the steps of different calls interleave.  A section that
raises while it holds the lock only takes steps away, so the lock has no state
of its own here.
-/
import CatKV.CachePolicies
import CatKV.WireMessages

namespace CatKV

/-- How the bytes of an object are read. -/
structure TensorLayout where
  shape : List Nat
  dtype : TorchDtype
  fmt : MemoryFormat
deriving Repr, DecidableEq

/-- `get_size`, with the element sizes of `torch`. -/
def TensorLayout.getSize (itemsize : TorchDtype → Nat) (layout : TensorLayout) : Nat :=
  layout.shape.prod * itemsize layout.dtype

/-- A memory object with its bytes.  Its byte array holds the tensor and may
reach up to the physical size. -/
structure TensorObject (itemsize : TorchDtype → Nat) where
  layout : TensorLayout
  byteArray : List UInt8
  physicalSize : Nat
  getSize_le : layout.getSize itemsize ≤ byteArray.length
  length_le : byteArray.length ≤ physicalSize

/-- The bytes of the tensor of an object. -/
def TensorObject.tensorBytes {itemsize : TorchDtype → Nat}
    (obj : TensorObject itemsize) : List UInt8 :=
  obj.byteArray.take (obj.layout.getSize itemsize)

structure DiskCacheMetadata (π : Type) where
  path : π
  size : Nat
  layout : TensorLayout
  pinCount : Int

def DiskCacheMetadata.canEvict {π : Type} (entry : DiskCacheMetadata π) : Bool :=
  !decide (0 < entry.pinCount)

structure DiskConfig where
  maxCacheSize : Nat
  osDiskBs : Nat
  useOdirect : Bool

structure LocalDiskBackend (κ π : Type) where
  config : DiskConfig
  dict : OrderedDict κ (DiskCacheMetadata π)
  policy : PolicyState κ
  files : OrderedDict π (List UInt8)
  currentCacheSize : Int
  usage : Int
  putTasks : List κ

/-! Files. -/

/-- What a write leaves in a file: without `O_DIRECT` the file is cut first. -/
def DiskConfig.writeFile (config : DiskConfig) (old : Option (List UInt8))
    (bytes : List UInt8) (size : Nat) : List UInt8 :=
  if size % config.osDiskBs ≠ 0 ∨ config.useOdirect = false then bytes
  else bytes ++ (old.getD []).drop bytes.length

/-- `readinto`: as many bytes as the file has and the buffer holds. -/
def readInto (file buffer : List UInt8) : List UInt8 :=
  file.take buffer.length ++ buffer.drop file.length

theorem length_readInto (file buffer : List UInt8) :
    (readInto file buffer).length = buffer.length := by
  rw [readInto, List.length_append, List.length_take, List.length_drop]
  omega

namespace LocalDiskBackend

variable {κ π : Type} [DecidableEq κ] [DecidableEq π] (backend : LocalDiskBackend κ π)

def start (config : DiskConfig) (policy : CachePolicy) : LocalDiskBackend κ π where
  config := config
  dict := OrderedDict.empty
  policy := PolicyState.start policy
  files := OrderedDict.empty
  currentCacheSize := 0
  usage := 0
  putTasks := []

/-- `remove` without the lock: the entry, its part of the usage and its file
go.  A file that is not there raises, which is told beside the state. -/
def removeEntry (key : κ) (entry : DiskCacheMetadata π) : LocalDiskBackend κ π × Bool :=
  let popped := { backend with
    dict := backend.dict.pop key
    usage := backend.usage - entry.size }
  if backend.files.contains entry.path then
    ({ popped with files := popped.files.pop entry.path }, false)
  else (popped, true)

/-- The forced `remove`. -/
def remove (key : κ) : LocalDiskBackend κ π :=
  match backend.dict.get? key with
  | none => backend
  | some entry =>
    match backend.removeEntry key entry with
    | (next, true) => next
    | (next, false) =>
      { next with policy := next.policy.updateOnForceEvict key }

inductive Room where
  | made
  | refused
  | raised
deriving Repr, DecidableEq

/-- A round of the loop of `submit_put_task`: the size of the candidate is
given back and the candidate removed.  `none` stands for another round. -/
def evictOne : LocalDiskBackend κ π × Option Room :=
  match backend.policy.getEvictCandidates DiskCacheMetadata.canEvict backend.dict with
  | none => (backend, some .raised)
  | some (none, policy) => ({ backend with policy := policy }, some .refused)
  | some (some key, policy) =>
    match backend.dict.get? key with
    | none => ({ backend with policy := policy }, some .raised)
    | some entry =>
      let removed := { backend with
        policy := policy
        currentCacheSize := backend.currentCacheSize - entry.size
      }.removeEntry key entry
      (removed.1, if removed.2 then some .raised else none)

/-- The loop of `submit_put_task` that makes room.  A round that goes on takes
an entry out, so one round more than there are entries is enough. -/
def makeRoom (requiredSize : Nat) : Nat → LocalDiskBackend κ π → LocalDiskBackend κ π × Room
  | 0, backend => (backend, .raised)
  | rounds + 1, backend =>
    if backend.currentCacheSize + requiredSize ≤ backend.config.maxCacheSize then
      ({ backend with
        currentCacheSize := backend.currentCacheSize + requiredSize }, .made)
    else
      match backend.evictOne with
      | (next, some room) => (next, room)
      | (next, none) => makeRoom requiredSize rounds next

/-- `insert_key`. -/
def insertKey (key : κ) (path : π) (size : Nat) (layout : TensorLayout) : LocalDiskBackend κ π :=
  { backend with
    dict := (backend.dict.pop key).set key ⟨path, size, layout, 0⟩ }

/-- `pin` and `unpin`. -/
def changePins (key : κ) (change : Int) : LocalDiskBackend κ π :=
  match backend.dict.get? key with
  | none => backend
  | some entry =>
    let changed := { entry with pinCount := entry.pinCount + change }
    { backend with dict := backend.dict.set key changed }

def updateOnHit (key : κ) : Option (LocalDiskBackend κ π) :=
  (backend.policy.updateOnHit key backend.dict).map fun next =>
    { backend with policy := next.1, dict := next.2 }

/-- The loop of `touch_cache`; it stops at a key that raises. -/
def hitAll : LocalDiskBackend κ π → List κ → LocalDiskBackend κ π × Bool
  | backend, [] => (backend, false)
  | backend, key :: rest =>
    match backend.updateOnHit key with
    | none => (backend, true)
    | some next => hitAll next rest

end LocalDiskBackend

theorem LocalDiskBackend.files_changePins {κ π : Type} [DecidableEq κ]
    {backend : LocalDiskBackend κ π} (key : κ) (change : Int) :
    (backend.changePins key change).files = backend.files := by
  unfold changePins
  split <;> rfl

/-! The calls under way. -/

/-- A call of `submit_put_task`, before and after its mark in the put tasks. -/
structure SubmitCall (κ : Type) (itemsize : TorchDtype → Nat) where
  key : κ
  obj : TensorObject itemsize
  marked : Bool

inductive SaveStage where
  | queued
  | written
  | inserted
deriving Repr, DecidableEq

/-- A run of `async_save_bytes_to_disk`. -/
structure SaveJob (κ : Type) (itemsize : TorchDtype → Nat) where
  key : κ
  obj : TensorObject itemsize
  stage : SaveStage

/-- What was found under a key, with the buffer that was allocated for it. -/
structure Located (κ π : Type) (itemsize : TorchDtype → Nat) where
  key : κ
  path : π
  layout : TensorLayout
  buffer : List UInt8
  getSize_le : layout.getSize itemsize ≤ buffer.length

/-- The object with the bytes of a file, or with what its buffer held. -/
def Located.load {κ π : Type} {itemsize : TorchDtype → Nat}
    (located : Located κ π itemsize) (file : List UInt8) :
    κ × TensorObject itemsize :=
  (located.key,
    { layout := located.layout
      byteArray := readInto file located.buffer
      physicalSize := located.buffer.length
      getSize_le := by
        rw [length_readInto]
        exact located.getSize_le
      length_le := (length_readInto ..).le })

/-- A call that reads: `get_blocking` between its sections and before it
allocates; the loop of `batched_get_non_blocking`; and for both the reading of
files, a file that was not found, and the unpinning of what was read. -/
inductive ReadCall (κ π : Type) (itemsize : TorchDtype → Nat) where
  | found (key : κ)
  | opening (key : κ) (path : π) (layout : TensorLayout)
  | gathering (keys : List κ) (located : List (Located κ π itemsize))
  | reading (blocking : Bool) (todo : List (Located κ π itemsize))
      (done : List (κ × TensorObject itemsize))
  | missing (blocking : Bool) (located : Located κ π itemsize) (todo : List (Located κ π itemsize))
      (done : List (κ × TensorObject itemsize))
  | unpinning (key : κ) (todo : List (Located κ π itemsize))
      (done : List (κ × TensorObject itemsize))

/-- How far a step takes a reading call. -/
inductive ReadOutcome (κ π : Type) (itemsize : TorchDtype → Nat) where
  | going (call : ReadCall κ π itemsize)
  | returned (objs : List (κ × TensorObject itemsize))
  | raised

section Reading

variable {κ π : Type} {itemsize : TorchDtype → Nat}

def Located.of (key : κ) (path : π) (layout : TensorLayout)
    (buffer : List UInt8) : Option (Located κ π itemsize) :=
  if hsize : layout.getSize itemsize ≤ buffer.length then some ⟨key, path, layout, buffer, hsize⟩
  else none

theorem Located.of_eq_some {key : κ} {path : π} {layout : TensorLayout} {buffer : List UInt8}
    {located : Located κ π itemsize} (hlocated : Located.of key path layout buffer = some located) :
    located.key = key ∧ located.path = path ∧ located.layout = layout := by
  unfold Located.of at hlocated
  split at hlocated
  · cases hlocated
    exact ⟨rfl, rfl, rfl⟩
  · cases hlocated

/-- After `read_file`: a blocking get goes on, a prefetch unpins first. -/
def ReadCall.afterRead (blocking : Bool) (key : κ) (todo : List (Located κ π itemsize))
    (done : List (κ × TensorObject itemsize)) : ReadCall κ π itemsize :=
  if blocking then .reading true todo done else .unpinning key todo done

variable [DecidableEq κ] [DecidableEq π] (backend : LocalDiskBackend κ π)

namespace ReadCall

/-- The second section of `get_blocking`. -/
def locate (key : κ) : LocalDiskBackend κ π × ReadOutcome κ π itemsize :=
  match backend.updateOnHit key with
  | none => (backend, .raised)
  | some next =>
    match next.dict.get? key with
    | none => (next, .raised)
    | some entry => (next, .going (.opening key entry.path entry.layout))

/-- One round of the loop of `batched_get_non_blocking`, which allocates and
pins inside its section. -/
def gather (buffer : Option (List UInt8)) (key : κ) (rest : List κ)
    (located : List (Located κ π itemsize)) :
    Option (LocalDiskBackend κ π × ReadOutcome κ π itemsize) :=
  match backend.dict.get? key, backend.updateOnHit key, buffer with
  | some entry, some hit, some bytes =>
    match (hit.changePins key 1).updateOnHit key with
    | none => some (hit.changePins key 1, .raised)
    | some next =>
      (Located.of key entry.path entry.layout bytes).map fun found =>
        (next, .going (.gathering rest (located ++ [found])))
  | some _, some hit, none => some (hit, .raised)
  | _, _, _ => some (backend, .raised)

/-- `read_file`, up to the point where a missing file is noticed. -/
def readFile (blocking : Bool) (located : Located κ π itemsize) (todo : List (Located κ π itemsize))
    (done : List (κ × TensorObject itemsize)) : ReadCall κ π itemsize :=
  match backend.files.get? located.path with
  | none => .missing blocking located todo done
  | some file =>
    afterRead blocking located.key todo (done ++ [located.load file])

/-- The section after a file of a prefetch was read. -/
def unpin (key : κ) (todo : List (Located κ π itemsize)) (done : List (κ × TensorObject itemsize)) :
    LocalDiskBackend κ π × ReadOutcome κ π itemsize :=
  match backend.dict.get? key with
  | none => (backend, .raised)
  | some _ => (backend.changePins key (-1), .going (.reading false todo done))

/-- The next step of a reading call.  `buffer` is what the allocation gives,
with whatever the memory held; an allocation may fail.  A missing file takes
its entry out of the dictionary, and the buffer is returned as it is. -/
def advance (buffer : Option (List UInt8)) : ReadCall κ π itemsize →
      Option (LocalDiskBackend κ π × ReadOutcome κ π itemsize)
  | .found key => some (locate backend key)
  | .opening key path layout =>
    match buffer with
    | none => some (backend, .raised)
    | some bytes =>
      (Located.of key path layout bytes).map fun located =>
        (backend, .going (.reading true [located] []))
  | .gathering [] located =>
    some (backend, .going (.reading false located []))
  | .gathering (key :: rest) located => gather backend buffer key rest located
  | .reading _ [] done => some (backend, .returned done)
  | .reading blocking (located :: todo) done =>
    some (backend, .going (readFile backend blocking located todo done))
  | .missing blocking located todo done =>
    some ({ backend with dict := backend.dict.pop located.key },
      .going (.afterRead blocking located.key todo (done ++ [located.load []])))
  | .unpinning key todo done => some (unpin backend key todo done)

end ReadCall

/-! Runs. -/

variable (κ π itemsize)

/-- The backend and the calls under way, with every put that was accepted and
every object that was returned. -/
structure DiskRun where
  backend : LocalDiskBackend κ π
  submits : List (SubmitCall κ itemsize)
  saves : List (SaveJob κ itemsize)
  reads : List (ReadCall κ π itemsize)
  puts : List (κ × TensorObject itemsize)
  returned : List (κ × TensorObject itemsize)

/-- `touchCache` has the keys of the request, and `lose` is a file that goes
from outside. -/
inductive DiskAction where
  | submit (key : κ) (obj : TensorObject itemsize)
  | mark (index : Nat)
  | reserve (index : Nat)
  | save (index : Nat)
  | saveFails (index : Nat) (written : Option Nat)
  | getBlocking (key : κ)
  | batchedGet (keys : List κ)
  | read (index : Nat) (buffer : Option (List UInt8))
  | remove (key : κ)
  | changePins (key : κ) (change : Int)
  | touchCache (keysInRequest : List κ)
  | lose (path : π)

variable {κ π itemsize}

namespace DiskRun

def start (config : DiskConfig) (policy : CachePolicy) : DiskRun κ π itemsize where
  backend := LocalDiskBackend.start config policy
  submits := []
  saves := []
  reads := []
  puts := []
  returned := []

variable (keyToPath : κ → π) (run : DiskRun κ π itemsize)

/-- `write_file` for a save, with the usage that is counted before it. -/
def writeSave (job : SaveJob κ itemsize) (bytes : List UInt8) : LocalDiskBackend κ π :=
  let path := keyToPath job.key
  { run.backend with
    usage := run.backend.usage + job.obj.byteArray.length
    files := run.backend.files.set path
      (run.backend.config.writeFile (run.backend.files.get? path) bytes job.obj.byteArray.length) }

/-- The next step of a save: the file, the entry, and the end of its mark. -/
def stepSave (before : List (SaveJob κ itemsize)) (job : SaveJob κ itemsize)
    (after : List (SaveJob κ itemsize)) : DiskRun κ π itemsize :=
  match job.stage with
  | .queued =>
    { run with
      backend := run.writeSave keyToPath job job.obj.byteArray
      saves := before ++ { job with stage := .written } :: after }
  | .written =>
    { run with
      backend := run.backend.insertKey job.key (keyToPath job.key)
        job.obj.physicalSize job.obj.layout
      saves := before ++ { job with stage := .inserted } :: after }
  | .inserted =>
    { run with
      backend := { run.backend with
        putTasks := run.backend.putTasks.erase job.key }
      saves := before ++ after }

/-- The section of `submit_put_task` that reserves space, and what comes after
it.  The mark stays when the put is refused or raises. -/
def stepReserve (before : List (SubmitCall κ itemsize))
    (call : SubmitCall κ itemsize) (after : List (SubmitCall κ itemsize)) :
    DiskRun κ π itemsize :=
  match LocalDiskBackend.makeRoom call.obj.physicalSize
      (run.backend.dict.entries.length + 1) run.backend with
  | (next, .made) =>
    { run with
      backend := { next with policy := next.policy.updateOnPut call.key }
      submits := before ++ after
      saves := run.saves ++ [⟨call.key, call.obj, .queued⟩]
      puts := run.puts ++ [(call.key, call.obj)] }
  | (next, _) => { run with backend := next, submits := before ++ after }

def stepRead (before : List (ReadCall κ π itemsize)) (after : List (ReadCall κ π itemsize)) :
    LocalDiskBackend κ π × ReadOutcome κ π itemsize → DiskRun κ π itemsize
  | (next, .going call) =>
    { run with backend := next, reads := before ++ call :: after }
  | (next, .returned objs) =>
    { run with
      backend := next
      reads := before ++ after
      returned := run.returned ++ objs }
  | (next, .raised) => { run with backend := next, reads := before ++ after }

def step : DiskAction κ π itemsize → Option (DiskRun κ π itemsize)
  | .submit key obj =>
    if key ∈ run.backend.putTasks then some run
    else some { run with submits := run.submits ++ [⟨key, obj, false⟩] }
  | .mark index =>
    match pick run.submits index with
    | some (before, ⟨key, obj, false⟩, after) =>
      some { run with
        backend := { run.backend with
          putTasks := run.backend.putTasks ++ [key] }
        submits := before ++ ⟨key, obj, true⟩ :: after }
    | _ => none
  | .reserve index =>
    match pick run.submits index with
    | some (before, ⟨key, obj, true⟩, after) =>
      some (run.stepReserve before ⟨key, obj, true⟩ after)
    | _ => none
  | .save index =>
    match pick run.saves index with
    | some (before, job, after) =>
      some (run.stepSave keyToPath before job after)
    | none => none
  | .saveFails index written =>
    match pick run.saves index with
    | some (before, ⟨key, obj, .queued⟩, after) =>
      match written with
      | none =>
        some { run with
          backend := { run.backend with
            usage := run.backend.usage + obj.byteArray.length }
          saves := before ++ after }
      | some count =>
        some { run with
          backend := run.writeSave keyToPath ⟨key, obj, .queued⟩ (obj.byteArray.take count)
          saves := before ++ after }
    | _ => none
  | .getBlocking key =>
    if run.backend.dict.contains key then
      match run.backend.updateOnHit key with
      | none => some run
      | some next =>
        some { run with
          backend := next, reads := run.reads ++ [.found key] }
    else some run
  | .batchedGet keys =>
    some { run with reads := run.reads ++ [.gathering keys []] }
  | .read index buffer =>
    match pick run.reads index with
    | some (before, call, after) =>
      (call.advance run.backend buffer).map (run.stepRead before after)
    | none => none
  | .remove key => some { run with backend := run.backend.remove key }
  | .changePins key change =>
    some { run with backend := run.backend.changePins key change }
  | .touchCache keysInRequest =>
    some { run with
      backend := (run.backend.hitAll keysInRequest.reverse).1 }
  | .lose path =>
    some { run with backend := { run.backend with
      files := run.backend.files.pop path } }

end DiskRun

end Reading

/-- Two bytes. -/
def twoBytes (first second : UInt8) : TensorObject fun _ => 1 where
  layout := ⟨[2], .uint8, .kv2LTD⟩
  byteArray := [first, second]
  physicalSize := 2
  getSize_le := Nat.le_refl 2
  length_le := Nat.le_refl 2

/-- A key is put on the disk. -/
def putOnDisk (key : Nat) (obj : TensorObject fun _ => 1) : List (DiskAction Nat Nat fun _ => 1) :=
  [.submit key obj, .mark 0, .reserve 0, .save 0, .save 0, .save 0]

end CatKV
