/-
The CPU and GPU arenas of `S3Manager` and the life of the loads that use them.
A load takes one CPU region, may take one GPU region, and both stay referenced
until the load fails or the caller drops the returned tensors.
-/
import CatKV.RingAllocator
import CatKV.Transition

namespace CatKV

def kBlockSize : Nat := 4096

def kGpuAlignment : Nat := 256

def kGpuArenaSize : Nat := 512 * 1024 * 1024

/-- `align_up` in `size_t` arithmetic. -/
def alignUp (size blockSize : Nat) : Nat :=
  if blockSize = 0 then size
  else (size + blockSize - 1) % 2 ^ 64 / blockSize * blockSize

/-! Layout of one batch. -/

/-- Offsets of the objects of a batch and the end of the last one. -/
def layoutObjects : Nat → List Nat → List Nat × Nat
  | current, [] => ([], current)
  | current, size :: rest =>
    let offset := alignUp current kBlockSize
    let next := (offset + alignUp size kBlockSize) % 2 ^ 64
    (offset :: (layoutObjects next rest).1, (layoutObjects next rest).2)

def allocationSize (sizes : List Nat) : Nat :=
  let current := (layoutObjects 0 sizes).2
  if current = 0 then kBlockSize else alignUp current kBlockSize

def computeAlignedObjectOffsets (alignment : Nat) : Nat → List Nat → List Nat
  | _, [] => []
  | cursor, size :: rest =>
    let cursor := alignUp cursor alignment
    cursor :: computeAlignedObjectOffsets alignment ((cursor + size) % 2 ^ 64) rest

def gpuOffsets (sizes : List Nat) : List Nat := computeAlignedObjectOffsets kGpuAlignment 0 sizes

def gpuTotal (sizes : List Nat) : Nat :=
  (List.zipWith (fun offset size => (offset + size) % 2 ^ 64) (gpuOffsets sizes) sizes).foldl max 0

/-! The arenas.  An offset never exceeds its capacity and no allocation has
2^63 bytes, so sums of an offset and a fitting size do not wrap. -/

/-- `allocate_from_arena`; no offset means a private `posix_memalign` block. -/
def allocateFromArena (arena : Ring) (requiredSize : Nat) : Option Nat × Ring :=
  let alignedSize := if requiredSize = 0 then kBlockSize else alignUp requiredSize kBlockSize
  if arena.capacity < alignedSize then (none, arena)
  else (some (arena.start arena.offset alignedSize), arena.advance arena.offset alignedSize)

/-- The allocation of `batch_load_internal`. -/
def allocateBatch (arena : Ring) (size : Nat) : Option Nat × Ring :=
  if arena.capacity ≥ size then
    (some (arena.start arena.offset size), arena.advance arena.offset size)
  else allocateFromArena arena size

/-- `arena` numbers the blocks returned by `cudaMalloc`; none is a null
pointer. -/
structure GpuArena where
  arena : Option Nat
  ring : Ring
  currentDeviceId : Option Nat
  made : Nat
deriving Repr, DecidableEq

structure GpuPlacement where
  arena : Option Nat
  base : Nat
  stamp : Nat
deriving Repr, DecidableEq

def GpuArena.reallocates (gpu : GpuArena) (size deviceId : Nat) : Bool :=
  gpu.currentDeviceId != some deviceId || decide (gpu.ring.capacity < alignUp size kGpuAlignment)

def GpuArena.place (gpu : GpuArena) (alignedSize : Nat) : GpuArena × GpuPlacement :=
  let allocOffset := alignUp gpu.ring.offset kGpuAlignment
  ({ gpu with ring := gpu.ring.advance allocOffset alignedSize },
    ⟨gpu.arena, gpu.ring.start allocOffset alignedSize, gpu.ring.stamp allocOffset alignedSize⟩)

/-- A growth or a device change frees the old block first; when `cudaMalloc`
then fails, capacity and device keep their old values. -/
def allocateFromGpuArenaUnlocked (gpu : GpuArena) (size deviceId : Nat)
    (mallocOk : Bool) : GpuArena × Option GpuPlacement :=
  if size = 0 then (gpu, some ⟨none, 0, gpu.ring.travelled⟩)
  else
    let alignedSize := alignUp size kGpuAlignment
    if gpu.reallocates size deviceId then
      if mallocOk then
        let fresh : GpuArena :=
          ⟨some gpu.made, ⟨max kGpuArenaSize alignedSize, 0, 0⟩, some deviceId, gpu.made + 1⟩
        ((fresh.place alignedSize).1, some (fresh.place alignedSize).2)
      else ({ gpu with arena := none }, none)
    else ((gpu.place alignedSize).1, some (gpu.place alignedSize).2)

/-! Loads. -/

structure Load where
  id : Nat
  sizes : List Nat
  deviceId : Option Nat
deriving Repr, DecidableEq

/-- A region of the CPU arena that some load or caller still refers to. -/
structure CpuRegion where
  owner : Nat
  sizes : List Nat
  base : Nat
  stamp : Nat
deriving Repr, DecidableEq

structure GpuRegion where
  owner : Nat
  sizes : List Nat
  placement : GpuPlacement
deriving Repr, DecidableEq

def CpuRegion.span (region : CpuRegion) : Interval := ⟨region.base, allocationSize region.sizes⟩

/-- The destinations of the downloads, which the parsed tensors view. -/
def CpuRegion.objects (region : CpuRegion) : List Interval :=
  objectIntervals region.base (layoutObjects 0 region.sizes).1 region.sizes

def GpuRegion.span (region : GpuRegion) : Interval :=
  ⟨region.placement.base, alignUp (gpuTotal region.sizes) kGpuAlignment⟩

def GpuRegion.objects (region : GpuRegion) : List Interval :=
  objectIntervals region.placement.base (gpuOffsets region.sizes) region.sizes

structure ArenaState where
  arena : Ring
  gpu : GpuArena
  nextLoad : Nat
  downloading : List Load
  copying : List Load
  cpuLive : List CpuRegion
  gpuLive : List GpuRegion
deriving Repr, DecidableEq

/-- A manager whose constructor preallocated `capacity` bytes. -/
def ArenaState.initial (capacity : Nat) : ArenaState :=
  ⟨⟨capacity, 0, 0⟩, ⟨none, ⟨0, 0, 0⟩, none, 0⟩, 0, [], [], [], []⟩

inductive ArenaAction where
  | batchLoad (sizes : List Nat) (deviceId : Option Nat)
  | loadFails (index : Nat)
  | returnsCpu (index : Nat)
  | gpuAllocate (index : Nat) (mallocOk : Bool)
  | copyFails (index : Nat)
  | returnsGpu (index : Nat)
  | dropCpu (owner : Nat)
  | dropGpu (owner : Nat)
deriving Repr, DecidableEq

def ArenaState.releaseCpu (state : ArenaState) (owner : Nat) : ArenaState :=
  { state with
    cpuLive := state.cpuLive.filter fun region => region.owner != owner }

def ArenaState.releaseGpu (state : ArenaState) (owner : Nat) : ArenaState :=
  { state with
    gpuLive := state.gpuLive.filter fun region => region.owner != owner }

/-- The locked part of `batch_load_internal`: layout and CPU allocation. -/
def ArenaState.batchLoad (state : ArenaState) (sizes : List Nat)
    (deviceId : Option Nat) : ArenaState :=
  let allocation := allocateBatch state.arena (allocationSize sizes)
  { state with
    arena := allocation.2
    nextLoad := state.nextLoad + 1
    downloading := state.downloading ++ [⟨state.nextLoad, sizes, deviceId⟩]
    cpuLive := match allocation.1 with
      | none => state.cpuLive
      | some base =>
        ⟨state.nextLoad, sizes, base, state.arena.stamp state.arena.offset
          (allocationSize sizes)⟩ :: state.cpuLive }

/-- The GPU allocation of a load that was taken off the downloading list. -/
def ArenaState.gpuAllocate (state : ArenaState) (load : Load)
    (deviceId : Nat) (mallocOk : Bool) : ArenaState :=
  match allocateFromGpuArenaUnlocked state.gpu (gpuTotal load.sizes) deviceId mallocOk with
  | (gpu, none) => { state with gpu := gpu }.releaseCpu load.id
  | (gpu, some placement) =>
    { state with
      gpu := gpu
      copying := state.copying ++ [load]
      gpuLive := ⟨load.id, load.sizes, placement⟩ :: state.gpuLive }

def ArenaState.inProgress (state : ArenaState) (owner : Nat) : Bool :=
  (state.downloading ++ state.copying).any fun load => load.id == owner

def ArenaState.step (state : ArenaState) : ArenaAction → Option ArenaState
  | .batchLoad sizes deviceId =>
    if sizes.isEmpty then some state
    else some (state.batchLoad sizes deviceId)
  | .loadFails index =>
    match pick state.downloading index with
    | none => none
    | some (before, load, after) =>
      some ({ state with downloading := before ++ after }.releaseCpu load.id)
  | .returnsCpu index =>
    match pick state.downloading index with
    | none => none
    | some (before, load, after) =>
      if load.deviceId.isNone || gpuTotal load.sizes == 0 then
        some { state with downloading := before ++ after }
      else none
  | .gpuAllocate index mallocOk =>
    match pick state.downloading index with
    | none => none
    | some (before, load, after) =>
      match load.deviceId with
      | none => none
      | some deviceId =>
        if gpuTotal load.sizes = 0 then none
        else some ({ state with downloading := before ++ after }.gpuAllocate load deviceId mallocOk)
  | .copyFails index =>
    match pick state.copying index with
    | none => none
    | some (before, load, after) =>
      some (({ state with copying := before ++ after }.releaseCpu load.id).releaseGpu load.id)
  | .returnsGpu index =>
    match pick state.copying index with
    | none => none
    | some (before, _, after) =>
      some { state with copying := before ++ after }
  | .dropCpu owner =>
    if state.inProgress owner then none else some (state.releaseCpu owner)
  | .dropGpu owner =>
    if state.inProgress owner then none else some (state.releaseGpu owner)

end CatKV
