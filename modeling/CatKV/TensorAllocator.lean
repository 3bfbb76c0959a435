/-
`TensorMemoryAllocator`: an explicit free list over one buffer, with first-fit
allocation and coalescing on both sides.  A batched free first joins the freed
objects into runs along a running start pointer.
-/
import Mathlib.Data.Nat.Bitwise
import CatKV.FreeList
import CatKV.MemoryObject
import CatKV.Transition

namespace CatKV

/-- A `TensorMemoryObj`: its interval of the buffer, its bytes and its
counters. -/
structure TensorMemoryObj extends MemoryCounts where
  address : Nat
  phySize : Nat
  rawData : Interval
  valid : Bool
deriving Repr, DecidableEq

def TensorMemoryObj.interval (obj : TensorMemoryObj) : Interval := ⟨obj.address, obj.phySize⟩

def TensorMemoryObj.invalidate (obj : TensorMemoryObj) : TensorMemoryObj :=
  { obj with valid := false }

/-- The allocator with every object it has made; an object is named by its
place. -/
structure TensorMemoryAllocator where
  bufferSize : Nat
  alignBytes : Nat
  explicitList : List Interval
  numActiveAllocations : Int
  totalAllocatedSize : Int
  objects : List TensorMemoryObj
deriving Repr, DecidableEq

/-- The intervals of the objects that have not been freed. -/
def liveIntervals (objects : List TensorMemoryObj) : List Interval :=
  (objects.filter (·.valid)).map (·.interval)

/-- `(raw_size + align - 1) & ~(align - 1)`. -/
def computeAlignedSize (rawSize align : Nat) : Nat := Nat.ldiff (rawSize + align - 1) (align - 1)

def canBeCoalesced (block succ : Interval) : Bool := block.start + block.size == succ.start

/-- `_coalesce` of a block that belongs at an index; the neighbour before is
changed in place.  The flag says whether the block went into a neighbour. -/
def coalesce (explicitList : List Interval) (currBlock : Interval)
    (index : Nat) : Option (List Interval × Bool) :=
  let prevBlock := if index = 0 then none else explicitList[index - 1]?
  let succBlock := explicitList[index]?
  match prevBlock.filter (canBeCoalesced · currBlock),
    succBlock.filter (canBeCoalesced currBlock) with
  | some prev, some succ =>
    let grown := explicitList.set (index - 1)
      { prev with size := prev.size + (currBlock.size + succ.size) }
    (removeBlock grown succ).map fun blocks => (blocks, true)
  | some prev, none =>
    some (explicitList.set (index - 1) { prev with size := prev.size + currBlock.size }, true)
  | none, some succ =>
    (removeBlock explicitList succ).map fun blocks =>
      (addBlock ⟨succ.start - currBlock.size, succ.size + currBlock.size⟩ blocks, true)
  | none, none => some (explicitList, false)

/-- A block is given back to the list. -/
def returnBlock (explicitList : List Interval) (newFreeBlock : Interval) : Option (List Interval) :=
  (coalesce explicitList newFreeBlock (bisectRight explicitList newFreeBlock)).map fun result =>
      if result.2 then result.1 else addBlock newFreeBlock result.1

/-- The first block that fits is cut; there is none when no memory is
available. -/
def takeBlock (explicitList : List Interval) (size : Nat) :
    Option (Option (Interval × List Interval)) :=
  match explicitList.find? fun block => decide (size ≤ block.size) with
  | none => some none
  | some block =>
    (removeBlock explicitList block).map fun blocks =>
      some (block,
        if size < block.size then addBlock ⟨block.start + size, block.size - size⟩ blocks
        else blocks)

/-- The loop of `batched_free` over the objects. -/
structure FreeRun where
  objects : List TensorMemoryObj
  newFreeBlock : Option Interval
  currStart : Nat
  newFreeBlocks : List Interval
  numValidBlocks : Nat
  totalFreedSize : Nat
deriving Repr, DecidableEq

/-- A valid object begins a run, goes on with the current one or begins the
next. -/
def FreeRun.join (run : FreeRun) (obj : TensorMemoryObj) : FreeRun :=
  match run.newFreeBlock with
  | none =>
    { run with
      newFreeBlock := some obj.interval
      currStart := run.currStart + obj.phySize }
  | some block =>
    if run.currStart = obj.address then
      { run with
        newFreeBlock := some { block with size := block.size + obj.phySize }
        currStart := run.currStart + obj.phySize }
    else
      { run with
        newFreeBlocks := run.newFreeBlocks ++ [block]
        newFreeBlock := some obj.interval
        currStart := obj.address + obj.phySize }

/-- The object is counted and invalidated. -/
def FreeRun.mark (run : FreeRun) (id : Nat) (obj : TensorMemoryObj) : FreeRun :=
  { run with
    objects := run.objects.set id obj.invalidate
    numValidBlocks := run.numValidBlocks + 1
    totalFreedSize := run.totalFreedSize + obj.phySize }

def FreeRun.visit (run : FreeRun) (id : Nat) : FreeRun :=
  match run.objects[id]? with
  | none => run
  | some obj => if !obj.valid then run else (run.mark id obj).join obj

def FreeRun.blocks (run : FreeRun) : List Interval := run.newFreeBlocks ++ run.newFreeBlock.toList

inductive AllocatorAction where
  | allocate (rawSize : Nat)
  | batchedAllocate (unitRawSize batchSize : Nat)
  | free (id : Nat)
  | batchedFree (ids : List Nat) (updateStats : Bool)
deriving Repr, DecidableEq

namespace TensorMemoryAllocator

variable (allocator : TensorMemoryAllocator)

def start (bufferSize alignBytes : Nat) : TensorMemoryAllocator where
  bufferSize := bufferSize
  alignBytes := alignBytes
  explicitList := [⟨0, bufferSize⟩]
  numActiveAllocations := 0
  totalAllocatedSize := 0
  objects := []

def alignedSize (rawSize : Nat) : Nat :=
  if rawSize % allocator.alignBytes ≠ 0 then computeAlignedSize rawSize allocator.alignBytes
  else rawSize

/-- An allocation takes its memory and adds its objects. -/
def grant (size : Nat) (objectsAt : Nat → List TensorMemoryObj) : Option TensorMemoryAllocator :=
  (takeBlock allocator.explicitList size).map fun taken =>
    match taken with
    | none => allocator
    | some (block, blocks) =>
      let made := objectsAt block.start
      { allocator with
        explicitList := blocks
        totalAllocatedSize := allocator.totalAllocatedSize + size
        numActiveAllocations := allocator.numActiveAllocations + made.length
        objects := allocator.objects ++ made }

def allocate (rawSize : Nat) : Option TensorMemoryAllocator :=
  let alignedSize := allocator.alignedSize rawSize
  allocator.grant alignedSize fun start =>
    [⟨⟨1, 0⟩, start, alignedSize, ⟨start, rawSize⟩, true⟩]

/-- `batched_allocate`; the bytes of each object are its share of the block.  A
batch of none raises in `torch.chunk`, with the lists and sums as they were. -/
def batchedAllocate (unitRawSize batchSize : Nat) : Option TensorMemoryAllocator :=
  let unitAlignedSize := allocator.alignedSize unitRawSize
  allocator.grant (unitAlignedSize * batchSize) fun start =>
    (List.range batchSize).map fun index =>
      let tempStart := start + index * unitAlignedSize
      ⟨⟨1, 0⟩, tempStart, unitAlignedSize, ⟨tempStart, unitAlignedSize⟩, true⟩

def free (id : Nat) : Option TensorMemoryAllocator :=
  match allocator.objects[id]? with
  | none => some allocator
  | some obj =>
    if !obj.valid then some allocator
    else
      (returnBlock allocator.explicitList obj.interval).map fun blocks =>
        { allocator with
          explicitList := blocks
          objects := allocator.objects.set id obj.invalidate
          totalAllocatedSize := allocator.totalAllocatedSize - obj.phySize
          numActiveAllocations := allocator.numActiveAllocations - 1 }

/-- `batched_free`; the running pointer starts at the first object of the
list, whether it is valid or not.  An empty list raises before anything has
changed. -/
def batchedFree (ids : List Nat) (updateStats : Bool) : Option TensorMemoryAllocator :=
  match ids.head?.bind (allocator.objects[·]?) with
  | none => some allocator
  | some first =>
    let run := ids.foldl FreeRun.visit ⟨allocator.objects, none, first.address, [], 0, 0⟩
    (run.blocks.foldlM returnBlock allocator.explicitList).map fun blocks =>
      { allocator with
        explicitList := blocks
        objects := run.objects
        totalAllocatedSize :=
          if updateStats then allocator.totalAllocatedSize - run.totalFreedSize
          else allocator.totalAllocatedSize
        numActiveAllocations :=
          if updateStats then allocator.numActiveAllocations - run.numValidBlocks
          else allocator.numActiveAllocations }

def step : AllocatorAction → Option TensorMemoryAllocator
  | .allocate rawSize => allocator.allocate rawSize
  | .batchedAllocate unitRawSize batchSize =>
    allocator.batchedAllocate unitRawSize batchSize
  | .free id => allocator.free id
  | .batchedFree ids updateStats => allocator.batchedFree ids updateStats

def memcheck : Bool :=
  ((totalSize allocator.explicitList : Int) + allocator.totalAllocatedSize ==
      allocator.bufferSize) &&
    (allocator.explicitList.zip allocator.explicitList.tail).all
      fun neighbours => !canBeCoalesced neighbours.1 neighbours.2

/-- The free blocks and the live objects partition the buffer, the counters
are the sums over the live objects, and every object's bytes are its own. -/
structure Sound : Prop where
  free : IsFreeList allocator.explicitList
  shares : Shares allocator.bufferSize (allocator.explicitList ++ liveIntervals allocator.objects)
  disjoint : (liveIntervals allocator.objects).Pairwise Interval.Separate
  total : allocator.totalAllocatedSize = totalSize (liveIntervals allocator.objects)
  active : allocator.numActiveAllocations = (liveIntervals allocator.objects).length
  bytes : ∀ obj ∈ allocator.objects, obj.rawData.Within obj.interval
  memcheck : allocator.memcheck = true

end TensorMemoryAllocator

/-- The next valid object is taken for a continuation of the block only where
the block ends. -/
def nextFits (objects : List TensorMemoryObj) (currStart : Nat) (block : Interval) : List Nat → Bool
  | [] => true
  | id :: rest =>
    match objects[id]? with
    | none => nextFits objects currStart block rest
    | some obj =>
      if obj.valid then currStart != obj.address || currStart == block.stop
      else nextFits objects currStart block rest

/-- The second valid object of the list does not follow the place that the
pointer has by then, unless the first one ends there. -/
def startsRight (objects : List TensorMemoryObj) (headAddress : Nat) : List Nat → Bool
  | [] => true
  | id :: rest =>
    match objects[id]? with
    | none => startsRight objects headAddress rest
    | some obj =>
      if obj.valid then
        nextFits (objects.set id obj.invalidate) (headAddress + obj.phySize) obj.interval rest
      else startsRight objects headAddress rest

/-- Shapes are not empty, and a batched free that begins with an object that
is gone does not take a later one for its continuation. -/
def AllocatorAction.Fits (allocator : TensorMemoryAllocator) : AllocatorAction → Prop
  | .allocate rawSize => 0 < rawSize
  | .batchedAllocate unitRawSize _ => 0 < unitRawSize
  | .free _ => True
  | .batchedFree ids updateStats => updateStats = true ∧
      ∀ first, ids.head?.bind (allocator.objects[·]?) = some first →
        startsRight allocator.objects first.address ids = true

end CatKV
