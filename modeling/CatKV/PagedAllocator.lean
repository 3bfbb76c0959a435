/-
`PagedTensorMemoryAllocator`: the buffer is cut into pages of one size, each
with one object for ever.  A page is recycled as the same object, which is
not invalidated, so only its counters tell a holder from a former one.
-/
import CatKV.TensorAllocator

namespace CatKV

/-- What the pages are made for.  Taking the buffer's size modulo the size of
a page raises when that is zero. -/
structure PageLayout where
  shape : List Nat
  bytesPerElement : Nat
  numPages : Nat
  alignBytes_pos : 0 < shape.prod * bytesPerElement

namespace PageLayout

variable (layout : PageLayout)

def alignBytes : Nat := layout.shape.prod * layout.bytesPerElement

def pagedBuffer (index : Nat) : Interval := ⟨index * layout.alignBytes, layout.alignBytes⟩

def rawSize (shape : List Nat) : Nat := shape.prod * layout.bytesPerElement

def Fits (shape : List Nat) : Prop := layout.rawSize shape ≤ layout.alignBytes

end PageLayout

structure PagedMemoryObj extends TensorMemoryObj where
  shape : List Nat
deriving Repr, DecidableEq

namespace PagedMemoryObj

variable (layout : PageLayout) (obj : PagedMemoryObj)

/-- What an allocation does to the object of the page; the pin count is left
alone. -/
def handOut (shape : List Nat) : PagedMemoryObj :=
  { obj with
    shape := shape
    refCount := 1
    rawData :=
      if shape ≠ layout.shape then ⟨obj.rawData.start, min (layout.rawSize shape) obj.rawData.size⟩
      else obj.rawData }

/-- A page that was cut gets its bytes back. -/
def restore : PagedMemoryObj :=
  { obj with
    rawData :=
      if obj.shape ≠ layout.shape then layout.pagedBuffer obj.address
      else obj.rawData }

end PagedMemoryObj

structure PagedAllocator where
  pages : List PagedMemoryObj
  freeBlocks : List Nat
  numActiveAllocations : Int
  totalAllocatedSize : Int
deriving Repr, DecidableEq

namespace PagedAllocator

variable (layout : PageLayout) (allocator : PagedAllocator)

def start : PagedAllocator where
  pages := (List.range layout.numPages).map fun index =>
    { refCount := 1
      pinCount := 0
      address := index
      phySize := layout.alignBytes
      rawData := layout.pagedBuffer index
      valid := true
      shape := layout.shape }
  freeBlocks := List.range layout.numPages
  numActiveAllocations := 0
  totalAllocatedSize := 0

/-- `free_blocks.popleft()`, and the object made ready for the shape. -/
def popleft (shape : List Nat) : Option (Nat × PagedAllocator) :=
  match allocator.freeBlocks with
  | [] => none
  | page :: rest =>
    some (page, { allocator with
      freeBlocks := rest
      pages := allocator.pages.modify page (·.handOut layout shape) })

def allocate (shape : List Nat) : PagedAllocator × Option Nat :=
  match allocator.popleft layout shape with
  | none => (allocator, none)
  | some (page, next) =>
    ({ next with
      numActiveAllocations := next.numActiveAllocations + 1
      totalAllocatedSize := next.totalAllocatedSize + layout.alignBytes },
      some page)

/-- The page goes to the end of `free_blocks`. -/
def recycle (page : Nat) : PagedAllocator :=
  if (allocator.pages[page]?).any (·.valid) then
    { allocator with
      pages := allocator.pages.modify page (·.restore layout)
      freeBlocks := allocator.freeBlocks ++ [page] }
  else allocator

def free (page : Nat) : PagedAllocator :=
  if (allocator.pages[page]?).any (·.valid) then
    let next := allocator.recycle layout page
    { next with
      totalAllocatedSize := next.totalAllocatedSize - layout.alignBytes
      numActiveAllocations := next.numActiveAllocations - 1 }
  else allocator

def batchedFree (memoryObjs : List Nat) (updateStats : Bool) : PagedAllocator :=
  let next := memoryObjs.foldl (·.recycle layout ·) allocator
  if updateStats then
    { next with
      totalAllocatedSize :=
        next.totalAllocatedSize - layout.alignBytes * memoryObjs.length
      numActiveAllocations :=
        next.numActiveAllocations - memoryObjs.length }
  else next

/-- The loop of `batched_allocate`: when the pages run out, those taken so far
are given back. -/
def takePages (shape : List Nat) :
    Nat → PagedAllocator → List Nat → PagedAllocator × Option (List Nat)
  | 0, allocator, allocatedBlocks => (allocator, some allocatedBlocks)
  | batchSize + 1, allocator, allocatedBlocks =>
    match allocator.popleft layout shape with
    | none => (allocator.batchedFree layout allocatedBlocks false, none)
    | some (page, next) =>
      takePages shape batchSize next (allocatedBlocks ++ [page])

def batchedAllocate (shape : List Nat) (batchSize : Nat) : PagedAllocator × Option (List Nat) :=
  match takePages layout shape batchSize allocator [] with
  | (next, none) => (next, none)
  | (next, some allocatedBlocks) =>
    let numActiveAllocations := next.numActiveAllocations + batchSize
    ({ next with
      numActiveAllocations := numActiveAllocations
      totalAllocatedSize := numActiveAllocations * layout.alignBytes },
      some allocatedBlocks)

/-- A call on the object of a page. -/
def call (page : Nat) (objectCall : ObjectCall) : PagedAllocator :=
  match allocator.pages[page]? with
  | none => allocator
  | some obj =>
    let (counts, frees) := obj.toMemoryCounts.apply objectCall
    let next := { allocator with
      pages := allocator.pages.modify page fun old =>
        { old with toMemoryCounts := counts } }
    if frees then next.free layout page else next

end PagedAllocator

/-- A page given to an owner, with the references and pins that the owner has
taken and not given back. -/
structure HandOut where
  page : Nat
  refs : Nat
  pins : Nat
deriving Repr, DecidableEq

namespace HandOut

variable (handOut : HandOut)

def held : Bool := decide (0 < handOut.refs) || decide (0 < handOut.pins)

/-- An owner that has given everything back is not made one by a later
call. -/
def call (objectCall : ObjectCall) : HandOut :=
  if !handOut.held then handOut
  else
    match objectCall with
    | .refCountUp => { handOut with refs := handOut.refs + 1 }
    | .refCountDown => { handOut with refs := handOut.refs - 1 }
    | .pin => { handOut with pins := handOut.pins + 1 }
    | .unpin => { handOut with pins := handOut.pins - 1 }

end HandOut

def heldPages (handOuts : List HandOut) : List Nat := (handOuts.filter (·.held)).map (·.page)

inductive PagedAction where
  | allocate (shape : List Nat)
  | batchedAllocate (shape : List Nat) (batchSize : Nat)
  | call (owner : Nat) (objectCall : ObjectCall)
deriving Repr, DecidableEq

/-- The allocator, and every hand-out there has been; an owner is named by its
place. -/
structure PagedRun where
  allocator : PagedAllocator
  handOuts : List HandOut
deriving Repr, DecidableEq

namespace PagedRun

variable (layout : PageLayout) (run : PagedRun)

def start : PagedRun := ⟨PagedAllocator.start layout, []⟩

def step : PagedAction → Option PagedRun
  | .allocate shape =>
    let (next, page) := run.allocator.allocate layout shape
    some ⟨next, run.handOuts ++ page.toList.map (⟨·, 1, 0⟩)⟩
  | .batchedAllocate shape batchSize =>
    let (next, pages) := run.allocator.batchedAllocate layout shape batchSize
    some ⟨next, run.handOuts ++ (pages.getD []).map (⟨·, 1, 0⟩)⟩
  | .call owner objectCall =>
    (run.handOuts[owner]?).map fun handOut =>
      ⟨run.allocator.call layout handOut.page objectCall,
        run.handOuts.modify owner (·.call objectCall)⟩

/-- What the receiver of a page finds. -/
def HandsOut (pages : List PagedMemoryObj) (shape : List Nat) (page : Nat) : Prop :=
  ∃ obj, pages[page]? = some obj ∧ obj.refCount = 1 ∧ obj.pinCount = 0 ∧
    obj.rawData = ⟨page * layout.alignBytes, layout.rawSize shape⟩

/-- Every page is free once or has one owner, what is handed out is clean, and
the counter is the number of pages held. -/
structure Sound : Prop where
  owned : (run.allocator.freeBlocks ++ heldPages run.handOuts).Perm (List.range layout.numPages)
  allocates : ∀ shape, layout.Fits shape → ∀ next page,
    run.allocator.allocate layout shape = (next, some page) → HandsOut layout next.pages shape page
  batches : ∀ shape, layout.Fits shape → ∀ batchSize next pages,
    run.allocator.batchedAllocate layout shape batchSize = (next, some pages) →
        ∀ page ∈ pages, HandsOut layout next.pages shape page
  active : run.allocator.numActiveAllocations = (heldPages run.handOuts).length

/-- A call comes from an owner that still holds the page. -/
def ByHolder : PagedAction → Prop
  | .allocate _ => True
  | .batchedAllocate _ _ => True
  | .call owner _ => (run.handOuts[owner]?).all (·.held) = true

instance byHolderDecidable : ∀ action, Decidable (run.ByHolder action)
  | .allocate _ | .batchedAllocate _ _ => inferInstanceAs (Decidable True)
  | .call _ _ => inferInstanceAs (Decidable (_ = true))

end PagedRun

end CatKV
