/-
The two counters of a `TensorMemoryObj`.  An object frees itself through the
allocator it came from when the last reference is given back and no pin is
left, or the last pin with no reference; counts below zero are set back.
-/
import Mathlib.Data.Int.Notation

namespace CatKV

/-- The counters of `MemoryObjMetadata`. -/
structure MemoryCounts where
  refCount : Int
  pinCount : Int
deriving Repr, DecidableEq

inductive ObjectCall where
  | refCountUp
  | refCountDown
  | pin
  | unpin
deriving Repr, DecidableEq

namespace MemoryCounts

variable (counts : MemoryCounts)

def refCountUp : MemoryCounts := { counts with refCount := counts.refCount + 1 }

/-- The flag says whether `parent_allocator.free` is called. -/
def refCountDown : MemoryCounts × Bool :=
  let refCount := if counts.refCount - 1 < 0 then 0 else counts.refCount - 1
  ({ counts with refCount := refCount }, refCount == 0 && counts.pinCount == 0)

def pin : MemoryCounts := { counts with pinCount := counts.pinCount + 1 }

/-- The object is freed before a negative count is set back. -/
def unpin : MemoryCounts × Bool :=
  let pinCount := counts.pinCount - 1
  ({ counts with pinCount := if pinCount < 0 then 0 else pinCount },
    decide (pinCount ≤ 0) && decide (counts.refCount ≤ 0))

def isPinned : Bool := decide (0 < counts.pinCount)

def canEvict : Bool := !counts.isPinned && counts.refCount == 1

def apply : ObjectCall → MemoryCounts × Bool
  | .refCountUp => (counts.refCountUp, false)
  | .refCountDown => counts.refCountDown
  | .pin => (counts.pin, false)
  | .unpin => counts.unpin

end MemoryCounts

/-- An object of an allocator that is not looked into; it is valid until it is
freed. -/
structure MemoryObj extends MemoryCounts where
  valid : Bool
deriving Repr, DecidableEq

def MemoryObj.call (obj : MemoryObj) (objectCall : ObjectCall) : MemoryObj :=
  let (counts, frees) := obj.toMemoryCounts.apply objectCall
  ⟨counts, obj.valid && !frees⟩

def MemoryObj.invalidate (obj : MemoryObj) : MemoryObj := { obj with valid := false }

/-- A call on an object, named by its place among all there have been. -/
def callObject (memory : List MemoryObj) (id : Nat) (objectCall : ObjectCall) : List MemoryObj :=
  memory.modify id (·.call objectCall)

/-- `batched_free` in the allocator, which does not look at the counters. -/
def freeObjects (memory : List MemoryObj) (ids : List Nat) : List MemoryObj :=
  ids.foldl (fun memory id => memory.modify id (·.invalidate)) memory

end CatKV
