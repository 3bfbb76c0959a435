/-
`allocate_from_gpu_arena_unlocked` with the CUDA calls it makes.  The old block
is freed before the new one is obtained, and capacity, offset and device id
change only when `cudaMalloc` succeeds; the result of `cudaSetDevice` is never
looked at.  A failed call therefore leaves a null arena behind that a later
call on the old device takes for a block of the old capacity.
-/
import Mathlib.Algebra.Order.Ring.Nat
import CatKV.ArenaSafety

namespace CatKV.GpuCalls

/-- A block of device memory that has not been freed. -/
structure DeviceBlock (deviceCount : Nat) where
  device : Fin deviceCount
  size : Nat
deriving Repr, DecidableEq

/-- The blocks by the order of their `cudaMalloc` calls, and the device of the
calling thread. -/
structure DeviceMemory (deviceCount : Nat) where
  blocks : Nat → Option (DeviceBlock deviceCount)
  made : Nat
  threadDevice : Fin deviceCount

section Cuda

variable {deviceCount : Nat}

/-- An ordinal that `cudaSetDevice` accepts. -/
def Visible (deviceCount : Nat) (deviceId : Int) : Prop :=
  ∃ device : Fin deviceCount, (device.val : Int) = deviceId

/-- An ordinal out of range is refused and the thread stays on its device. -/
def DeviceMemory.cudaSetDevice (memory : DeviceMemory deviceCount)
    (deviceId : Int) : DeviceMemory deviceCount :=
  if hvisible : 0 ≤ deviceId ∧ deviceId.toNat < deviceCount then
    { memory with threadDevice := ⟨deviceId.toNat, hvisible.2⟩ }
  else memory

def DeviceMemory.cudaFree (memory : DeviceMemory deviceCount) (block : Nat) :
    DeviceMemory deviceCount :=
  { memory with blocks := Function.update memory.blocks block none }

/-- The new block lies on the device of the calling thread. -/
def DeviceMemory.cudaMalloc (memory : DeviceMemory deviceCount) (size : Nat)
    (ok : Bool) : Option Nat × DeviceMemory deviceCount :=
  if ok then
    (some memory.made, { memory with
      blocks := Function.update memory.blocks memory.made (some ⟨memory.threadDevice, size⟩)
      made := memory.made + 1 })
  else (none, memory)

end Cuda

/-- The GPU arena of `S3Manager`; none is a null pointer. -/
structure S3Arena (deviceCount : Nat) where
  gpuArena : Option Nat
  gpuArenaCapacity : Nat
  gpuArenaOffset : Nat
  currentDeviceId : Int
  memory : DeviceMemory deviceCount

/-- A call, with the device its thread is on and what `cudaMalloc` would
answer. -/
structure GpuRequest (deviceCount : Nat) where
  size : Fin (2 ^ 64)
  deviceId : Int
  threadDevice : Fin deviceCount
  mallocOk : Bool
deriving Repr, DecidableEq

/-- An address: an offset into a block or from the null pointer. -/
structure GpuPointer where
  block : Option Nat
  offset : Nat
deriving Repr, DecidableEq

section Allocate

variable {deviceCount : Nat}

def GpuRequest.alignedSize (request : GpuRequest deviceCount) : Nat :=
  alignUp request.size.val kGpuAlignment

def GpuRequest.allocSize (request : GpuRequest deviceCount) : Nat :=
  max kGpuArenaSize request.alignedSize

def S3Arena.Reallocates (arena : S3Arena deviceCount) (request : GpuRequest deviceCount) : Prop :=
  arena.currentDeviceId ≠ request.deviceId ∨ arena.gpuArenaCapacity < request.alignedSize

instance S3Arena.reallocatesDecidable (arena : S3Arena deviceCount)
    (request : GpuRequest deviceCount) :
    Decidable (arena.Reallocates request) :=
  inferInstanceAs (Decidable (_ ∨ _))

/-- The old block is freed on its own device. -/
def S3Arena.release (arena : S3Arena deviceCount)
    (request : GpuRequest deviceCount) : S3Arena deviceCount :=
  let memory := { arena.memory with threadDevice := request.threadDevice }
  let memory :=
    if 0 ≤ arena.currentDeviceId ∧ arena.currentDeviceId ≠ request.deviceId then
      memory.cudaSetDevice arena.currentDeviceId
    else memory
  match arena.gpuArena with
  | none => { arena with memory := memory }
  | some block =>
    { arena with memory := memory.cudaFree block, gpuArena := none }

/-- No arena means that the call throws; the second component is what the
exception leaves behind. -/
def S3Arena.reallocate (arena : S3Arena deviceCount) (request : GpuRequest deviceCount) :
    Option (S3Arena deviceCount) × S3Arena deviceCount :=
  let released := arena.release request
  let memory := released.memory.cudaSetDevice request.deviceId
  match memory.cudaMalloc request.allocSize request.mallocOk with
  | (none, memory) => (none, { released with memory := memory })
  | (some block, memory) =>
    let fresh : S3Arena deviceCount := ⟨some block, request.allocSize, 0, request.deviceId, memory⟩
    (some fresh, fresh)

/-- The bump allocation, in `size_t` arithmetic. -/
def S3Arena.place (arena : S3Arena deviceCount) (alignedSize : Nat) :
    S3Arena deviceCount × GpuPointer :=
  let aligned := alignUp arena.gpuArenaOffset kGpuAlignment
  let allocOffset :=
    if (aligned + alignedSize) % 2 ^ 64 > arena.gpuArenaCapacity then 0
    else aligned
  ({ arena with gpuArenaOffset := (allocOffset + alignedSize) % 2 ^ 64 },
    ⟨arena.gpuArena, allocOffset⟩)

/-- No pointer means that the call throws. -/
def S3Arena.allocateFromGpuArenaUnlocked (arena : S3Arena deviceCount)
    (request : GpuRequest deviceCount) :
    S3Arena deviceCount × Option GpuPointer :=
  if request.size.val = 0 then (arena, some ⟨none, 0⟩)
  else if arena.Reallocates request then
    match arena.reallocate request with
    | (none, left) => (left, none)
    | (some fresh, _) =>
      ((fresh.place request.alignedSize).1, some (fresh.place request.alignedSize).2)
  else ((arena.place request.alignedSize).1, some (arena.place request.alignedSize).2)

def S3Arena.step (arena : S3Arena deviceCount)
    (request : GpuRequest deviceCount) : Option (S3Arena deviceCount) :=
  some (arena.allocateFromGpuArenaUnlocked request).1

def S3Arena.initial (threadDevice : Fin deviceCount) : S3Arena deviceCount :=
  ⟨none, 0, 0, -1, ⟨fun _ => none, 0, threadDevice⟩⟩

/-! What a call promises. -/

/-- Every byte of the interval lies in a block that is allocated on the
requested device, and the interval starts at a multiple of 256. -/
structure Inside (memory : DeviceMemory deviceCount)
    (request : GpuRequest deviceCount) (pointer : GpuPointer) : Prop where
  bytes : ∀ byte < request.size.val, ∃ number block,
    pointer.block = some number ∧ memory.blocks number = some block ∧
      (block.device.val : Int) = request.deviceId ∧
      pointer.offset + byte < block.size
  aligned : kGpuAlignment ∣ pointer.offset

/-- If the call returns, its interval is inside an arena. -/
def Sound (arena : S3Arena deviceCount) (request : GpuRequest deviceCount) : Prop :=
  ∀ pointer, (arena.allocateFromGpuArenaUnlocked request).2 = some pointer →
    Inside (arena.allocateFromGpuArenaUnlocked request).1.memory request pointer

/-- Rounding the size up does not wrap. -/
def GpuRequest.Rounds (request : GpuRequest deviceCount) : Prop :=
  request.size.val + kGpuAlignment ≤ 2 ^ 64

/-- A call for bytes: a new block is obtained only on a device that exists, and
the old one is used only if it is there; no sum of sizes wraps. -/
def Orderly (arena : S3Arena deviceCount) (request : GpuRequest deviceCount) : Prop :=
  request.size.val = 0 ∨
    if arena.Reallocates request then
      request.mallocOk = true → request.Rounds ∧ Visible deviceCount request.deviceId
    else
      request.Rounds ∧ arena.gpuArena.isSome = true ∧
        alignUp arena.gpuArenaOffset kGpuAlignment + request.alignedSize < 2 ^ 64

/-- The arena's fields describe the block it points to. -/
structure Tracked (arena : S3Arena deviceCount) : Prop where
  capacity : arena.gpuArenaCapacity + kGpuAlignment ≤ 2 ^ 64
  block : ∀ number, arena.gpuArena = some number →
    ∃ block, arena.memory.blocks number = some block ∧
      (block.device.val : Int) = arena.currentDeviceId ∧
      block.size = arena.gpuArenaCapacity

/-! The sizes of a call. -/

theorem alignUp_le (size : Nat) : alignUp size kGpuAlignment + kGpuAlignment ≤ 2 ^ 64 := by
  rw [alignUp, if_neg (by decide), kGpuAlignment]
  omega

theorem dvd_alignUp (size : Nat) : kGpuAlignment ∣ alignUp size kGpuAlignment := by
  rw [alignUp, if_neg (by decide)]
  exact Nat.dvd_mul_left _ _

variable {request : GpuRequest deviceCount}

theorem GpuRequest.Rounds.size_le (hrounds : request.Rounds) :
    request.size.val ≤ request.alignedSize := by
  unfold GpuRequest.Rounds at hrounds
  rw [GpuRequest.alignedSize, alignUp_eq (by decide) (by omega)]
  exact le_roundUp _ (by decide)

theorem GpuRequest.alignedSize_lt : request.alignedSize < request.size.val + kGpuAlignment := by
  rw [GpuRequest.alignedSize, alignUp, if_neg (by decide), kGpuAlignment]
  omega

theorem GpuRequest.allocSize_le (request : GpuRequest deviceCount) :
    request.allocSize + kGpuAlignment ≤ 2 ^ 64 := by
  have haligned := alignUp_le request.size.val
  unfold GpuRequest.allocSize GpuRequest.alignedSize
  simp only [kGpuArenaSize, kGpuAlignment] at haligned ⊢
  omega

/-! The CUDA calls. -/

theorem DeviceMemory.cudaSetDevice_visible (memory : DeviceMemory deviceCount) (deviceId : Int) :
    ((memory.cudaSetDevice deviceId).threadDevice.val : Int) = deviceId ↔
      Visible deviceCount deviceId := by
  constructor
  · intro hdevice
    exact ⟨_, hdevice⟩
  · rintro ⟨device, rfl⟩
    rw [cudaSetDevice, dif_pos ⟨Int.natCast_nonneg _, device.isLt⟩]
    exact Int.toNat_of_nonneg (Int.natCast_nonneg _)

theorem DeviceMemory.cudaSetDevice_made (memory : DeviceMemory deviceCount)
    (deviceId : Int) : (memory.cudaSetDevice deviceId).made = memory.made := by
  unfold DeviceMemory.cudaSetDevice
  split <;> rfl

/-- The block is gone; the fields that describe it stay. -/
structure Released (arena left : S3Arena deviceCount) : Prop where
  null : left.gpuArena = none
  capacity : left.gpuArenaCapacity = arena.gpuArenaCapacity
  offset : left.gpuArenaOffset = arena.gpuArenaOffset
  device : left.currentDeviceId = arena.currentDeviceId
  made : left.memory.made = arena.memory.made

theorem S3Arena.release_released (arena : S3Arena deviceCount) (request : GpuRequest deviceCount) :
    Released arena (arena.release request) := by
  cases harena : arena.gpuArena with
  | none =>
    refine ⟨?_, ?_, ?_, ?_, ?_⟩ <;> simp only [S3Arena.release, harena]
    split <;> simp only [DeviceMemory.cudaSetDevice_made]
  | some block =>
    refine ⟨?_, ?_, ?_, ?_, ?_⟩ <;> simp only [S3Arena.release, harena, DeviceMemory.cudaFree]
    split <;> simp only [DeviceMemory.cudaSetDevice_made]

variable {arena : S3Arena deviceCount}

theorem S3Arena.reallocate_throws (hfails : request.mallocOk = false) :
    ∃ left, arena.reallocate request = (none, left) ∧ Released arena left := by
  have hreleased := arena.release_released request
  simp only [S3Arena.reallocate, DeviceMemory.cudaMalloc, hfails, Bool.false_eq_true, if_false]
  refine ⟨_, rfl, hreleased.null, hreleased.capacity, hreleased.offset, hreleased.device, ?_⟩
  rw [DeviceMemory.cudaSetDevice_made]
  exact hreleased.made

theorem S3Arena.reallocate_fresh (hok : request.mallocOk = true) :
    ∃ memory device, arena.reallocate request = (some ⟨some arena.memory.made, request.allocSize, 0,
            request.deviceId, memory⟩,
          ⟨some arena.memory.made, request.allocSize, 0, request.deviceId, memory⟩) ∧
      memory.made = arena.memory.made + 1 ∧
      memory.blocks arena.memory.made = some ⟨device, request.allocSize⟩ ∧
      ((device.val : Int) = request.deviceId ↔ Visible deviceCount request.deviceId) := by
  have hmade := (arena.release_released request).made
  simp only [S3Arena.reallocate, DeviceMemory.cudaMalloc, hok, if_true,
    DeviceMemory.cudaSetDevice_made, hmade]
  exact ⟨_, _, rfl, rfl, Function.update_self .., DeviceMemory.cudaSetDevice_visible ..⟩

/-! One call. -/

theorem S3Arena.place_offset_dvd (arena : S3Arena deviceCount) (alignedSize : Nat) :
    kGpuAlignment ∣ (arena.place alignedSize).2.offset := by
  unfold S3Arena.place
  dsimp only
  split
  · exact Nat.dvd_zero _
  · exact dvd_alignUp _

theorem S3Arena.place_offset_le {alignedSize : Nat} (hfits : alignedSize ≤ arena.gpuArenaCapacity)
    (hwraps : alignUp arena.gpuArenaOffset kGpuAlignment + alignedSize < 2 ^ 64) :
    (arena.place alignedSize).2.offset + alignedSize ≤ arena.gpuArenaCapacity := by
  simp only [S3Arena.place, Nat.mod_eq_of_lt hwraps]
  split <;> omega

variable {number : Nat}

theorem S3Arena.place_inside {block : DeviceBlock deviceCount} (hrounds : request.Rounds)
    (harena : arena.gpuArena = some number) (hblock : arena.memory.blocks number = some block)
    (hdevice : (block.device.val : Int) = request.deviceId)
    (hsize : block.size = arena.gpuArenaCapacity)
    (hfits : request.alignedSize ≤ arena.gpuArenaCapacity)
    (hwraps : alignUp arena.gpuArenaOffset kGpuAlignment + request.alignedSize < 2 ^ 64) :
    Inside (arena.place request.alignedSize).1.memory request
      (arena.place request.alignedSize).2 := by
  refine ⟨fun byte hbyte => ⟨number, block, harena, hblock, hdevice, ?_⟩, arena.place_offset_dvd _⟩
  have hend := S3Arena.place_offset_le hfits hwraps
  have hle := hrounds.size_le
  omega

theorem S3Arena.exists_block_of_inside (hpositive : request.size.val ≠ 0)
    (hinside : Inside (arena.place request.alignedSize).1.memory request
      (arena.place request.alignedSize).2) :
    ∃ number block, arena.gpuArena = some number ∧ arena.memory.blocks number = some block ∧
      (block.device.val : Int) = request.deviceId ∧
      (arena.place request.alignedSize).2.offset + request.size.val ≤ block.size := by
  obtain ⟨number, block, harena, hblock, hdevice, hlast⟩ :=
    hinside.bytes (request.size.val - 1) (by omega)
  exact ⟨number, block, harena, hblock, hdevice, by omega⟩

theorem rounds_of_le {capacity : Nat} (hcapacity : capacity + kGpuAlignment ≤ 2 ^ 64)
    (hsize : request.size.val ≤ capacity) : request.Rounds := by
  unfold GpuRequest.Rounds
  omega

theorem S3Arena.place_not_wraps (hcapacity : arena.gpuArenaCapacity + kGpuAlignment ≤ 2 ^ 64)
    (hinside : (arena.place request.alignedSize).2.offset +
      request.size.val ≤ arena.gpuArenaCapacity) :
    alignUp arena.gpuArenaOffset kGpuAlignment + request.alignedSize < 2 ^ 64 := by
  by_contra hwraps
  have hoffset := alignUp_le arena.gpuArenaOffset
  have hless := @GpuRequest.alignedSize_lt _ request
  -- the wrapped sum is smaller than the size, so the cursor is not reset
  have hplaced : (arena.place request.alignedSize).2.offset =
      alignUp arena.gpuArenaOffset kGpuAlignment := by
    apply if_neg
    omega
  rw [hplaced] at hinside
  unfold kGpuAlignment at *
  omega

/-- Where the arena's fields describe its block, only a wrap or a wrong device
puts an interval outside. -/
theorem S3Arena.place_inside_iff {block : DeviceBlock deviceCount}
    (hpositive : request.size.val ≠ 0) (hcapacity : arena.gpuArenaCapacity + kGpuAlignment ≤ 2 ^ 64)
    (harena : arena.gpuArena = some number) (hblock : arena.memory.blocks number = some block)
    (hsize : block.size = arena.gpuArenaCapacity)
    (hfits : request.alignedSize ≤ arena.gpuArenaCapacity) :
    Inside (arena.place request.alignedSize).1.memory request (arena.place request.alignedSize).2 ↔
      request.Rounds ∧ (block.device.val : Int) = request.deviceId ∧
        alignUp arena.gpuArenaOffset kGpuAlignment + request.alignedSize < 2 ^ 64 := by
  constructor
  · intro hinside
    obtain ⟨other, found, hother, hfound, hdevice, hend⟩ := exists_block_of_inside hpositive hinside
    obtain rfl : number = other := by simpa [harena] using hother
    obtain rfl : block = found := by simpa [hblock] using hfound
    rw [hsize] at hend
    exact ⟨rounds_of_le hcapacity (Nat.le_of_add_left_le hend), hdevice,
      place_not_wraps hcapacity hend⟩
  · rintro ⟨hrounds, hdevice, hwraps⟩
    exact place_inside hrounds harena hblock hdevice hsize hfits hwraps

theorem fresh_not_wraps (request : GpuRequest deviceCount) :
    alignUp 0 kGpuAlignment + request.alignedSize < 2 ^ 64 := by
  have hle := alignUp_le request.size.val
  have hstart : alignUp 0 kGpuAlignment = 0 := by decide
  rw [hstart]
  unfold GpuRequest.alignedSize kGpuAlignment at *
  omega

variable {memory : DeviceMemory deviceCount}

theorem fresh_inside_iff {device : Fin deviceCount} (hpositive : request.size.val ≠ 0)
    (hblock : memory.blocks number = some ⟨device, request.allocSize⟩) :
    let fresh : S3Arena deviceCount := ⟨some number, request.allocSize, 0, request.deviceId, memory⟩
    Inside (fresh.place request.alignedSize).1.memory request (fresh.place request.alignedSize).2 ↔
      request.Rounds ∧ (device.val : Int) = request.deviceId := by
  intro fresh
  have hfits : request.alignedSize ≤ fresh.gpuArenaCapacity := Nat.le_max_right _ _
  have hwraps : alignUp fresh.gpuArenaOffset kGpuAlignment +
      request.alignedSize < 2 ^ 64 := fresh_not_wraps request
  rw [S3Arena.place_inside_iff hpositive request.allocSize_le rfl hblock rfl hfits]
  simp only [hwraps, and_true]

/-! Calls by the way they go. -/

theorem S3Arena.allocate_throws (hpositive : request.size.val ≠ 0)
    (hreallocates : arena.Reallocates request) (hfails : request.mallocOk = false) :
    ∃ left, arena.allocateFromGpuArenaUnlocked request = (left, none) ∧ Released arena left := by
  obtain ⟨left, hleft, hreleased⟩ := @reallocate_throws _ request arena hfails
  refine ⟨left, ?_, hreleased⟩
  rw [allocateFromGpuArenaUnlocked, if_neg hpositive, if_pos hreallocates, hleft]

theorem S3Arena.allocate_fresh (hpositive : request.size.val ≠ 0)
    (hreallocates : arena.Reallocates request) (hok : request.mallocOk = true) :
    ∃ memory device,
      let fresh : S3Arena deviceCount :=
        ⟨some arena.memory.made, request.allocSize, 0, request.deviceId, memory⟩
      arena.allocateFromGpuArenaUnlocked request = ((fresh.place request.alignedSize).1,
            some (fresh.place request.alignedSize).2) ∧
        memory.made = arena.memory.made + 1 ∧
        memory.blocks arena.memory.made = some ⟨device, request.allocSize⟩ ∧
        ((device.val : Int) = request.deviceId ↔ Visible deviceCount request.deviceId) := by
  obtain ⟨memory, device, hfresh, hblock⟩ := @reallocate_fresh _ request arena hok
  refine ⟨memory, device, ?_, hblock⟩
  rw [allocateFromGpuArenaUnlocked, if_neg hpositive, if_pos hreallocates, hfresh]

theorem S3Arena.allocate_kept (hpositive : request.size.val ≠ 0)
    (hkeeps : ¬ arena.Reallocates request) :
    arena.allocateFromGpuArenaUnlocked request = ((arena.place request.alignedSize).1,
        some (arena.place request.alignedSize).2) := by
  rw [allocateFromGpuArenaUnlocked, if_neg hpositive, if_neg hkeeps]

theorem Tracked.place (hinv : Tracked arena) (alignedSize : Nat) :
    Tracked (arena.place alignedSize).1 :=
  ⟨hinv.capacity, hinv.block⟩

theorem tracked_fresh {device : Fin deviceCount}
    (hblock : memory.blocks number = some ⟨device, request.allocSize⟩)
    (hdevice : (device.val : Int) = request.deviceId) :
    Tracked (⟨some number, request.allocSize, 0, request.deviceId, memory⟩ :
      S3Arena deviceCount) := by
  refine ⟨request.allocSize_le, fun other hother => ?_⟩
  cases hother
  exact ⟨_, hblock, hdevice, rfl⟩

theorem Tracked.step {next : S3Arena deviceCount} (hinv : Tracked arena)
    (horderly : Orderly arena request) (hstep : arena.step request = some next) : Tracked next := by
  cases hstep
  by_cases hpositive : request.size.val = 0
  · rw [S3Arena.allocateFromGpuArenaUnlocked, if_pos hpositive]
    exact hinv
  · have horderly := horderly.resolve_left hpositive
    by_cases hreallocates : arena.Reallocates request
    · rw [if_pos hreallocates] at horderly
      cases hmalloc : request.mallocOk with
      | false =>
        obtain ⟨left, hleft, hreleased⟩ := S3Arena.allocate_throws hpositive hreallocates hmalloc
        rw [hleft]
        refine ⟨hreleased.capacity ▸ hinv.capacity, fun number hnumber => ?_⟩
        rw [hreleased.null] at hnumber
        cases hnumber
      | true =>
        obtain ⟨memory, device, hfresh, -, hblock, hdevice⟩ :=
          S3Arena.allocate_fresh hpositive hreallocates hmalloc
        rw [hfresh]
        exact (tracked_fresh hblock (hdevice.mpr (horderly hmalloc).2)).place _
    · rw [S3Arena.allocate_kept hpositive hreallocates]
      exact hinv.place _

theorem Tracked.sound_iff (hinv : Tracked arena) : Sound arena request ↔ Orderly arena request := by
  by_cases hpositive : request.size.val = 0
  · refine iff_of_true ?_ (.inl hpositive)
    intro pointer hpointer
    rw [S3Arena.allocateFromGpuArenaUnlocked, if_pos hpositive] at hpointer
    cases hpointer
    refine ⟨fun byte hbyte => ?_, Nat.dvd_zero _⟩
    rw [hpositive] at hbyte
    cases hbyte
  · rw [Orderly, or_iff_right hpositive]
    by_cases hreallocates : arena.Reallocates request
    · rw [if_pos hreallocates]
      cases hmalloc : request.mallocOk with
      | false =>
        refine iff_of_true ?_ (by simp)
        obtain ⟨left, hleft, -⟩ := S3Arena.allocate_throws hpositive hreallocates hmalloc
        intro pointer hpointer
        rw [hleft] at hpointer
        cases hpointer
      | true =>
        obtain ⟨memory, device, hfresh, -, hblock, hdevice⟩ :=
          S3Arena.allocate_fresh hpositive hreallocates hmalloc
        simp only [Sound, hfresh, Option.some.injEq, forall_eq',
          fresh_inside_iff hpositive hblock, hdevice, forall_const]
    · simp only [if_neg hreallocates, Sound, Option.some.injEq, forall_eq',
        S3Arena.allocate_kept hpositive hreallocates]
      rw [S3Arena.Reallocates, not_or, not_ne_iff, Nat.not_lt] at hreallocates
      obtain ⟨hcurrent, hfits⟩ := hreallocates
      cases harena : arena.gpuArena with
      | none =>
        refine iff_of_false (fun hinside => ?_) (by simp)
        obtain ⟨number, block, hnumber, -⟩ := S3Arena.exists_block_of_inside hpositive hinside
        rw [harena] at hnumber
        cases hnumber
      | some number =>
        obtain ⟨block, hblock, hdevice, hsize⟩ := hinv.block number harena
        rw [S3Arena.place_inside_iff hpositive hinv.capacity harena hblock hsize hfits]
        simp [hdevice, hcurrent]

/-! The arena that the safety of loads is proved about is this one without the
device memory. -/

/-- The fields agree; a negative device id is that of no arena. -/
structure Refines (arena : S3Arena deviceCount) (gpu : GpuArena) : Prop where
  block : gpu.arena = arena.gpuArena
  capacity : gpu.ring.capacity = arena.gpuArenaCapacity
  offset : gpu.ring.offset = arena.gpuArenaOffset
  device : ∀ deviceId : Nat, gpu.currentDeviceId = some deviceId ↔ arena.currentDeviceId = deviceId
  made : gpu.made = arena.memory.made

def pointerOf (placement : GpuPlacement) : GpuPointer := ⟨placement.arena, placement.base⟩

variable {gpu : GpuArena}

theorem Refines.place (hrefines : Refines arena gpu) {alignedSize : Nat}
    (hfits : alignedSize ≤ arena.gpuArenaCapacity) (hcapacity : arena.gpuArenaCapacity < 2 ^ 64)
    (hwraps : alignUp arena.gpuArenaOffset kGpuAlignment + alignedSize < 2 ^ 64) :
    Refines (arena.place alignedSize).1 (gpu.place alignedSize).1 ∧
      pointerOf (gpu.place alignedSize).2 = (arena.place alignedSize).2 := by
  have hstart : gpu.ring.start (alignUp gpu.ring.offset kGpuAlignment)
      alignedSize = (arena.place alignedSize).2.offset := by
    simp only [Ring.start, S3Arena.place, hrefines.capacity, hrefines.offset,
      Nat.mod_eq_of_lt hwraps]
  have hend := S3Arena.place_offset_le hfits hwraps
  refine ⟨⟨hrefines.block, hrefines.capacity, ?_, hrefines.device,
    hrefines.made⟩, GpuPointer.mk.injEq .. ▸ ⟨hrefines.block, hstart⟩⟩
  calc gpu.ring.start (alignUp gpu.ring.offset kGpuAlignment) alignedSize + alignedSize
      = (arena.place alignedSize).2.offset + alignedSize := by rw [hstart]
    _ = ((arena.place alignedSize).2.offset + alignedSize) % 2 ^ 64 :=
        (Nat.mod_eq_of_lt (by omega)).symm

theorem refines_fresh {deviceId : Nat} (hrefines : Refines arena gpu)
    (hdevice : request.deviceId = deviceId) (hmade : memory.made = arena.memory.made + 1) :
    Refines ⟨some arena.memory.made, request.allocSize, 0, request.deviceId, memory⟩
      ⟨some gpu.made, ⟨request.allocSize, 0, 0⟩, some deviceId, gpu.made + 1⟩ := by
  refine ⟨by rw [hrefines.made], rfl, rfl, fun other => ?_,
    by rw [hmade, hrefines.made]⟩
  simp only [Option.some.injEq, hdevice, Nat.cast_inj]

/-- On a device that exists an orderly call does what the arena of the loads
does. -/
theorem Refines.allocate (hrefines : Refines arena gpu) (hinv : Tracked arena) {deviceId : Nat}
    (hdevice : request.deviceId = deviceId) (horderly : Orderly arena request) :
    Refines (arena.allocateFromGpuArenaUnlocked request).1
        (allocateFromGpuArenaUnlocked gpu request.size.val deviceId request.mallocOk).1 ∧
      (allocateFromGpuArenaUnlocked gpu request.size.val deviceId
          request.mallocOk).2.map pointerOf =
        (arena.allocateFromGpuArenaUnlocked request).2 := by
  have hreallocates : gpu.reallocates request.size.val deviceId = true ↔
      arena.Reallocates request := by
    simp only [GpuArena.reallocates, Bool.or_eq_true, bne_iff_ne,
      decide_eq_true_eq, S3Arena.Reallocates, hrefines.capacity, hdevice,
      GpuRequest.alignedSize, ne_eq, hrefines.device]
  unfold CatKV.allocateFromGpuArenaUnlocked
  by_cases hpositive : request.size.val = 0
  · rw [if_pos hpositive, S3Arena.allocateFromGpuArenaUnlocked, if_pos hpositive]
    exact ⟨hrefines, rfl⟩
  · have horderly := horderly.resolve_left hpositive
    rw [if_neg hpositive]
    by_cases hgrows : arena.Reallocates request
    · simp only [if_pos (hreallocates.mpr hgrows)]
      cases hmalloc : request.mallocOk with
      | false =>
        obtain ⟨left, hleft, hreleased⟩ := S3Arena.allocate_throws hpositive hgrows hmalloc
        rw [hleft]
        refine ⟨⟨hreleased.null.symm, ?_, ?_, ?_, ?_⟩, rfl⟩
        · exact hrefines.capacity.trans hreleased.capacity.symm
        · exact hrefines.offset.trans hreleased.offset.symm
        · intro other
          rw [hreleased.device]
          exact hrefines.device other
        · exact hrefines.made.trans hreleased.made.symm
      | true =>
        obtain ⟨memory, device, hfresh, hmade, -⟩ := S3Arena.allocate_fresh hpositive hgrows hmalloc
        obtain ⟨hplaced, hpointer⟩ :=
          (refines_fresh hrefines hdevice hmade).place (Nat.le_max_right _ _)
            (Nat.lt_of_lt_of_le (Nat.lt_add_of_pos_right (by decide)) request.allocSize_le)
            (fresh_not_wraps request)
        rw [hfresh]
        exact ⟨hplaced, congrArg some hpointer⟩
    · simp only [if_neg (hreallocates.not.mpr hgrows)]
      rw [if_neg hgrows] at horderly
      have hfits := Nat.not_lt.mp (not_or.mp hgrows).2
      obtain ⟨hplaced, hpointer⟩ := hrefines.place hfits
        (Nat.lt_of_lt_of_le (Nat.lt_add_of_pos_right (by decide)) hinv.capacity) horderly.2.2
      rw [S3Arena.allocate_kept hpositive hgrows]
      exact ⟨hplaced, congrArg some hpointer⟩

theorem tracked_initial (threadDevice : Fin deviceCount) : Tracked (S3Arena.initial threadDevice) :=
  ⟨(by decide : 0 + kGpuAlignment ≤ 2 ^ 64), fun _ hnumber => by cases hnumber⟩

/-- In every sequence of calls, all calls that return keep their promise
exactly if all calls are orderly. -/
theorem regionsInside_iff (threadDevice : Fin deviceCount)
    (requests : List (GpuRequest deviceCount)) :
    Meets S3Arena.step Sound (S3Arena.initial threadDevice) requests ↔
      Meets S3Arena.step Orderly (S3Arena.initial threadDevice) requests := by
  constructor
  · apply Meets.of_invariant _ _ (tracked_initial threadDevice)
    · intro arena request next hinv hsound hstep
      exact hinv.step (hinv.sound_iff.mp hsound) hstep
    · intro arena request hinv hsound
      exact hinv.sound_iff.mp hsound
  · apply Meets.of_invariant _ _ (tracked_initial threadDevice)
    · intro arena request next hinv horderly hstep
      exact hinv.step horderly hstep
    · intro arena request hinv horderly
      exact hinv.sound_iff.mpr horderly

/-- What a sequence of calls returns. -/
def S3Arena.pointers (arena : S3Arena deviceCount) :
    List (GpuRequest deviceCount) → List (Option GpuPointer)
  | [] => []
  | request :: rest =>
    let called := arena.allocateFromGpuArenaUnlocked request
    called.2 :: called.1.pointers rest

/-- What the same calls return from the arena of the loads. -/
def abstractPointers (gpu : GpuArena) : List (GpuRequest deviceCount) → List (Option GpuPointer)
  | [] => []
  | request :: rest =>
    let called := allocateFromGpuArenaUnlocked gpu request.size.val request.deviceId.toNat
      request.mallocOk
    called.2.map pointerOf :: abstractPointers called.1 rest

theorem Refines.pointers_eq {requests : List (GpuRequest deviceCount)}
    (hrefines : Refines arena gpu) (hinv : Tracked arena)
    (hdevices : ∀ request ∈ requests, 0 ≤ request.deviceId)
    (hmeets : Meets S3Arena.step Orderly arena requests) :
    arena.pointers requests = abstractPointers gpu requests := by
  induction requests generalizing arena gpu with
  | nil => rfl
  | cons request rest ih =>
    obtain ⟨horderly, hrest⟩ := hmeets
    have hdevice : request.deviceId = request.deviceId.toNat :=
      (Int.toNat_of_nonneg (hdevices request List.mem_cons_self)).symm
    obtain ⟨hnext, hpointer⟩ := hrefines.allocate hinv hdevice horderly
    rw [S3Arena.pointers, abstractPointers, hpointer]
    exact congrArg (_ :: ·) (ih hnext (hinv.step horderly rfl)
      (fun other hother => hdevices other (List.mem_cons_of_mem _ hother)) (hrest _ rfl))

/-- In every sequence of orderly calls the arena in device memory, with its
`size_t` sums, returns the addresses that the arena of the loads returns. -/
theorem pointers_eq_abstractPointers (threadDevice : Fin deviceCount)
    {requests : List (GpuRequest deviceCount)}
    (hdevices : ∀ request ∈ requests, 0 ≤ request.deviceId)
    (hmeets : Meets S3Arena.step Orderly (S3Arena.initial threadDevice) requests) :
    (S3Arena.initial threadDevice).pointers requests =
      abstractPointers ⟨none, ⟨0, 0, 0⟩, none, 0⟩ requests := by
  refine Refines.pointers_eq ⟨rfl, rfl, rfl, fun deviceId => ?_, rfl⟩
    (tracked_initial threadDevice) hdevices hmeets
  exact iff_of_false (by simp) fun hdevice => absurd hdevice (by simp [S3Arena.initial])

end Allocate

instance orderlyDecidable {deviceCount : Nat} (arena : S3Arena deviceCount)
    (request : GpuRequest deviceCount) : Decidable (Orderly arena request) := by
  unfold Orderly GpuRequest.Rounds Visible
  infer_instance

/-- A first block, a call that keeps it, one that starts again at its front, a
call on the other device that gets no memory, and the same call with success. -/
def failsBetween : List (GpuRequest 2) :=
  [⟨100, 0, 0, true⟩, ⟨100, 0, 1, true⟩, ⟨536870912, 0, 0, true⟩, ⟨100, 1, 0, false⟩,
    ⟨100, 1, 0, true⟩]

theorem pointers_failsBetween : (S3Arena.initial 0).pointers failsBetween =
      abstractPointers ⟨none, ⟨0, 0, 0⟩, none, 0⟩ failsBetween ∧
    (S3Arena.initial 0).pointers failsBetween = [some ⟨some 0, 0⟩, some ⟨some 0, 256⟩,
      some ⟨some 0, 0⟩, none, some ⟨some 1, 0⟩] :=
  ⟨pointers_eq_abstractPointers 0 (by decide) (by decide +kernel), by decide +kernel⟩

/-- Two devices; the second call frees the arena of the first and gets no
memory. -/
def afterFailedMalloc : List (GpuRequest 2) :=
  [⟨100, 0, 0, true⟩, ⟨100, 1, 0, false⟩, ⟨100, 0, 0, true⟩]

/-- The third call returns the address 256 of no block.  A device that does not
exist gives a block on another one, and a size that wraps a block that is too
small. -/
theorem not_regionsInside_afterFailedMalloc : (∃ arena, runFrom S3Arena.step (S3Arena.initial 0)
      (afterFailedMalloc.take 2) = some arena ∧
    arena.gpuArena = none ∧
    (arena.allocateFromGpuArenaUnlocked ⟨100, 0, 0, true⟩).2 = some ⟨none, 256⟩) ∧
    ¬ Meets S3Arena.step Sound (S3Arena.initial 0) afterFailedMalloc ∧
    ¬ Sound (S3Arena.initial (0 : Fin 2)) ⟨100, 7, 0, true⟩ ∧
    ¬ Sound (S3Arena.initial (0 : Fin 2)) ⟨18446744073709551615, 0, 0, true⟩ := by
  refine ⟨⟨_, rfl, rfl, by decide +kernel⟩, ?_, ?_, ?_⟩
  · rintro ⟨-, hsecond⟩
    obtain ⟨-, hthird⟩ := hsecond _ rfl
    obtain ⟨hsound, -⟩ := hthird _ rfl
    obtain ⟨number, block, hnumber, -⟩ := (hsound _ rfl).bytes 0 (by decide)
    cases hnumber
  · rw [(tracked_initial 0).sound_iff]
    rintro (hzero | horderly)
    · exact absurd hzero (by decide)
    · rw [if_pos (by decide)] at horderly
      obtain ⟨-, device, hdevice⟩ := horderly rfl
      revert device
      decide
  · rw [(tracked_initial 0).sound_iff]
    rintro (hzero | horderly)
    · exact absurd hzero (by decide)
    · rw [if_pos (by decide)] at horderly
      exact absurd (horderly rfl).1 (by unfold GpuRequest.Rounds; decide)

end CatKV.GpuCalls
