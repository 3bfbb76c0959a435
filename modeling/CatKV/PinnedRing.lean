/-
The pinned ring of catkv-transformers and the views of it in the CPU pool.
`offload_compress_data` copies key and value rows into the next rows of the
ring and puts the two views into the pool.  The ring starts again at row 0 when
a request does not fit in what is left, whatever the pool still holds.

A row is known by the tensor it comes from.
-/
import CatKV.ByteString
import CatKV.CpuBufferPool
import CatKV.RingAllocator
import CatKV.Transition
import Mathlib.Logic.Function.Basic

namespace CatKV

namespace Pinned

inductive OffloadMode where
  | cpu
  | disk
deriving Repr, DecidableEq

inductive Part where
  | key
  | value
deriving Repr, DecidableEq

structure Row where
  part : Part
  data : Nat
  index : Nat
deriving Repr, DecidableEq

/-- The rows of a key and a value tensor; a row of the ring that was never
written is unknown. -/
structure KvData where
  key : List (Option Row)
  value : List (Option Row)
deriving Repr, DecidableEq

/-- The tensors that a call offloads. -/
structure Tensors where
  data : Nat
  sequenceLen : Nat
deriving Repr, DecidableEq

def Tensors.rows (tensors : Tensors) (part : Part) : List (Option Row) :=
  (List.range tensors.sequenceLen).map fun index =>
    some ⟨part, tensors.data, index⟩

def Tensors.kvData (tensors : Tensors) : KvData := ⟨tensors.rows .key, tensors.rows .value⟩

/-! `MemoryPinnedBuffer`. -/

structure MemoryPinnedBuffer where
  maxLen : Nat
  offset : Nat
deriving Repr, DecidableEq

namespace MemoryPinnedBuffer

variable (ring : MemoryPinnedBuffer)

/-- Where a request begins, after a reset if it does not fit. -/
def nextStart (size : Nat) : Nat :=
  if ring.offset + size > ring.maxLen then 0 else ring.offset

def advance (size : Nat) : MemoryPinnedBuffer := { ring with offset := ring.nextStart size + size }

/-- `buffer[:, start:offset]`: a slice ends with the buffer. -/
def slice (size : Nat) : Interval :=
  ⟨min (ring.nextStart size) ring.maxLen, min (ring.nextStart size + size) ring.maxLen -
      min (ring.nextStart size) ring.maxLen⟩

def allocate (size : Nat) : Interval × MemoryPinnedBuffer := (ring.slice size, ring.advance size)

end MemoryPinnedBuffer

/-! The pool of views. -/

/-- The rows of the ring. -/
abbrev RingRows := Nat → Option Row

def readRows (rows : RingRows) (region : Interval) : List (Option Row) :=
  (List.range region.size).map fun index => rows (region.start + index)

/-- `copy_` into a slice. -/
def copyRows (part : Part) (data : Nat) (region : Interval) (rows : RingRows) :
    RingRows := fun position =>
  if region.start ≤ position ∧ position < region.stop then
    some ⟨part, data, position - region.start⟩
  else rows position

/-- An entry is a pair of views of the ring, or was loaded from the disk. -/
inductive PoolEntry where
  | views (key value : Interval)
  | loaded (data : KvData)
deriving Repr, DecidableEq

def PoolEntry.read (rows : RingRows) : PoolEntry → KvData
  | .views key value => ⟨readRows rows key, readRows rows value⟩
  | .loaded data => data

def PoolEntry.regions : PoolEntry → List Interval
  | .views key value => [key, value]
  | .loaded _ => []

def PoolEntry.computeSize (rowBytes : Nat) : PoolEntry → Nat
  | .views key value => rowBytes * (key.size + value.size)
  | .loaded data => rowBytes * (data.key.length + data.value.length)

/-- `offloaded` notes what was last offloaded under a key, `allocated` what
`allocate` was asked for and gave, `travelled` how many rows the ring has gone
through, abandoned ones included, and `begun` how many it had when the slices of
a pooled entry were taken. -/
structure PinnedState (rowBytes : Nat) where
  ring : MemoryPinnedBuffer
  rows : RingRows
  pool : CPUBufferPool Bytes PoolEntry (PoolEntry.computeSize rowBytes)
  disk : Bytes → Option KvData
  offloaded : Bytes → Option Tensors
  allocated : List (Nat × Interval)
  travelled : Nat
  begun : Bytes → Nat

inductive PinnedAction where
  | offload (key : Bytes) (tensors : Tensors)
  | retrieveKeys (keys : List Bytes)
  | retrieveData (key : Bytes)
deriving Repr, DecidableEq

namespace PinnedState

variable {rowBytes : Nat}

def start (maxLen maxSize : Nat) : PinnedState rowBytes where
  ring := ⟨maxLen, 0⟩
  rows := fun _ => none
  pool := .start maxSize
  disk := fun _ => none
  offloaded := fun _ => none
  allocated := []
  travelled := 0
  begun := fun _ => 0

variable (offloadMode : OffloadMode) (state : PinnedState rowBytes)

def withPool (pool : CPUBufferPool Bytes PoolEntry (PoolEntry.computeSize rowBytes)) :
    PinnedState rowBytes :=
  { state with pool := pool }

/-- The slices for key and value. -/
def keyPinned (size : Nat) : Interval := state.ring.slice size

def valuePinned (size : Nat) : Interval := (state.ring.advance size).slice size

/-- The cursor before a call, after its first slice and after its second. -/
def cursor : Ring := ⟨state.ring.maxLen, state.ring.offset, state.travelled⟩

def afterKey (size : Nat) : Ring := state.cursor.advance state.cursor.offset size

def afterValue (size : Nat) : Ring := (state.afterKey size).advance (state.afterKey size).offset size

/-- Both slices are taken before anything is copied. -/
def withSlices (size : Nat) : PinnedState rowBytes :=
  { state with
    ring := (state.ring.advance size).advance size
    allocated := state.allocated ++ [(size, state.keyPinned size), (size, state.valuePinned size)]
    travelled := (state.afterValue size).travelled }

/-- The rows after both copies; the value is copied last. -/
def rowsAfter (tensors : Tensors) : RingRows :=
  copyRows .value tensors.data (state.valuePinned tensors.sequenceLen)
    (copyRows .key tensors.data (state.keyPinned tensors.sequenceLen) state.rows)

def entryFor (tensors : Tensors) : PoolEntry :=
  .views (state.keyPinned tensors.sequenceLen) (state.valuePinned tensors.sequenceLen)

/-- All that a call changes apart from the pool. -/
def copied (key : Bytes) (tensors : Tensors) : PinnedState rowBytes :=
  { state.withSlices tensors.sequenceLen with
    rows := state.rowsAfter tensors
    disk := if offloadMode = .disk then Function.update state.disk key
        (some ((state.entryFor tensors).read (state.rowsAfter tensors)))
      else state.disk
    offloaded := Function.update state.offloaded key (some tensors)
    begun := if (state.pool.lookup key).isSome then state.begun else Function.update state.begun key
      (state.cursor.stamp state.cursor.offset tensors.sequenceLen) }

/-- `offload_compress_data` without an offload manager; `copy_` raises if a
slice is too short. -/
def offload (key : Bytes) (tensors : Tensors) : PinnedState rowBytes :=
  let size := tensors.sequenceLen
  if (state.keyPinned size).size = size ∧ (state.valuePinned size).size = size then
    (state.copied offloadMode key tensors).withPool
      (state.pool.addData key (state.entryFor tensors))
  else state.withSlices size

def retrieveKeys (keys : List Bytes) : PinnedState rowBytes :=
  state.withPool (state.pool.getDatas keys).2

def retrieveData (key : Bytes) : PinnedState rowBytes :=
  match state.pool.lookup key, state.disk key with
  | none, some data =>
    state.withPool ((state.pool.touch key).addData key (.loaded data))
  | _, _ => state.withPool (state.pool.touch key)

def step : PinnedAction → Option (PinnedState rowBytes)
  | .offload key tensors => some (state.offload offloadMode key tensors)
  | .retrieveKeys keys => some (state.retrieveKeys keys)
  | .retrieveData key => some (state.retrieveData key)

/-! What is asked of every state. -/

/-- What a reader of the pool obtains. -/
def obtained (key : Bytes) : Option KvData :=
  (state.pool.lookup key).map fun entry => entry.read state.rows

structure Intact : Prop where
  exact : ∀ given ∈ state.allocated, given.2.size = given.1 ∧ given.2.stop ≤ state.ring.maxLen
  contents : ∀ key data, state.obtained key = some data →
    (state.offloaded key).map Tensors.kvData = some data
  apart : ∀ key other entry entry', state.pool.lookup key = some entry →
    state.pool.lookup other = some entry' → key ≠ other →
    ∀ region ∈ entry.regions, ∀ region' ∈ entry'.regions, region.Separate region'
  own : ∀ key entry, state.pool.lookup key = some entry → entry.regions.Pairwise Interval.Separate

/-- The request is not longer than the ring; from the first row of the slices of
any entry in the pool, and from the key's, the ring comes at most once round to
the end of the value's; and a key that is in the pool is offloaded with the same
tensors again. -/
@[mk_iff]
structure OffloadOrderly (key : Bytes) (tensors : Tensors) : Prop where
  fits : tensors.sequenceLen ≤ state.ring.maxLen
  twice : (state.afterKey tensors.sequenceLen).Room (state.afterKey tensors.sequenceLen).offset
    tensors.sequenceLen (state.cursor.stamp state.cursor.offset tensors.sequenceLen)
  unused : ∀ pooled ∈ state.pool.pool.entries, pooled.2.regions ≠ [] →
    (state.afterKey tensors.sequenceLen).Room (state.afterKey tensors.sequenceLen).offset
      tensors.sequenceLen (state.begun pooled.1)
  same : key ∈ state.pool.pool.keys → state.offloaded key = some tensors

instance (key : Bytes) (tensors : Tensors) : Decidable (state.OffloadOrderly key tensors) :=
  decidable_of_iff _ (offloadOrderly_iff state key tensors).symm

def Orderly : PinnedAction → Prop
  | .offload key tensors => state.OffloadOrderly key tensors
  | _ => True

instance : (action : PinnedAction) → Decidable (state.Orderly action)
  | .offload key tensors =>
    inferInstanceAs (Decidable (state.OffloadOrderly key tensors))
  | .retrieveKeys _ | .retrieveData _ => inferInstanceAs (Decidable True)

end PinnedState

/-! Copies. -/

theorem readRows_copyRows_self (part : Part) (data : Nat) (region : Interval)
    (rows : RingRows) : readRows (copyRows part data region rows) region =
      (List.range region.size).map fun index => some ⟨part, data, index⟩ := by
  apply List.map_congr_left
  intro index hindex
  rw [List.mem_range] at hindex
  unfold copyRows Interval.stop
  rw [if_pos (by omega), Nat.add_sub_cancel_left]

theorem readRows_copyRows_of_separate {part : Part} {data : Nat} {region other : Interval}
    {rows : RingRows} (hseparate : other.Separate region) :
    readRows (copyRows part data region rows) other = readRows rows other := by
  apply List.map_congr_left
  intro index hindex
  rw [List.mem_range] at hindex
  apply if_neg
  unfold Interval.Separate Interval.stop at hseparate
  unfold Interval.stop
  omega

theorem read_copyRows_of_separate {part : Part} {data : Nat} {region : Interval} {rows : RingRows}
    {entry : PoolEntry} (hseparate : ∀ other ∈ entry.regions, other.Separate region) :
    entry.read (copyRows part data region rows) = entry.read rows := by
  cases entry with
  | loaded data => rfl
  | views key value =>
    simp only [PoolEntry.regions, List.forall_mem_cons] at hseparate
    rw [PoolEntry.read, PoolEntry.read, readRows_copyRows_of_separate hseparate.1,
      readRows_copyRows_of_separate hseparate.2.1]

theorem MemoryPinnedBuffer.slice_of_le {ring : MemoryPinnedBuffer} {size : Nat}
    (hfits : size ≤ ring.maxLen) : (ring.slice size).size = size ∧
      (ring.slice size).stop ≤ ring.maxLen := by
  unfold slice Interval.stop nextStart
  split
  · simp only
    omega
  · simp only
    omega

namespace PinnedState

variable {rowBytes : Nat} {state : PinnedState rowBytes} {key : Bytes}
  {tensors : Tensors} {offloadMode : OffloadMode}

/-! The slices of a call against the cursor. -/

theorem slice_eq {ring : MemoryPinnedBuffer} {size : Nat} (travelled : Nat)
    (hfits : size ≤ ring.maxLen) :
    ring.slice size = ⟨Ring.start ⟨ring.maxLen, ring.offset, travelled⟩ ring.offset size, size⟩ := by
  have hstop : Ring.start ⟨ring.maxLen, ring.offset, travelled⟩ ring.offset size + size ≤
    ring.maxLen := Ring.start_stop_le ring.offset hfits
  have hstart : ring.nextStart size =
    Ring.start ⟨ring.maxLen, ring.offset, travelled⟩ ring.offset size := rfl
  unfold MemoryPinnedBuffer.slice
  rw [hstart, Nat.min_eq_left (by omega), Nat.min_eq_left hstop, Nat.add_sub_cancel_left]

/-- The slices of a call are apart from each other and from every entry of the
pool. -/
structure SlicesFree (state : PinnedState rowBytes) (tensors : Tensors) : Prop where
  fits : tensors.sequenceLen ≤ state.ring.maxLen
  twice : (state.keyPinned tensors.sequenceLen).Separate (state.valuePinned tensors.sequenceLen)
  unused : ∀ key entry, state.pool.lookup key = some entry → ∀ region ∈ entry.regions,
    region.Separate (state.keyPinned tensors.sequenceLen) ∧
      region.Separate (state.valuePinned tensors.sequenceLen)

/-- The cursor has made whole laps, and the regions of the pool were handed out
no earlier than noted. -/
structure CursorInv (state : PinnedState rowBytes) : Prop where
  valid : state.cursor.Valid
  placed : ∀ key entry, state.pool.lookup key = some entry → ∀ region ∈ entry.regions,
    ∃ stamp, state.begun key ≤ stamp ∧ state.cursor.Placed region stamp

section Slices

variable (hinv : state.CursorInv) (horderly : state.OffloadOrderly key tensors)

include hinv horderly

theorem CursorInv.afterKey : (state.afterKey tensors.sequenceLen).Valid :=
  hinv.valid.advance (Nat.le_refl _) horderly.fits

theorem CursorInv.placed_slices :
    (state.afterValue tensors.sequenceLen).Placed (state.keyPinned tensors.sequenceLen)
      (state.cursor.stamp state.cursor.offset tensors.sequenceLen) ∧
    (state.afterValue tensors.sequenceLen).Placed (state.valuePinned tensors.sequenceLen)
      ((state.afterKey tensors.sequenceLen).stamp
        (state.afterKey tensors.sequenceLen).offset tensors.sequenceLen) := by
  have hsecond : tensors.sequenceLen ≤ (state.afterKey tensors.sequenceLen).capacity :=
    horderly.fits
  have hkey : state.keyPinned tensors.sequenceLen = _ := slice_eq state.travelled horderly.fits
  have hvalue : state.valuePinned tensors.sequenceLen = _ :=
    slice_eq (state.afterKey tensors.sequenceLen).travelled horderly.fits
  rw [hkey, hvalue]
  exact ⟨(hinv.valid.placed_advance (Nat.le_refl _) horderly.fits).advance,
    (hinv.afterKey horderly).placed_advance (Nat.le_refl _) hsecond⟩

theorem CursorInv.slicesFree : state.SlicesFree tensors := by
  have hsecond : tensors.sequenceLen ≤ (state.afterKey tensors.sequenceLen).capacity :=
    horderly.fits
  have hkey : state.keyPinned tensors.sequenceLen = _ := slice_eq state.travelled horderly.fits
  have hvalue : state.valuePinned tensors.sequenceLen = _ :=
    slice_eq (state.afterKey tensors.sequenceLen).travelled horderly.fits
  refine ⟨horderly.fits, ?_, ?_⟩
  · rw [hvalue]
    refine ((hinv.afterKey horderly).separate (Nat.le_refl _) hsecond ?_ horderly.twice).symm
    rw [hkey]
    exact hinv.valid.placed_advance (Nat.le_refl _) horderly.fits
  · intro other entry hentry region hregion
    obtain ⟨stamp, hbegun, hplaced⟩ := hinv.placed other entry hentry region hregion
    have hroom := (horderly.unused _ (OrderedDict.get?_eq_some_iff.mp hentry)
      (List.ne_nil_of_mem hregion)).of_le hbegun
    rw [hkey, hvalue]
    exact ⟨(hinv.valid.separate (Nat.le_refl _) horderly.fits hplaced hroom.of_advance).symm,
      ((hinv.afterKey horderly).separate (Nat.le_refl _) hsecond hplaced.advance hroom).symm⟩

theorem CursorInv.offload (offloadMode : OffloadMode) :
    CursorInv ((state.copied offloadMode key tensors).withPool
      (state.pool.addData key (state.entryFor tensors))) := by
  have hsecond : tensors.sequenceLen ≤ (state.afterKey tensors.sequenceLen).capacity :=
    horderly.fits
  obtain ⟨hkey, hvalue⟩ := hinv.placed_slices horderly
  refine ⟨(hinv.afterKey horderly).advance (Nat.le_refl _) hsecond, ?_⟩
  intro other entry hentry region hregion
  rcases CPUBufferPool.lookup_addData hentry with hold | ⟨rfl, hnone, rfl⟩
  · obtain ⟨stamp, hbegun, hplaced⟩ := hinv.placed other entry hold region hregion
    refine ⟨stamp, ?_, hplaced.advance.advance⟩
    simp only [withPool, copied]
    split
    · exact hbegun
    · next hmiss =>
      rwa [Function.update_of_ne]
      rintro rfl
      exact hmiss (by rw [hold]; rfl)
  · simp only [withPool, copied, hnone, Option.isSome_none, Bool.false_eq_true, if_false,
      Function.update_self]
    simp only [entryFor, PoolEntry.regions, List.mem_cons, List.not_mem_nil, or_false] at hregion
    rcases hregion with rfl | rfl
    · exact ⟨_, Nat.le_refl _, hkey⟩
    · exact ⟨_, Ring.stamp_le_stamp_advance .., hvalue⟩

end Slices

theorem exact_withSlices (hfits : tensors.sequenceLen ≤ state.ring.maxLen)
    (hexact : ∀ given ∈ state.allocated, given.2.size = given.1 ∧
      given.2.stop ≤ state.ring.maxLen) :
    ∀ given ∈ (state.withSlices tensors.sequenceLen).allocated,
      given.2.size = given.1 ∧ given.2.stop ≤ state.ring.maxLen := by
  have hsecond : tensors.sequenceLen ≤ (state.ring.advance tensors.sequenceLen).maxLen := hfits
  simp only [withSlices, List.forall_mem_append, List.forall_mem_cons]
  exact ⟨hexact, MemoryPinnedBuffer.slice_of_le hfits,
    MemoryPinnedBuffer.slice_of_le hsecond, List.forall_mem_nil _⟩

theorem read_entryFor (hfree : state.SlicesFree tensors) :
    (state.entryFor tensors).read (state.rowsAfter tensors) = tensors.kvData := by
  have hsecond : tensors.sequenceLen ≤
      (state.ring.advance tensors.sequenceLen).maxLen := hfree.fits
  have hkey : (state.keyPinned tensors.sequenceLen).size = tensors.sequenceLen :=
    (MemoryPinnedBuffer.slice_of_le hfree.fits).1
  have hvalue : (state.valuePinned tensors.sequenceLen).size =
      tensors.sequenceLen := (MemoryPinnedBuffer.slice_of_le hsecond).1
  rw [entryFor, PoolEntry.read, rowsAfter, readRows_copyRows_of_separate hfree.twice,
    readRows_copyRows_self, readRows_copyRows_self, hkey, hvalue]
  rfl

theorem read_rowsAfter (hfree : state.SlicesFree tensors) {other : Bytes}
    {entry : PoolEntry} (hentry : state.pool.lookup other = some entry) :
    entry.read (state.rowsAfter tensors) = entry.read state.rows := by
  have hunused := hfree.unused other entry hentry
  rw [rowsAfter, read_copyRows_of_separate fun region hregion =>
    (hunused region hregion).2, read_copyRows_of_separate
      fun region hregion => (hunused region hregion).1]

theorem obtained_eq {other : Bytes} {entry : PoolEntry}
    (hentry : state.pool.lookup other = some entry) :
    state.obtained other = some (entry.read state.rows) := by
  rw [obtained, hentry, Option.map_some]

theorem offloaded_copied (other : Bytes) : (state.copied offloadMode key tensors).offloaded other =
    if other = key then some tensors else state.offloaded other :=
  Function.update_apply ..

theorem Intact.copied (hintact : state.Intact) (hfree : state.SlicesFree tensors)
    (hsame : key ∈ state.pool.pool.keys → state.offloaded key = some tensors) :
    (state.copied offloadMode key tensors).Intact := by
  refine ⟨exact_withSlices hfree.fits hintact.exact, ?_, hintact.apart, hintact.own⟩
  intro other data hobtained
  obtain ⟨entry, hentry, rfl⟩ := Option.map_eq_some_iff.mp hobtained
  have hread : entry.read (state.rowsAfter tensors) = entry.read state.rows :=
    read_rowsAfter hfree hentry
  have hpooled : (other, entry) ∈ state.pool.pool.entries := OrderedDict.get?_eq_some_iff.mp hentry
  have hbefore := hintact.contents other _ (obtained_eq hentry)
  have hafter : (state.copied offloadMode key tensors).offloaded other = state.offloaded other := by
    rw [offloaded_copied]
    split
    · next hother =>
      subst hother
      exact (hsame (List.mem_map.mpr ⟨_, hpooled, rfl⟩)).symm
    · rfl
  rw [hafter, hbefore]
  exact congrArg some hread.symm

theorem Intact.withPool (hintact : state.Intact)
    {pool : CPUBufferPool Bytes PoolEntry (PoolEntry.computeSize rowBytes)}
    (hsub : ∀ other entry, pool.lookup other = some entry →
      state.pool.lookup other = some entry) : (state.withPool pool).Intact := by
  refine ⟨hintact.exact, ?_, ?_, ?_⟩
  · intro other data hobtained
    obtain ⟨entry, hentry, rfl⟩ := Option.map_eq_some_iff.mp hobtained
    exact hintact.contents other _ (obtained_eq (hsub other entry hentry))
  · intro other other' entry entry' hentry hentry'
    exact hintact.apart other other' entry entry' (hsub _ _ hentry) (hsub _ _ hentry')
  · intro other entry hentry
    exact hintact.own other entry (hsub other entry hentry)

theorem Intact.addData (hintact : state.Intact) {entry : PoolEntry}
    (hread : (state.offloaded key).map Tensors.kvData = some (entry.read state.rows))
    (hapart : ∀ other entry', state.pool.lookup other = some entry' →
      ∀ region ∈ entry'.regions, ∀ region' ∈ entry.regions,
        region.Separate region') (hown : entry.regions.Pairwise Interval.Separate) :
    (state.withPool (state.pool.addData key entry)).Intact := by
  refine ⟨hintact.exact, ?_, ?_, ?_⟩
  · intro other data hobtained
    obtain ⟨found, hfound, rfl⟩ := Option.map_eq_some_iff.mp hobtained
    rcases CPUBufferPool.lookup_addData hfound with hold | ⟨rfl, -, rfl⟩
    · exact hintact.contents other _ (obtained_eq hold)
    · exact hread
  · intro other other' found found' hfound hfound' hne
    rcases CPUBufferPool.lookup_addData hfound with hold | ⟨rfl, -, rfl⟩
    · rcases CPUBufferPool.lookup_addData hfound' with hold' | ⟨rfl, -, rfl⟩
      · exact hintact.apart other other' found found' hold hold' hne
      · exact hapart other found hold
    · rcases CPUBufferPool.lookup_addData hfound' with hold' | ⟨rfl, -, -⟩
      · intro region hregion region' hregion'
        exact (hapart other' found' hold' region' hregion' region hregion).symm
      · exact absurd rfl hne
  · intro other found hfound
    rcases CPUBufferPool.lookup_addData hfound with hold | ⟨-, -, rfl⟩
    · exact hintact.own other found hold
    · exact hown

/-- The pool is intact, the disk has what was last offloaded, and the cursor is
where it was noted. -/
structure Inv (offloadMode : OffloadMode) (state : PinnedState rowBytes) : Prop where
  intact : state.Intact
  disk : ∀ key data, state.disk key = some data →
    (state.offloaded key).map Tensors.kvData = some data
  unsaved : offloadMode ≠ .disk → ∀ key, state.disk key = none
  cursor : state.CursorInv

theorem Inv.offload (hinv : Inv offloadMode state) (horderly : state.OffloadOrderly key tensors) :
    Inv offloadMode (state.offload offloadMode key tensors) := by
  have hsecond : tensors.sequenceLen ≤
      (state.ring.advance tensors.sequenceLen).maxLen := horderly.fits
  have hsizes : (state.keyPinned tensors.sequenceLen).size =
      tensors.sequenceLen ∧ (state.valuePinned tensors.sequenceLen).size = tensors.sequenceLen :=
    ⟨(MemoryPinnedBuffer.slice_of_le horderly.fits).1, (MemoryPinnedBuffer.slice_of_le hsecond).1⟩
  rw [PinnedState.offload, if_pos hsizes]
  have hfree := hinv.cursor.slicesFree horderly
  have hread := read_entryFor hfree
  refine ⟨?_, ?_, ?_, hinv.cursor.offload horderly offloadMode⟩
  · apply (hinv.intact.copied hfree horderly.same).addData
    · rw [offloaded_copied, if_pos rfl]
      exact congrArg some hread.symm
    · intro other entry hentry region hregion region' hregion'
      have hunused := hfree.unused other entry hentry region hregion
      simp only [entryFor, PoolEntry.regions, List.mem_cons, List.not_mem_nil, or_false] at hregion'
      rcases hregion' with rfl | rfl
      · exact hunused.1
      · exact hunused.2
    · simpa [entryFor, PoolEntry.regions] using hfree.twice
  · intro other data hdata
    have hoffloaded : ((state.copied offloadMode key tensors).withPool
        (state.pool.addData key (state.entryFor tensors))).offloaded other =
          if other = key then some tensors else state.offloaded other :=
      @offloaded_copied _ state key tensors offloadMode other
    rw [hoffloaded]
    simp only [withPool, copied] at hdata
    by_cases hsaves : offloadMode = .disk
    · rw [if_pos hsaves, hread, Function.update_apply] at hdata
      split at hdata
      · next hother =>
        rw [if_pos hother]
        exact hdata
      · next hother =>
        rw [if_neg hother]
        exact hinv.disk other data hdata
    · rw [if_neg hsaves, hinv.unsaved hsaves] at hdata
      cases hdata
  · intro hcpu other
    simp only [withPool, copied]
    rw [if_neg hcpu]
    exact hinv.unsaved hcpu other

theorem Inv.retrieveData (hinv : Inv offloadMode state) (key : Bytes) :
    Inv offloadMode (state.retrieveData key) := by
  have htouch : Intact (state.withPool (state.pool.touch key)) := by
    apply hinv.intact.withPool
    intro other entry hentry
    rw [← CPUBufferPool.lookup_touch key]
    exact hentry
  unfold PinnedState.retrieveData
  split
  · next data hmiss hdata =>
    refine ⟨?_, hinv.disk, hinv.unsaved, hinv.cursor.valid, fun other entry hentry => ?_⟩
    · have hadded := @Intact.addData _ _ key htouch (.loaded data)
        (hinv.disk key data hdata) (fun _ _ _ _ _ _ hnone => by cases hnone)
        List.Pairwise.nil
      exact ⟨hadded.exact, hadded.contents, hadded.apart, hadded.own⟩
    · rcases CPUBufferPool.lookup_addData hentry with hold | ⟨-, -, rfl⟩
      · rw [CPUBufferPool.lookup_touch] at hold
        exact hinv.cursor.placed other entry hold
      · exact List.forall_mem_nil _
  · refine ⟨htouch, hinv.disk, hinv.unsaved, hinv.cursor.valid, fun other entry hentry => ?_⟩
    exact hinv.cursor.placed other entry ((CPUBufferPool.lookup_touch key other).symm.trans hentry)

theorem inv_start (maxLen maxSize : Nat) :
    Inv offloadMode (start maxLen maxSize : PinnedState rowBytes) := by
  have hempty : ∀ other entry, (start maxLen maxSize :
      PinnedState rowBytes).pool.lookup other ≠ some entry := by
    intro other entry hentry
    cases hentry
  refine ⟨⟨List.forall_mem_nil _, ?_, ?_, ?_⟩, ?_, fun _ _ => rfl,
    ⟨Nat.zero_le _, 0, (Nat.zero_mul _).symm⟩, fun other entry hentry =>
      absurd hentry (hempty other entry)⟩
  · intro other data hobtained
    cases hobtained
  · intro other other' entry entry' hentry
    exact absurd hentry (hempty other entry)
  · intro other entry hentry
    exact absurd hentry (hempty other entry)
  · intro other data hdata
    cases hdata

theorem inv_step {action : PinnedAction} {next : PinnedState rowBytes}
    (hinv : Inv offloadMode state) (horderly : state.Orderly action)
    (hstep : state.step offloadMode action = some next) : Inv offloadMode next := by
  cases action with
  | offload key tensors =>
    cases hstep
    exact hinv.offload horderly
  | retrieveKeys keys =>
    cases hstep
    have hsub : ∀ other entry, (state.pool.getDatas keys).2.lookup other = some entry →
        state.pool.lookup other = some entry := by
      intro other entry hentry
      rwa [(CPUBufferPool.getDatas_eq keys).2 other] at hentry
    exact ⟨hinv.intact.withPool hsub, hinv.disk, hinv.unsaved, hinv.cursor.valid,
      fun other entry hentry => hinv.cursor.placed other entry (hsub other entry hentry)⟩
  | retrieveData key =>
    cases hstep
    exact hinv.retrieveData key

end PinnedState

/-- In a run in which no request is longer than the ring, the ring does not come
round to an entry that is in the pool or from the value to the key, and a pooled
key is only offloaded again with the same tensors, every slice is exact, the pool gives what was offloaded, and its entries share no rows. -/
theorem intact_of_orderly (rowBytes maxLen maxSize : Nat) (offloadMode : OffloadMode)
    (actions : List PinnedAction) (final : PinnedState rowBytes)
    (hmeets : Meets (PinnedState.step offloadMode) PinnedState.Orderly
      (PinnedState.start maxLen maxSize : PinnedState rowBytes) actions)
    (hrun : runFrom (PinnedState.step offloadMode)
      (PinnedState.start maxLen maxSize : PinnedState rowBytes) actions =
        some final) : final.Intact :=
  (run_invariant (fun _ _ _ hinv horderly hstep =>
    PinnedState.inv_step hinv horderly hstep)
    (PinnedState.inv_start maxLen maxSize) hmeets hrun).intact

/-! Small rings. -/

namespace SmallRing

def put (name : String) (data sequenceLen : Nat) : PinnedAction :=
  .offload (ascii name) ⟨data, sequenceLen⟩

def run (maxLen maxSize : Nat) (actions : List PinnedAction) : Option (PinnedState 1) :=
  runFrom (PinnedState.step .disk) (.start maxLen maxSize) actions

/-- The third entry gets the rows of the first. -/
def wrapped : List PinnedAction := [put "a" 0 1, put "b" 1 1, put "c" 2 1]

/-- The value gets the rows of the key. -/
def long : List PinnedAction := [put "a" 0 3]

/-- The slices have four rows. -/
def tooLong : List PinnedAction := [put "a" 0 5]

/-- The first entry has left the pool when its rows come next; it is loaded
from the disk again. -/
def rotating : List PinnedAction :=
  [put "a" 0 1, put "b" 1 1, put "c" 2 1, put "d" 3 1, .retrieveData (ascii "a")]

/-- The pool gives something else than what was offloaded under a key. -/
def stale (key : Bytes) (state : PinnedState 1) : Bool :=
  state.obtained key ≠ none ∧ (state.offloaded key).map Tensors.kvData ≠ state.obtained key

theorem not_intact_of_stale {key : Bytes} {state : PinnedState 1}
    (hstale : stale key state = true) : ¬ state.Intact := by
  intro hintact
  obtain ⟨hsome, hne⟩ := of_decide_eq_true hstale
  obtain ⟨data, hdata⟩ := Option.ne_none_iff_exists'.mp hsome
  rw [hdata] at hne
  exact hne (hintact.contents key data hdata)

end SmallRing

open SmallRing in
/-- Entries of the pool are overwritten when the ring comes round and by the
value of their own call, and a request that is longer than the ring gets fewer
rows than it asks for. -/
theorem not_intact_smallRing : (∃ final, run 4 100 wrapped = some final ∧ ¬ final.Intact) ∧
    (∃ final, run 4 100 long = some final ∧ ¬ final.Intact) ∧
    ∃ final, run 4 100 tooLong = some final ∧ ¬ final.Intact := by
  have hwrapped : (run 4 100 wrapped).any (stale (ascii "a")) = true := by
    decide +kernel
  have hlong : (run 4 100 long).any (stale (ascii "a")) = true := by
    decide +kernel
  have hshort : (run 4 100 tooLong).any (fun final =>
      (5, ⟨0, 4⟩) ∈ final.allocated) = true := by
    decide +kernel
  refine ⟨?_, ?_, ?_⟩
  · obtain ⟨final, hfinal, hstale⟩ := (Option.any_eq_true ..).mp hwrapped
    exact ⟨final, hfinal, not_intact_of_stale hstale⟩
  · obtain ⟨final, hfinal, hstale⟩ := (Option.any_eq_true ..).mp hlong
    exact ⟨final, hfinal, not_intact_of_stale hstale⟩
  · obtain ⟨final, hfinal, hgiven⟩ := (Option.any_eq_true ..).mp hshort
    refine ⟨final, hfinal, fun hintact => ?_⟩
    exact absurd (hintact.exact _ (of_decide_eq_true hgiven)).1 (by decide)

open SmallRing in
theorem intact_rotating : ∃ final, run 6 4 rotating = some final ∧
    final.obtained (ascii "a") = some (Tensors.kvData ⟨0, 1⟩) ∧
    final.Intact := by
  have hrun : (run 6 4 rotating).any (fun final =>
      final.obtained (ascii "a") = some (Tensors.kvData ⟨0, 1⟩)) = true := by
    decide +kernel
  obtain ⟨final, hfinal, hobtained⟩ := (Option.any_eq_true ..).mp hrun
  exact ⟨final, hfinal, of_decide_eq_true hobtained, intact_of_orderly 1 6 4
    .disk rotating final (by decide +kernel) hfinal⟩

end Pinned

end CatKV
