/-
The layout of one batch of `batch_load_internal`.  Every object gets a block of
the CPU region and a place in the GPU region, and a tensor is viewed on the GPU
at the offset its payload has in the blob.  Blocks are kept apart as long as the
rounded sizes do not wrap `size_t`; the GPU address of a tensor is aligned if
its payload is aligned in the blob, which the reader does not check.
-/
import Mathlib.Data.Finset.Card
import Mathlib.Order.Interval.Finset.Nat
import CatKV.ArenaSafety
import CatKV.ParserSoundness
import CatKV.TensorMapRoundTrip

namespace CatKV

open List
namespace BatchLayout

/-! Intervals without common bytes. -/

/-- A byte that belongs to the interval. -/
def Holds (interval : Interval) (byte : Nat) : Prop := interval.start ≤ byte ∧ byte < interval.stop

/-- No byte belongs to both. -/
def Apart (left right : Interval) : Prop := ∀ byte, Holds left byte → ¬ Holds right byte

theorem apart_of_separate {left right : Interval}
    (hseparate : left.Separate right) : Apart left right := by
  intro byte hleft hright
  simp only [Interval.Separate, Holds] at hseparate hleft hright
  omega

theorem sum_le_of_apart {intervals : List Interval} {bound : Nat}
    (hdisjoint : intervals.Pairwise Apart)
    (hwithin : ∀ interval ∈ intervals, interval.stop ≤ bound) :
    (intervals.map Interval.size).sum ≤ bound := by
  obtain ⟨bytes, hcard, hmem⟩ : ∃ bytes : Finset Nat,
      bytes.card = (intervals.map Interval.size).sum ∧
        ∀ byte, byte ∈ bytes ↔ ∃ interval ∈ intervals, Holds interval byte := by
    clear hwithin
    induction intervals with
    | nil => exact ⟨∅, rfl, by simp⟩
    | cons interval rest ih =>
      rw [pairwise_cons] at hdisjoint
      obtain ⟨bytes, hcard, hmem⟩ := ih hdisjoint.2
      refine ⟨Finset.Ico interval.start interval.stop ∪ bytes, ?_, ?_⟩
      · rw [Finset.card_union_of_disjoint, Nat.card_Ico, hcard]
        · simp [Interval.stop]
        · refine Finset.disjoint_left.mpr fun byte hbyte hrest => ?_
          obtain ⟨other, hother, hholds⟩ := (hmem byte).mp hrest
          exact hdisjoint.1 other hother byte (Finset.mem_Ico.mp hbyte) hholds
      · intro byte
        simp [hmem, Holds]
  have hsubset : bytes ⊆ Finset.range bound := by
    intro byte hbyte
    obtain ⟨interval, hinterval, hholds⟩ := (hmem byte).mp hbyte
    exact Finset.mem_range.mpr (hholds.2.trans_le (hwithin interval hinterval))
  rw [← hcard]
  exact (Finset.card_le_card hsubset).trans_eq (Finset.card_range bound)

/-! What a batch is to keep. -/

def sizesOf (blobs : List Bytes) : List Nat := blobs.map List.length

/-- Every payload that the reader finds in the blob is aligned there. -/
def PayloadsAligned (blob : Bytes) : Prop :=
  ∀ tensors final, parseFromMemoryZeroCopy blob = .ok tensors final →
    ∀ item ∈ tensors, ∀ offset, item.2.externalData = some offset → kTensorAlignment ∣ offset

def cpuObjects (sizes : List Nat) : List Interval :=
  objectIntervals 0 (layoutObjects 0 sizes).1 sizes

def gpuObjects (sizes : List Nat) : List Interval := objectIntervals 0 (gpuOffsets sizes) sizes

/-- The layout of the objects; an object that is absent has no bytes. -/
structure LaidOut (blobs : List Bytes) : Prop where
  cpu_aligned : ∀ object ∈ cpuObjects (sizesOf blobs), kBlockSize ∣ object.start
  cpu_disjoint : (cpuObjects (sizesOf blobs)).Pairwise Apart
  cpu_within : ∀ object ∈ cpuObjects (sizesOf blobs), object.stop ≤ allocationSize (sizesOf blobs)
  gpu_aligned : ∀ object ∈ gpuObjects (sizesOf blobs), kGpuAlignment ∣ object.start
  gpu_disjoint : (gpuObjects (sizesOf blobs)).Pairwise Apart
  gpu_within : ∀ object ∈ gpuObjects (sizesOf blobs), object.stop ≤ gpuTotal (sizesOf blobs)
  base_within : ∀ (arena after : Ring) (base : Nat),
    allocateBatch arena (allocationSize (sizesOf blobs)) = (some base, after) →
      base + allocationSize (sizesOf blobs) ≤ arena.capacity
  tensors : ∀ (index : Nat) (blob : Bytes) (gpuOffset : Nat), blobs[index]? = some blob →
    (gpuOffsets (sizesOf blobs))[index]? = some gpuOffset →
    ∀ map final, parseFromMemoryZeroCopy blob = .ok map final →
      ∀ item ∈ map, ∀ offset, item.2.externalData = some offset →
        gpuOffset + offset + item.2.dataSize ≤ gpuOffset + blob.length ∧
          kGpuAlignment ∣ gpuOffset + offset

/-! The offsets, whether or not the sizes fit. -/

variable {offsets sizes : List Nat}

theorem exists_offset_of_mem {object : Interval}
    (hobject : object ∈ objectIntervals 0 offsets sizes) : object.start ∈ offsets := by
  induction offsets generalizing sizes with
  | nil => simp [objectIntervals] at hobject
  | cons offset rest ih =>
    cases sizes with
    | nil => simp [objectIntervals] at hobject
    | cons size sizes =>
      rw [objectIntervals, zipWith_cons_cons, mem_cons] at hobject
      rcases hobject with rfl | hrest
      · simp
      · exact mem_cons_of_mem offset (ih hrest)

theorem map_size_objectIntervals (hlength : offsets.length = sizes.length) :
    (objectIntervals 0 offsets sizes).map Interval.size = sizes := by
  induction offsets generalizing sizes with
  | nil =>
    rw [length_eq_zero_iff.mp hlength.symm]
    rfl
  | cons offset rest ih =>
    cases sizes with
    | nil => simp at hlength
    | cons size sizes =>
      exact congrArg (size :: ·) (ih (Nat.succ.inj hlength))

theorem dvd_alignUp (size : Nat) {block : Nat} (hblock : 0 < block) :
    block ∣ alignUp size block := by
  rw [alignUp, if_neg hblock.ne']
  exact Nat.dvd_mul_left _ _

theorem length_layoutObjects (sizes : List Nat) (current : Nat) :
    (layoutObjects current sizes).1.length = sizes.length := by
  induction sizes generalizing current with
  | nil => rfl
  | cons size rest ih => simp [layoutObjects, ih]

theorem length_computeAlignedObjectOffsets (alignment : Nat) (sizes : List Nat) (cursor : Nat) :
    (computeAlignedObjectOffsets alignment cursor sizes).length = sizes.length := by
  induction sizes generalizing cursor with
  | nil => rfl
  | cons size rest ih => simp [computeAlignedObjectOffsets, ih]

variable {offset : Nat}

theorem dvd_of_mem_layoutObjects {current : Nat}
    (hoffset : offset ∈ (layoutObjects current sizes).1) : kBlockSize ∣ offset := by
  induction sizes generalizing current with
  | nil => exact absurd hoffset not_mem_nil
  | cons size rest ih =>
    rcases mem_cons.mp hoffset with rfl | hrest
    · exact dvd_alignUp current (by decide)
    · exact ih hrest

theorem dvd_of_mem_computeAlignedObjectOffsets {alignment cursor : Nat} (halignment : 0 < alignment)
    (hoffset : offset ∈ computeAlignedObjectOffsets alignment cursor sizes) :
    alignment ∣ offset := by
  induction sizes generalizing cursor with
  | nil => exact absurd hoffset not_mem_nil
  | cons size rest ih =>
    rcases mem_cons.mp hoffset with rfl | hrest
    · exact dvd_alignUp cursor halignment
    · exact ih hrest

theorem allocationSize_spec (sizes : List Nat) :
    kBlockSize ∣ allocationSize sizes ∧ allocationSize sizes < 2 ^ 64 := by
  simp only [allocationSize]
  split
  · exact ⟨Nat.dvd_refl _, by decide⟩
  · refine ⟨dvd_alignUp _ (by decide), ?_⟩
    rw [alignUp, if_neg (by decide)]
    exact (Nat.div_mul_le_self _ _).trans_lt (Nat.mod_lt _ (by decide))

/-! Blocks that are apart do not wrap. -/

/-- The block of an object, to its end. -/
def blockOf (object : Interval) : Interval := ⟨object.start, roundUp object.size kBlockSize⟩

theorem blockOf_apart {left right : Interval} (hleft : kBlockSize ∣ left.start)
    (hright : kBlockSize ∣ right.start) (hapart : Apart left right) :
    Apart (blockOf left) (blockOf right) := by
  -- the later of the two starts belongs to both objects
  intro byte hbyte hbyte'
  have hlater := hapart (max left.start right.start)
  obtain ⟨first, hfirst⟩ := hleft
  obtain ⟨second, hsecond⟩ := hright
  simp only [Holds, blockOf, Interval.stop, roundUp, kBlockSize] at *
  omega

theorem blockOf_stop_le {object : Interval} {bound : Nat}
    (hstart : kBlockSize ∣ object.start) (hbound : kBlockSize ∣ bound)
    (hstop : object.stop ≤ bound) : (blockOf object).stop ≤ bound := by
  simp only [blockOf, Interval.stop] at hstop ⊢
  have hsize : roundUp object.size kBlockSize ≤ bound - object.start :=
    roundUp_le (by decide) (Nat.dvd_sub hbound hstart) (by omega)
  omega

theorem LaidOut.sizesFit {blobs : List Bytes} (hlaid : LaidOut blobs) :
    SizesFit (sizesOf blobs) := by
  obtain ⟨hdvd, hlt⟩ := allocationSize_spec (sizesOf blobs)
  have hapart : ((cpuObjects (sizesOf blobs)).map blockOf).Pairwise Apart := by
    rw [pairwise_map]
    exact hlaid.cpu_disjoint.imp_of_mem fun hleft hright hapart =>
      blockOf_apart (hlaid.cpu_aligned _ hleft) (hlaid.cpu_aligned _ hright) hapart
  have hwithin : ∀ block ∈ (cpuObjects (sizesOf blobs)).map blockOf,
      block.stop ≤ allocationSize (sizesOf blobs) := by
    intro block hblock
    obtain ⟨object, hobject, rfl⟩ := mem_map.mp hblock
    exact blockOf_stop_le (hlaid.cpu_aligned object hobject) hdvd (hlaid.cpu_within object hobject)
  have htotal : ((cpuObjects (sizesOf blobs)).map blockOf).map Interval.size =
      (sizesOf blobs).map fun size => roundUp size kBlockSize := by
    have hsizes := map_size_objectIntervals (length_layoutObjects (sizesOf blobs) 0)
    nth_rewrite 2 [← hsizes]
    simp [cpuObjects, blockOf]
  have hsum := sum_le_of_apart hapart hwithin
  rw [htotal] at hsum
  exact hsum.trans_lt hlt

/-! Sizes that fit are laid out. -/

theorem within_of_ascending {last : Nat} (hascending : Ascending 0 offsets sizes last) :
    (objectIntervals 0 offsets sizes).Pairwise Apart ∧
      ∀ object ∈ objectIntervals 0 offsets sizes, object.stop ≤ last := by
  refine ⟨(hascending.separate 0).imp apart_of_separate, ?_⟩
  intro object hobject
  have hbounds := (hascending.within 0).2 object hobject
  omega

theorem cpuObjects_spec (hfit : SizesFit sizes) : (cpuObjects sizes).Pairwise Apart ∧
    ∀ object ∈ cpuObjects sizes, object.stop ≤ allocationSize sizes := by
  have hle := alignedTotal_le hfit
  have hascending := (layoutObjects_spec sizes (Nat.dvd_zero kBlockSize) (by omega)).2
  obtain ⟨hapart, hwithin⟩ := within_of_ascending hascending
  refine ⟨hapart, fun object hobject => ?_⟩
  have hstop := hwithin object hobject
  have hlast := alignedTotal_le_allocationSize hfit
  omega

theorem base_within (hfit : SizesFit sizes) {arena after : Ring} {base : Nat}
    (hplaced : allocateBatch arena (allocationSize sizes) =
      (some base, after)) : base + allocationSize sizes ≤ arena.capacity := by
  by_cases hroom : allocationSize sizes ≤ arena.capacity
  · rw [allocateBatch, if_pos hroom, Prod.mk.injEq, Option.some.injEq] at hplaced
    rw [← hplaced.1]
    exact Ring.start_stop_le arena.offset hroom
  · rw [allocateBatch_private hfit (Nat.lt_of_not_le hroom)] at hplaced
    exact absurd (congrArg Prod.fst hplaced) (Option.some_ne_none base).symm

variable {item : Bytes × ParsedTensor}

theorem tensor_within {blob : Bytes} {map : ParsedMap} {final : Cursor}
    (hparse : parseFromMemoryZeroCopy blob = .ok map final) (hitem : item ∈ map)
    (hoffset : item.2.externalData = some offset) : offset + item.2.dataSize ≤ blob.length := by
  have hinside := parseFromMemoryZeroCopy_payloads_inside hparse hitem
  rwa [PayloadInside, hoffset] at hinside

theorem laidOut_iff (blobs : List Bytes) : LaidOut blobs ↔ SizesFit (sizesOf blobs) ∧
    ∀ blob ∈ blobs, PayloadsAligned blob := by
  have hgpu : ∀ {offset : Nat}, offset ∈ gpuOffsets (sizesOf blobs) →
      kGpuAlignment ∣ offset := fun hoffset =>
    dvd_of_mem_computeAlignedObjectOffsets (by decide) hoffset
  constructor
  · intro hlaid
    refine ⟨hlaid.sizesFit, fun blob hblob map final hparse item hitem offset hoffset => ?_⟩
    obtain ⟨index, hlt, hindex⟩ := getElem_of_mem hblob
    have hlength : index < (gpuOffsets (sizesOf blobs)).length := by
      rw [gpuOffsets, length_computeAlignedObjectOffsets, sizesOf, length_map]
      exact hlt
    have htensor := hlaid.tensors index blob _ (by rw [getElem?_eq_getElem hlt, hindex])
      (getElem?_eq_getElem hlength) map final hparse item hitem offset
      hoffset
    exact (Nat.dvd_add_right (hgpu (getElem_mem hlength))).mp htensor.2
  · rintro ⟨hfit, haligned⟩
    obtain ⟨hapart, hwithin⟩ := cpuObjects_spec hfit
    obtain ⟨hapart', hwithin'⟩ := within_of_ascending (gpuTotal_spec hfit).1
    refine ⟨fun object hobject => ?_, hapart, hwithin, fun object hobject => ?_,
      hapart', hwithin', fun _ _ _ hplaced => base_within hfit hplaced, ?_⟩
    · exact dvd_of_mem_layoutObjects (exists_offset_of_mem hobject)
    · exact hgpu (exists_offset_of_mem hobject)
    · intro index blob gpuOffset hblob hoffset' map final hparse item hitem offset hoffset
      have hinside := tensor_within hparse hitem hoffset
      refine ⟨by omega, Nat.dvd_add (hgpu (mem_of_getElem? hoffset')) ?_⟩
      exact haligned blob (mem_of_getElem? hblob) map final hparse item hitem offset hoffset

/-! The blobs of the writer. -/

theorem mem_of_mem_foldl_emplace {entries tensors : ParsedMap}
    (hitem : item ∈ entries.foldl emplace tensors) : item ∈ tensors ∨ item ∈ entries := by
  induction entries generalizing tensors with
  | nil => exact Or.inl hitem
  | cons entry rest ih =>
    rcases ih hitem with hold | hrest
    · rcases mem_emplace.mp hold with hold | ⟨rfl, -⟩
      · exact Or.inl hold
      · exact Or.inr mem_cons_self
    · exact Or.inr (mem_cons_of_mem entry hrest)

theorem dataSize_ne_zero_of_mem_parsedEntries {entries : List RawEntry}
    {start : Nat} (hitem : item ∈ parsedEntries start entries)
    (hoffset : item.2.externalData = some offset) : item.2.dataSize ≠ 0 := by
  induction entries generalizing start with
  | nil => exact absurd hitem not_mem_nil
  | cons entry rest ih =>
    rcases mem_cons.mp hitem with rfl | hrest
    · intro hsize
      have hnone : (entry.parsed start).2.externalData = none := if_pos hsize
      exact Option.some_ne_none offset (hoffset.symm.trans hnone)
    · exact ih hrest

theorem payloadsAligned_serializeTensorMap (map : TensorMap) :
    PayloadsAligned (serializeTensorMap map.entries) := by
  intro tensors final hparse item hitem offset hoffset
  have hdictionary : IsDictionary (serializeTensorMap map.entries)
      (writtenEntries dictionaryHeaderSize map.entries map.names_lt) := by
    refine ⟨?_, [], ?_⟩
    · rw [writtenEntries_length]
      exact map.count_lt
    · rw [serializeTensorMap_eq map.entries map.names_lt, append_nil]
  rw [parseFromMemoryZeroCopy_of_isDictionary hdictionary] at hparse
  injection hparse with hmap
  rw [← hmap] at hitem
  have hentry := (mem_of_mem_foldl_emplace hitem).resolve_left not_mem_nil
  obtain ⟨place, hplace, hmod⟩ := parsedEntries_aligned map.entries
    map.names_lt dictionaryHeaderSize item hentry
    (dataSize_ne_zero_of_mem_parsedEntries hentry hoffset)
  rw [hoffset, Option.some.injEq] at hplace
  rw [hplace]
  exact Nat.dvd_of_mod_eq_zero hmod

/-- A batch is laid out as it should be exactly if the rounded sizes fit and
every payload is aligned in its blob, as it is in a blob of the writer. -/
theorem laidOut_iff_aligned (blobs : List Bytes) : (LaidOut blobs ↔ SizesFit (sizesOf blobs) ∧
      ∀ blob ∈ blobs, PayloadsAligned blob) ∧
    ∀ map : TensorMap, PayloadsAligned (serializeTensorMap map.entries) :=
  ⟨laidOut_iff blobs, payloadsAligned_serializeTensorMap⟩

/-- One float32 with no padding before it. -/
def unpaddedDictionary : Bytes :=
  kMagic ++ leBytes 4 2 ++ leBytes 4 1 ++ leBytes 4 1 ++ ascii "t" ++
    leBytes 4 0 ++ leBytes 8 1 ++ leBytes 8 1 ++ leBytes 8 4 ++ leBytes 4 0 ++
    [0, 0, 128, 63]

/-- The reader accepts it with the payload at byte 53, and the GPU view starts
there. -/
theorem not_laidOut_unpaddedDictionary : ¬ LaidOut [unpaddedDictionary] := by
  have hparse : parseFromMemoryZeroCopy unpaddedDictionary =
      .ok [(ascii "t", ⟨.float32, [1], 4, some 53⟩)] ⟨unpaddedDictionary, 57⟩ := by rfl
  intro hlaid
  have htensor := hlaid.tensors 0 unpaddedDictionary 0 rfl rfl _ _ hparse _ mem_cons_self 53 rfl
  exact absurd htensor.2 (by decide)

end BatchLayout
end CatKV
