/-
When the bytes handed out by the arenas stay valid.  Regions that are still
referenced are separate as long as neither cursor comes round to the start of
one of them and the GPU block is not replaced while it is in use.
-/
import CatKV.Arena

namespace CatKV

open List

/-! Layout of a batch whose sizes do not overflow `size_t`. -/

def roundUp (size block : Nat) : Nat := (size + block - 1) / block * block

/-- The bytes a batch takes when every object is rounded up to a block. -/
def alignedTotal (sizes : List Nat) : Nat := (sizes.map fun size => roundUp size kBlockSize).sum

def SizesFit (sizes : List Nat) : Prop := alignedTotal sizes < 2 ^ 64

instance sizesFitDecidable (sizes : List Nat) : Decidable (SizesFit sizes) :=
  inferInstanceAs (Decidable (_ < _))

theorem alignUp_eq {size block : Nat} (hblock : 0 < block) (hfit : size + block - 1 < 2 ^ 64) :
    alignUp size block = roundUp size block := by
  rw [alignUp, if_neg (Nat.ne_of_gt hblock), Nat.mod_eq_of_lt hfit, roundUp]

theorem le_roundUp (size : Nat) {block : Nat} (hblock : 0 < block) : size ≤ roundUp size block := by
  have hmod := Nat.mod_lt (size + block - 1) hblock
  have hdiv := Nat.div_add_mod (size + block - 1) block
  rw [roundUp, Nat.mul_comm]
  omega

theorem dvd_roundUp (size block : Nat) : block ∣ roundUp size block := Nat.dvd_mul_left _ _

theorem roundUp_le {size block bound : Nat} (hblock : 0 < block) (hbound : block ∣ bound)
    (hle : size ≤ bound) : roundUp size block ≤ bound := by
  obtain ⟨count, rfl⟩ := hbound
  have hcount : (size + block - 1) / block ≤ count := by
    apply Nat.lt_succ_iff.mp
    rw [Nat.div_lt_iff_lt_mul hblock, Nat.succ_mul, Nat.mul_comm]
    omega
  rw [roundUp, Nat.mul_comm block]
  exact Nat.mul_le_mul_right block hcount

theorem alignUp_of_dvd {size : Nat} (hdvd : kBlockSize ∣ size)
    (hle : size ≤ 2 ^ 64 - 4096) : alignUp size kBlockSize = size := by
  have hblock : 0 < kBlockSize := by decide
  rw [alignUp_eq hblock (by simp only [kBlockSize]; omega)]
  exact Nat.le_antisymm (roundUp_le hblock hdvd (Nat.le_refl _)) (le_roundUp size hblock)

theorem dvd_alignedTotal (sizes : List Nat) : kBlockSize ∣ alignedTotal sizes := by
  induction sizes with
  | nil => exact Nat.dvd_zero _
  | cons size rest ih =>
    rw [alignedTotal, map_cons, sum_cons]
    exact Nat.dvd_add (dvd_roundUp size kBlockSize) ih

variable {sizes : List Nat}

theorem alignedTotal_le (hfit : SizesFit sizes) : alignedTotal sizes ≤ 2 ^ 64 - 4096 := by
  obtain ⟨count, hcount⟩ := dvd_alignedTotal sizes
  simp only [SizesFit, kBlockSize] at hfit hcount
  omega

theorem layoutObjects_spec (sizes : List Nat) {current : Nat} (haligned : kBlockSize ∣ current)
    (hfit : current + alignedTotal sizes ≤ 2 ^ 64 - 4096) :
    (layoutObjects current sizes).2 = current + alignedTotal sizes ∧
      Ascending current (layoutObjects current sizes).1 sizes (current + alignedTotal sizes) := by
  induction sizes generalizing current with
  | nil => exact ⟨rfl, Nat.le_refl _⟩
  | cons size rest ih =>
    have htotal : alignedTotal (size :: rest) = roundUp size kBlockSize + alignedTotal rest := rfl
    have hblock : 0 < kBlockSize := by decide
    have hle := le_roundUp size hblock
    rw [htotal] at hfit
    have hoffset : alignUp current kBlockSize = current := alignUp_of_dvd haligned (by omega)
    have hsize : alignUp size kBlockSize = roundUp size kBlockSize :=
      alignUp_eq hblock (by simp only [kBlockSize] at hle hfit ⊢; omega)
    have hnext : (current + roundUp size kBlockSize) % 2 ^ 64 =
        current + roundUp size kBlockSize := Nat.mod_eq_of_lt (by omega)
    have hrest := ih (Nat.dvd_add haligned (dvd_roundUp size kBlockSize)) (by omega)
    simp only [layoutObjects, hoffset, hsize, hnext, htotal]
    rw [← Nat.add_assoc]
    exact ⟨hrest.1, Nat.le_refl _, hrest.2.of_le (by omega)⟩

theorem computeAlignedObjectOffsets_ascending (sizes : List Nat) {cursor current : Nat}
    (haligned : kBlockSize ∣ current) (hle : cursor ≤ current)
    (hfit : current + alignedTotal sizes ≤ 2 ^ 64 - 4096) :
    Ascending cursor (computeAlignedObjectOffsets kGpuAlignment cursor sizes)
      sizes (current + alignedTotal sizes) := by
  induction sizes generalizing cursor current with
  | nil => exact Nat.le_trans hle (Nat.le_add_right _ _)
  | cons size rest ih =>
    have htotal : alignedTotal (size :: rest) = roundUp size kBlockSize + alignedTotal rest := rfl
    have hgpu : 0 < kGpuAlignment := by decide
    have hdvd : kGpuAlignment ∣ current := Nat.dvd_trans (by decide) haligned
    have hblock : 0 < kBlockSize := by decide
    have hsize := le_roundUp size hblock
    rw [htotal] at hfit ⊢
    have hoffset : alignUp cursor kGpuAlignment = roundUp cursor kGpuAlignment :=
      alignUp_eq hgpu (by simp only [kGpuAlignment]; omega)
    have hbound := roundUp_le hgpu hdvd hle
    have hcursor := le_roundUp cursor hgpu
    have hnext : (roundUp cursor kGpuAlignment + size) % 2 ^ 64 =
        roundUp cursor kGpuAlignment + size := Nat.mod_eq_of_lt (by omega)
    have hahead : roundUp cursor kGpuAlignment + size ≤
        current + roundUp size kBlockSize := by omega
    have hrest := ih (Nat.dvd_add haligned (dvd_roundUp size kBlockSize)) hahead (by omega)
    simp only [computeAlignedObjectOffsets, hoffset, hnext]
    rw [← Nat.add_assoc]
    exact ⟨hcursor, hrest⟩

theorem zipWith_mod_of_ascending {first last : Nat} {offsets : List Nat}
    (hascending : Ascending first offsets sizes last) (hlast : last < 2 ^ 64) :
    List.zipWith (fun offset size => (offset + size) % 2 ^ 64) offsets sizes =
      List.zipWith (· + ·) offsets sizes := by
  have hends := hascending.ends_le.2
  clear hascending
  induction offsets generalizing sizes with
  | nil => simp
  | cons offset offsets ih =>
    cases sizes with
    | nil => simp
    | cons size sizes =>
      simp only [zipWith_cons_cons, forall_mem_cons] at hends
      simp only [zipWith_cons_cons, ih hends.2]
      rw [Nat.mod_eq_of_lt (by omega)]

theorem foldl_max_le_iff {values : List Nat} {init bound : Nat} : values.foldl max init ≤ bound ↔
    init ≤ bound ∧ ∀ value ∈ values, value ≤ bound := by
  induction values generalizing init with
  | nil => simp
  | cons value rest ih => simp [ih, and_assoc]

theorem gpuTotal_spec (hfit : SizesFit sizes) :
    Ascending 0 (gpuOffsets sizes) sizes (gpuTotal sizes) ∧
      gpuTotal sizes ≤ alignedTotal sizes := by
  have hle := alignedTotal_le hfit
  have hascending := computeAlignedObjectOffsets_ascending sizes
    (Nat.dvd_zero kBlockSize) (Nat.le_refl 0) (by omega)
  rw [Nat.zero_add] at hascending
  have hmod := zipWith_mod_of_ascending hascending (by omega)
  have htotal : gpuTotal sizes = (List.zipWith (· + ·) (gpuOffsets sizes) sizes).foldl max 0 := by
    rw [gpuTotal, gpuOffsets, hmod]
  rw [htotal]
  exact ⟨hascending.tighten (Nat.zero_le _) (foldl_max_le_iff.mp (Nat.le_refl _)).2,
    foldl_max_le_iff.mpr ⟨Nat.zero_le _, hascending.ends_le.2⟩⟩

theorem allocationSize_eq (hfit : SizesFit sizes) : allocationSize sizes =
    if alignedTotal sizes = 0 then kBlockSize else alignedTotal sizes := by
  have hle := alignedTotal_le hfit
  have hend := (layoutObjects_spec sizes (Nat.dvd_zero kBlockSize) (by omega)).1
  rw [Nat.zero_add] at hend
  simp only [allocationSize, hend, alignUp_of_dvd (dvd_alignedTotal sizes) hle]

theorem alignedTotal_le_allocationSize (hfit : SizesFit sizes) :
    alignedTotal sizes ≤ allocationSize sizes := by
  rw [allocationSize_eq hfit]
  split <;> omega

theorem allocateBatch_private {arena : Ring} (hfit : SizesFit sizes)
    (hlarge : arena.capacity < allocationSize sizes) :
    allocateBatch arena (allocationSize sizes) = (none, arena) := by
  have hle := alignedTotal_le hfit
  have hdvd : kBlockSize ∣ allocationSize sizes ∧ allocationSize sizes ≤ 2 ^ 64 - 4096 := by
    rw [allocationSize_eq hfit]
    split
    · exact ⟨Nat.dvd_refl _, by decide⟩
    · exact ⟨dvd_alignedTotal sizes, hle⟩
  have haligned := alignUp_of_dvd hdvd.1 hdvd.2
  have hpositive : allocationSize sizes ≠ 0 := by omega
  simp only [allocateBatch, Nat.not_le.mpr hlarge, ↓reduceIte,
    allocateFromArena, hpositive, haligned, hlarge]

theorem CpuRegion.objects_spec (region : CpuRegion) (hfit : SizesFit region.sizes) :
    region.objects.Pairwise Interval.Separate ∧
      ∀ object ∈ region.objects, object.Within region.span := by
  have hle := alignedTotal_le hfit
  have hlast := alignedTotal_le_allocationSize hfit
  have hascending := (layoutObjects_spec region.sizes (Nat.dvd_zero kBlockSize) (by omega)).2
  refine ⟨hascending.separate region.base, ?_⟩
  intro object hobject
  have hbounds := (hascending.within region.base).2 object hobject
  simp only [Interval.Within, CpuRegion.span, Interval.stop] at hbounds ⊢
  omega

theorem GpuRegion.objects_spec (region : GpuRegion) (hfit : SizesFit region.sizes) :
    region.objects.Pairwise Interval.Separate ∧
      ∀ object ∈ region.objects, object.Within region.span := by
  obtain ⟨hascending, htotal⟩ := gpuTotal_spec hfit
  have hle := alignedTotal_le hfit
  have hgpu : 0 < kGpuAlignment := by decide
  have haligned := alignUp_eq hgpu (show gpuTotal region.sizes + kGpuAlignment - 1 < 2 ^ 64 by
      simp only [kGpuAlignment]; omega)
  have hround := le_roundUp (gpuTotal region.sizes) hgpu
  refine ⟨hascending.separate _, ?_⟩
  intro object hobject
  have hbounds := (hascending.within region.placement.base).2 object hobject
  simp only [Interval.Within, GpuRegion.span, Interval.stop, haligned] at hbounds ⊢
  omega

/-! What callers rely on. -/

/-- Referenced regions are inside their arena and pairwise separate, and so are
the objects inside each region; every referenced GPU region lies in the block
that is currently allocated. -/
structure ArenasSafe (state : ArenaState) : Prop where
  cpu_inside : ∀ region ∈ state.cpuLive, region.span.stop ≤ state.arena.capacity
  cpu_separate : state.cpuLive.Pairwise fun left right =>
    left.span.Separate right.span
  cpu_objects : ∀ region ∈ state.cpuLive, region.objects.Pairwise Interval.Separate ∧
      ∀ object ∈ region.objects, object.Within region.span
  gpu_current : ∀ region ∈ state.gpuLive,
    region.placement.arena.isSome ∧ region.placement.arena = state.gpu.arena
  gpu_inside : ∀ region ∈ state.gpuLive, region.span.stop ≤ state.gpu.ring.capacity
  gpu_separate : state.gpuLive.Pairwise fun left right =>
    left.span.Separate right.span
  gpu_objects : ∀ region ∈ state.gpuLive, region.objects.Pairwise Interval.Separate ∧
      ∀ object ∈ region.objects, object.Within region.span

/-! The CPU arena. -/

structure CpuInv (arena : Ring) (live : List CpuRegion) : Prop where
  valid : arena.Valid
  placed : ∀ region ∈ live, arena.Placed region.span region.stamp
  separate : live.Pairwise fun left right => left.span.Separate right.span
  fit : ∀ region ∈ live, SizesFit region.sizes

theorem CpuInv.sublist {arena : Ring} {live live' : List CpuRegion} (hinv : CpuInv arena live)
    (hsub : live'.Sublist live) : CpuInv arena live' :=
  ⟨hinv.valid, fun region hregion => hinv.placed region (hsub.subset hregion),
    hinv.separate.sublist hsub, fun region hregion => hinv.fit region (hsub.subset hregion)⟩

theorem CpuInv.allocate {arena : Ring} {live : List CpuRegion}
    (hinv : CpuInv arena live) (owner : Nat) (hfit : SizesFit sizes)
    (hsize : allocationSize sizes ≤ arena.capacity) (hroom : ∀ region ∈ live,
      arena.Room arena.offset (allocationSize sizes) region.stamp) :
    CpuInv (arena.advance arena.offset (allocationSize sizes))
      (⟨owner, sizes, arena.start arena.offset (allocationSize sizes),
        arena.stamp arena.offset (allocationSize sizes)⟩ :: live) := by
  have haligned : arena.offset ≤ arena.offset := Nat.le_refl _
  refine ⟨hinv.valid.advance haligned hsize, ?_, ?_, ?_⟩
  · simp only [forall_mem_cons]
    exact ⟨hinv.valid.placed_advance haligned hsize,
      fun region hregion => (hinv.placed region hregion).advance⟩
  · rw [pairwise_cons]
    exact ⟨fun region hregion => hinv.valid.separate haligned hsize
      (hinv.placed region hregion) (hroom region hregion), hinv.separate⟩
  · simp only [forall_mem_cons]
    exact ⟨hfit, hinv.fit⟩

/-! The GPU arena. -/

structure GpuInv (gpu : GpuArena) (live : List GpuRegion) : Prop where
  valid : gpu.ring.Valid
  capacity_le : gpu.ring.capacity ≤ 2 ^ 64 - 4096
  allocated : gpu.currentDeviceId.isSome → gpu.arena.isSome
  current : ∀ region ∈ live, region.placement.arena.isSome ∧ region.placement.arena = gpu.arena
  placed : ∀ region ∈ live, gpu.ring.Placed region.span region.placement.stamp
  separate : live.Pairwise fun left right => left.span.Separate right.span
  fit : ∀ region ∈ live, SizesFit region.sizes

variable {gpu : GpuArena} {live : List GpuRegion}

theorem GpuInv.sublist {live' : List GpuRegion} (hinv : GpuInv gpu live)
    (hsub : live'.Sublist live) : GpuInv gpu live' :=
  ⟨hinv.valid, hinv.capacity_le, hinv.allocated,
    fun region hregion => hinv.current region (hsub.subset hregion),
    fun region hregion => hinv.placed region (hsub.subset hregion),
    hinv.separate.sublist hsub,
    fun region hregion => hinv.fit region (hsub.subset hregion)⟩

theorem GpuInv.offset_le_aligned (hinv : GpuInv gpu live) :
    gpu.ring.offset ≤ alignUp gpu.ring.offset kGpuAlignment := by
  have hoffset := hinv.valid.1
  have hcapacity := hinv.capacity_le
  have hgpu : 0 < kGpuAlignment := by decide
  rw [alignUp_eq hgpu (by simp only [kGpuAlignment]; omega)]
  exact le_roundUp _ hgpu

theorem GpuInv.place (hinv : GpuInv gpu live) (owner : Nat) (hfit : SizesFit sizes)
    (harena : gpu.arena.isSome) (hsize : alignUp (gpuTotal sizes) kGpuAlignment ≤ gpu.ring.capacity)
    (hroom : ∀ region ∈ live, gpu.ring.Room (alignUp gpu.ring.offset kGpuAlignment)
        (alignUp (gpuTotal sizes) kGpuAlignment) region.placement.stamp) :
    GpuInv (gpu.place (alignUp (gpuTotal sizes) kGpuAlignment)).1 (⟨owner, sizes, (gpu.place
        (alignUp (gpuTotal sizes) kGpuAlignment)).2⟩ :: live) := by
  have haligned := hinv.offset_le_aligned
  refine ⟨hinv.valid.advance haligned hsize, hinv.capacity_le, hinv.allocated, ?_, ?_, ?_, ?_⟩
  · simp only [forall_mem_cons]
    exact ⟨⟨harena, rfl⟩, hinv.current⟩
  · simp only [forall_mem_cons]
    exact ⟨hinv.valid.placed_advance haligned hsize,
      fun region hregion => (hinv.placed region hregion).advance⟩
  · rw [pairwise_cons]
    exact ⟨fun region hregion => hinv.valid.separate haligned hsize
      (hinv.placed region hregion) (hroom region hregion), hinv.separate⟩
  · simp only [forall_mem_cons]
    exact ⟨hfit, hinv.fit⟩

theorem alignUp_gpuTotal_le (hfit : SizesFit sizes) :
    alignUp (gpuTotal sizes) kGpuAlignment ≤ 2 ^ 64 - 4096 := by
  have htotal := (gpuTotal_spec hfit).2
  have hle := alignedTotal_le hfit
  have hgpu : 0 < kGpuAlignment := by decide
  rw [alignUp_eq hgpu (by simp only [kGpuAlignment]; omega)]
  exact roundUp_le hgpu (by decide) (by omega)

theorem gpuInv_fresh (hfit : SizesFit sizes) (arena deviceId made : Nat) :
    GpuInv ⟨some arena, ⟨max kGpuArenaSize
      (alignUp (gpuTotal sizes) kGpuAlignment), 0, 0⟩, some deviceId, made⟩
      [] := by
  refine ⟨⟨Nat.zero_le _, 0, by simp⟩, ?_, by simp, by simp, by simp,
    List.Pairwise.nil, by simp⟩
  exact Nat.max_le.mpr ⟨by decide, alignUp_gpuTotal_le hfit⟩

/-! Runs. -/

structure ArenaInv (state : ArenaState) : Prop where
  cpu : CpuInv state.arena state.cpuLive
  gpu : GpuInv state.gpu state.gpuLive
  loads : ∀ load ∈ state.downloading, SizesFit load.sizes

theorem arenaInv_initial (capacity : Nat) : ArenaInv (ArenaState.initial capacity) :=
  ⟨⟨⟨Nat.zero_le _, 0, by simp [ArenaState.initial]⟩, by
      simp [ArenaState.initial], List.Pairwise.nil, by
      simp [ArenaState.initial]⟩,
    ⟨⟨Nat.le_refl _, 0, rfl⟩, by simp [ArenaState.initial], by
      simp [ArenaState.initial], by simp [ArenaState.initial], by
      simp [ArenaState.initial], List.Pairwise.nil, by
      simp [ArenaState.initial]⟩, by simp [ArenaState.initial]⟩

variable {state : ArenaState}

theorem ArenaInv.safe (hinv : ArenaInv state) : ArenasSafe state :=
  ⟨fun region hregion => (hinv.cpu.placed region hregion).1, hinv.cpu.separate,
    fun region hregion => region.objects_spec (hinv.cpu.fit region hregion),
    hinv.gpu.current,
    fun region hregion => (hinv.gpu.placed region hregion).1,
    hinv.gpu.separate,
    fun region hregion => region.objects_spec (hinv.gpu.fit region hregion)⟩

/-- The GPU block is kept and its cursor does not come round to a referenced
region; or it is replaced while no GPU region is referenced, and a failing
`cudaMalloc` had no block to lose. -/
def GpuRoom (state : ArenaState) (size deviceId : Nat) (mallocOk : Bool) : Prop :=
  if state.gpu.reallocates size deviceId then
    state.gpuLive = [] ∧ (mallocOk = false → state.gpu.arena = none)
  else ∀ region ∈ state.gpuLive, state.gpu.ring.Room (alignUp state.gpu.ring.offset kGpuAlignment)
      (alignUp size kGpuAlignment) region.placement.stamp

/-- What a step has to respect: sizes that do not overflow, and enough distance
between the arena cursor and every region that is still referenced. -/
def ArenaRoom (state : ArenaState) : ArenaAction → Prop
  | .batchLoad sizes _ =>
    SizesFit sizes ∧ (allocationSize sizes ≤ state.arena.capacity →
      ∀ region ∈ state.cpuLive, state.arena.Room state.arena.offset
        (allocationSize sizes) region.stamp)
  | .gpuAllocate index mallocOk =>
    ∀ before load after deviceId, pick state.downloading index = some (before, load, after) →
      load.deviceId = some deviceId →
      GpuRoom state (gpuTotal load.sizes) deviceId mallocOk
  | _ => True

theorem ArenaInv.release (hinv : ArenaInv state) {downloading copying : List Load}
    {cpuLive : List CpuRegion} {gpuLive : List GpuRegion} (hloads : downloading ⊆ state.downloading)
    (hcpu : cpuLive.Sublist state.cpuLive) (hgpu : gpuLive.Sublist state.gpuLive) :
    ArenaInv { state with
      downloading := downloading
      copying := copying
      cpuLive := cpuLive
      gpuLive := gpuLive } :=
  ⟨hinv.cpu.sublist hcpu, hinv.gpu.sublist hgpu, fun load hload => hinv.loads load (hloads hload)⟩

theorem ArenaInv.batchLoad (hinv : ArenaInv state) {deviceId : Option Nat}
    (hroom : ArenaRoom state (.batchLoad sizes deviceId)) :
    ArenaInv (state.batchLoad sizes deviceId) := by
  obtain ⟨hfit, hroom⟩ := hroom
  have hloads : ∀ load ∈ state.downloading ++
      [⟨state.nextLoad, sizes, deviceId⟩], SizesFit load.sizes := by
    intro load hload
    simp only [mem_append, mem_singleton] at hload
    rcases hload with hload | rfl
    · exact hinv.loads load hload
    · exact hfit
  by_cases hsize : allocationSize sizes ≤ state.arena.capacity
  · have hallocate : allocateBatch state.arena (allocationSize sizes) =
        (some (state.arena.start state.arena.offset (allocationSize sizes)),
          state.arena.advance state.arena.offset (allocationSize sizes)) :=
      if_pos hsize
    unfold ArenaState.batchLoad
    simp only [hallocate]
    exact ⟨hinv.cpu.allocate state.nextLoad hfit hsize (hroom hsize), hinv.gpu, hloads⟩
  · have hallocate := allocateBatch_private hfit (Nat.not_le.mp hsize)
    unfold ArenaState.batchLoad
    simp only [hallocate]
    exact ⟨hinv.cpu, hinv.gpu, hloads⟩

theorem GpuInv.allocate (hinv : GpuInv state.gpu
    state.gpuLive) (owner : Nat) {deviceId : Nat} {mallocOk : Bool} (hfit : SizesFit sizes)
    (htotal : gpuTotal sizes ≠ 0) (hroom : GpuRoom state (gpuTotal sizes) deviceId mallocOk) :
    match allocateFromGpuArenaUnlocked state.gpu (gpuTotal sizes) deviceId mallocOk with
    | (gpu, none) => GpuInv gpu state.gpuLive
    | (gpu, some placement) =>
      GpuInv gpu (⟨owner, sizes, placement⟩ :: state.gpuLive) := by
  unfold GpuRoom at hroom
  simp only [allocateFromGpuArenaUnlocked, htotal, ↓reduceIte]
  by_cases hreallocates : state.gpu.reallocates (gpuTotal sizes) deviceId
  · simp only [hreallocates, ↓reduceIte] at hroom ⊢
    obtain ⟨hlive, hfails⟩ := hroom
    cases mallocOk with
    | false =>
      have hsame : { state.gpu with arena := none } = state.gpu := by
        rw [← hfails rfl]
      simpa only [Bool.false_eq_true, ↓reduceIte, hsame] using hinv
    | true =>
      have hfresh := gpuInv_fresh hfit state.gpu.made deviceId (state.gpu.made + 1)
      rw [hlive]
      exact hfresh.place owner hfit rfl (Nat.le_max_right _ _) (by simp)
  · simp only [hreallocates, Bool.false_eq_true, ↓reduceIte] at hroom ⊢
    simp only [GpuArena.reallocates, Bool.or_eq_true, bne_iff_ne, ne_eq,
      decide_eq_true_eq, not_or, not_not, Nat.not_lt] at hreallocates
    exact hinv.place owner hfit (hinv.allocated (by simp [hreallocates.1])) hreallocates.2 hroom

theorem ArenaInv.gpuAllocate (hinv : ArenaInv state) {load : Load} {deviceId : Nat}
    {mallocOk : Bool} {downloading : List Load} (hfit : SizesFit load.sizes)
    (htotal : gpuTotal load.sizes ≠ 0) (hloads : downloading ⊆ state.downloading)
    (hroom : GpuRoom state (gpuTotal load.sizes) deviceId mallocOk) :
    ArenaInv ({ state with downloading := downloading }.gpuAllocate load deviceId mallocOk) := by
  have hgpu := hinv.gpu.allocate load.id hfit htotal hroom
  have hloads' : ∀ next ∈ downloading, SizesFit next.sizes :=
    fun next hnext => hinv.loads next (hloads hnext)
  unfold ArenaState.gpuAllocate
  dsimp only
  generalize allocateFromGpuArenaUnlocked state.gpu (gpuTotal load.sizes)
    deviceId mallocOk = result at hgpu ⊢
  obtain ⟨gpu, placed⟩ := result
  cases placed with
  | none => exact ⟨hinv.cpu.sublist filter_sublist, hgpu, hloads'⟩
  | some placement => exact ⟨hinv.cpu, hgpu, hloads'⟩

theorem arenaInv_step (state : ArenaState) (action : ArenaAction) (next : ArenaState)
    (hinv : ArenaInv state) (hroom : ArenaRoom state action)
    (hstep : state.step action = some next) : ArenaInv next := by
  cases action with
  | batchLoad sizes deviceId =>
    simp only [ArenaState.step] at hstep
    split at hstep
    · cases hstep
      exact hinv
    · cases hstep
      exact hinv.batchLoad hroom
  | loadFails index =>
    simp only [ArenaState.step] at hstep
    split at hstep
    · cases hstep
    · next hpick =>
      cases hstep
      exact hinv.release (fun _ => mem_of_pick_others hpick) filter_sublist (.refl _)
  | returnsCpu index =>
    simp only [ArenaState.step] at hstep
    split at hstep
    · cases hstep
    · next hpick =>
      split at hstep
      · cases hstep
        exact hinv.release (fun _ => mem_of_pick_others hpick)
          (.refl _) (.refl _)
      · cases hstep
  | gpuAllocate index mallocOk =>
    simp only [ArenaState.step] at hstep
    split at hstep
    · cases hstep
    · next before load after hpick =>
      split at hstep
      · cases hstep
      · next deviceId hdevice =>
        split at hstep
        · cases hstep
        · next htotal =>
          cases hstep
          exact hinv.gpuAllocate (hinv.loads load (mem_of_pick hpick)) htotal
            (fun _ => mem_of_pick_others hpick)
            (hroom before load after deviceId hpick hdevice)
  | copyFails index =>
    simp only [ArenaState.step] at hstep
    split at hstep
    · cases hstep
    · cases hstep
      exact hinv.release (List.Subset.refl _) filter_sublist filter_sublist
  | returnsGpu index =>
    simp only [ArenaState.step] at hstep
    split at hstep
    · cases hstep
    · cases hstep
      exact hinv.release (List.Subset.refl _) (.refl _) (.refl _)
  | dropCpu owner =>
    simp only [ArenaState.step] at hstep
    split at hstep
    · cases hstep
    · cases hstep
      exact hinv.release (List.Subset.refl _) filter_sublist (.refl _)
  | dropGpu owner =>
    simp only [ArenaState.step] at hstep
    split at hstep
    · cases hstep
    · cases hstep
      exact hinv.release (List.Subset.refl _) (.refl _) filter_sublist

/-- Every run whose steps respect the arenas leaves every referenced region
valid. -/
theorem arenasSafe_of_meets {capacity : Nat} {actions : List ArenaAction} {final : ArenaState}
    (hmeets : Meets ArenaState.step ArenaRoom (ArenaState.initial capacity) actions)
    (hrun : runFrom ArenaState.step (ArenaState.initial capacity) actions = some final) :
    ArenasSafe final :=
  (run_invariant arenaInv_step (arenaInv_initial capacity) hmeets hrun).safe

/-- A 16 KiB arena in which the second batch wraps to the start after the first
caller dropped its tensors. -/
def arenaReuse : List ArenaAction :=
  [.batchLoad [5000] (some 0), .gpuAllocate 0 true, .returnsGpu 0,
    .batchLoad [4096] none, .dropCpu 0, .batchLoad [8192] none]

theorem arenasSafe_arenaReuse :
    ∃ final, runFrom ArenaState.step (ArenaState.initial 16384) arenaReuse =
      some final ∧ ArenasSafe final := by
  obtain ⟨final, hrun⟩ : ∃ final, runFrom ArenaState.step
      (ArenaState.initial 16384) arenaReuse = some final := ⟨_, rfl⟩
  refine ⟨final, hrun, arenasSafe_of_meets ?_ hrun⟩
  refine meets_cons ⟨by decide, fun _ => by decide⟩ rfl ?_
  refine meets_cons ?_ rfl ?_
  · intro before load after deviceId hpick hdevice
    cases hpick
    cases hdevice
    exact ⟨rfl, by decide⟩
  refine meets_cons trivial rfl ?_
  refine meets_cons ⟨by decide, fun _ => by decide⟩ rfl ?_
  refine meets_cons trivial rfl ?_
  exact meets_cons ⟨by decide, fun _ => by decide⟩ rfl trivial

/-- Three loads of one block each in an arena of two blocks: the third load is
given the bytes the first caller still holds. -/
theorem not_arenasSafe_after_wrap : ∃ final, runFrom ArenaState.step (ArenaState.initial 8192)
    [.batchLoad [4096] none, .returnsCpu 0, .batchLoad [4096] none,
      .batchLoad [4096] none] = some final ∧ ¬ ArenasSafe final := by
  refine ⟨_, rfl, ?_⟩
  intro hsafe
  exact absurd hsafe.cpu_separate (by decide)

end CatKV
