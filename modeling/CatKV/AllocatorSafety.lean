/-
The free list allocator keeps its buffer partitioned: what is given back goes
into the gap it came from, what is taken comes out of one free block, and a
batched free joins objects only where they touch.
-/
import CatKV.TensorAllocator

namespace CatKV

open List

/-! Giving a block back. -/

/-- The list takes the block in, whole. -/
structure Absorbs (blocks : List Interval) (block : Interval) (next : List Interval) : Prop where
  free : IsFreeList next
  cover : ∀ position, coverCount next position =
    coverCount blocks position + coverCount [block] position
  size : totalSize next = totalSize blocks + block.size

section Return

variable {before after : List Interval} {block prev succ : Interval}

theorem coverCount_touching {first second : Interval}
    (htouch : first.stop = second.start) (position : Nat) :
    coverCount [⟨first.start, first.size + second.size⟩] position =
      coverCount [first] position + coverCount [second] position := by
  rw [coverCount_merge]
  have hsecond : second = ⟨first.start + first.size, second.size⟩ := by
    cases second
    simpa [Interval.stop] using htouch.symm
  rw [← hsecond]

theorem absorbs_between (hfree : IsFreeList (before ++ after)) (hsize : 0 < block.size)
    (hbefore : ∀ other ∈ before, other.stop < block.start)
    (hafter : ∀ other ∈ after, block.stop < other.start) :
    Absorbs (before ++ after) block (before ++ block :: after) where
  free := hfree.insert hsize hbefore hafter
  cover position := by
    rw [coverCount_append, coverCount_append, coverCount_cons]
    omega
  size := by
    rw [totalSize_append, totalSize_append, totalSize_cons]
    omega

theorem Absorbs.merge {other merged : Interval} {next : List Interval}
    (hcover : ∀ position, coverCount [merged] position =
      coverCount [other] position + coverCount [block] position)
    (hsize : merged.size = other.size + block.size)
    (habsorbs : Absorbs (before ++ after) merged next) :
    Absorbs (before ++ other :: after) block next where
  free := habsorbs.free
  cover position := by
    rw [habsorbs.cover, hcover, coverCount_append, coverCount_append, coverCount_cons other after]
    omega
  size := by
    rw [habsorbs.size, hsize, totalSize_append, totalSize_append, totalSize_cons]
    omega

theorem getElem?_before (before after : List Interval) : (if before.length = 0 then none
    else (before ++ after)[before.length - 1]?) = before.getLast? := by
  rcases eq_nil_or_concat before with rfl | ⟨init, prev, rfl⟩
  · rfl
  · simp

theorem getElem?_after (before after : List Interval) :
    (before ++ after)[before.length]? = after.head? := by
  rw [getElem?_append_right (Nat.le_refl _), Nat.sub_self, head?_eq_getElem?]

theorem filter_getLast?_eq_some {before : List Interval} {block prev : Interval}
    (hprev : before.getLast?.filter (canBeCoalesced · block) = some prev) :
    (∃ init, before = init ++ [prev]) ∧ prev.stop = block.start := by
  rw [Option.filter_eq_some_iff] at hprev
  refine ⟨getLast?_eq_some_iff.mp hprev.1, ?_⟩
  simpa [canBeCoalesced, Interval.stop] using hprev.2

theorem filter_head?_eq_some {after : List Interval} {block succ : Interval}
    (hsucc : after.head?.filter (canBeCoalesced block) = some succ) :
    (∃ tail, after = succ :: tail) ∧ block.stop = succ.start := by
  rw [Option.filter_eq_some_iff] at hsucc
  refine ⟨head?_eq_some_iff.mp hsucc.1, ?_⟩
  simpa [canBeCoalesced, Interval.stop] using hsucc.2

theorem stop_lt_of_filter_getLast? {before after : List Interval} {block : Interval}
    (hfree : IsFreeList (before ++ after)) (hbefore : ∀ other ∈ before, other.stop ≤ block.start)
    (hprev : before.getLast?.filter (canBeCoalesced · block) = none) :
    ∀ other ∈ before, other.stop < block.start := by
  rcases eq_nil_or_concat before with rfl | ⟨init, prev, rfl⟩
  · simp
  · have hnot : prev.stop ≠ block.start := by
      simpa [canBeCoalesced, Interval.stop] using hprev
    have hle := hbefore prev (by simp)
    intro other hother
    rw [concat_eq_append, mem_append, mem_singleton] at hother
    rcases hother with hinit | rfl
    · rw [concat_eq_append, append_assoc] at hfree
      have hgap := hfree.start_lt_of_append hinit mem_cons_self
      unfold Interval.stop at *
      omega
    · omega

theorem lt_start_of_filter_head? {before after : List Interval} {block : Interval}
    (hfree : IsFreeList (before ++ after)) (hafter : ∀ other ∈ after, block.stop ≤ other.start)
    (hsucc : after.head?.filter (canBeCoalesced block) = none) :
    ∀ other ∈ after, block.stop < other.start := by
  cases after with
  | nil => simp
  | cons succ tail =>
    have hnot : block.stop ≠ succ.start := by
      simpa [canBeCoalesced, Interval.stop] using hsucc
    have hle := hafter succ mem_cons_self
    intro other hother
    rcases mem_cons.mp hother with rfl | htail
    · omega
    · have hspaced := (pairwise_append.mp hfree.spaced).2.1
      have hgap := (pairwise_cons.mp hspaced).1 other htail
      unfold Interval.stop at *
      omega

theorem absorbs_succ {before tail : List Interval} {block succ : Interval}
    (hfree : IsFreeList (before ++ succ :: tail)) (hsize : 0 < block.size)
    (htouch : block.stop = succ.start) (hbefore : ∀ other ∈ before, other.stop < block.start) :
    Absorbs (before ++ succ :: tail) block
      (before ++ ⟨block.start, block.size + succ.size⟩ :: tail) := by
  have hspaced := (pairwise_append.mp hfree.spaced).2.1
  have htail := (pairwise_cons.mp hspaced).1
  have hmerged : Absorbs (before ++ tail) ⟨block.start, block.size + succ.size⟩
      (before ++ ⟨block.start, block.size + succ.size⟩ :: tail) := by
    apply absorbs_between hfree.of_cons_middle
    · exact Nat.lt_of_lt_of_le hsize (Nat.le_add_right _ _)
    · exact hbefore
    · intro other hother
      have hgap := htail other hother
      unfold Interval.stop at *
      dsimp only
      omega
  apply hmerged.merge
  · intro position
    rw [coverCount_touching htouch, Nat.add_comm]
  · exact Nat.add_comm _ _

/-- The neighbour before the block grows by it, and by the one behind it if
the block touches both. -/
theorem absorbs_prev {init after : List Interval} {block prev : Interval}
    (hfree : IsFreeList (init ++ prev :: after)) (htouch : prev.stop = block.start)
    {next : List Interval} (hnext : (∀ other ∈ init, other.stop < prev.start) →
      0 < prev.size + block.size → Absorbs (init ++ after)
        ⟨prev.start, prev.size + block.size⟩ next) :
    Absorbs (init ++ prev :: after) block next := by
  have hprev := hfree.nonempty prev (mem_append_right _ mem_cons_self)
  have hmerged := hnext (fun other hother =>
    hfree.start_lt_of_append hother mem_cons_self) (by omega)
  apply hmerged.merge
  · exact fun position => coverCount_touching htouch position
  · rfl

theorem set_last (init after : List Interval) (prev block : Interval) :
    (init ++ [prev] ++ after).set ((init ++ [prev]).length - 1) block = init ++ block :: after := by
  simp

theorem returnBlock_absorbs {blocks : List Interval} {block : Interval} (hfree : IsFreeList blocks)
    (hsize : 0 < block.size) (hapart : ∀ other ∈ blocks, block.Separate other) :
    ∃ next, returnBlock blocks block = some next ∧ Absorbs blocks block next := by
  obtain ⟨before, after, rfl, hbefore, hafter⟩ := hfree.exists_between hapart
  have hstarts : ∀ other ∈ before, other.start ≤ block.start := by
    intro other hother
    have hstop := hbefore other hother
    unfold Interval.stop at hstop
    omega
  have hlater : ∀ other ∈ after, block.start < other.start := by
    intro other hother
    have hstop := hafter other hother
    unfold Interval.stop at hstop
    omega
  rw [returnBlock, bisectRight_between hstarts hlater, coalesce, getElem?_before, getElem?_after]
  dsimp only
  cases hprev : before.getLast?.filter (canBeCoalesced · block) with
  | none =>
    have hgap := stop_lt_of_filter_getLast? hfree hbefore hprev
    cases hsucc : after.head?.filter (canBeCoalesced block) with
    | none =>
      refine ⟨_, congrArg some (addBlock_between hstarts hlater), ?_⟩
      exact absorbs_between hfree hsize hgap (lt_start_of_filter_head? hfree hafter hsucc)
    | some succ =>
      obtain ⟨⟨tail, rfl⟩, htouch⟩ := filter_head?_eq_some hsucc
      have hmerged : (⟨succ.start - block.size, succ.size + block.size⟩ :
          Interval) = ⟨block.start, block.size + succ.size⟩ := by
        unfold Interval.stop at htouch
        rw [Interval.mk.injEq]
        omega
      refine ⟨_, ?_, absorbs_succ hfree hsize htouch hgap⟩
      dsimp only
      rw [removeBlock_between hfree.not_mem_before, hmerged]
      refine congrArg some (addBlock_between hstarts ?_)
      exact fun other hother =>
        hlater other (mem_cons_of_mem _ hother)
  | some prev =>
    obtain ⟨⟨init, rfl⟩, htouch⟩ := filter_getLast?_eq_some hprev
    have hfree' : IsFreeList (init ++ prev :: after) := by
      simpa using hfree
    cases hsucc : after.head?.filter (canBeCoalesced block) with
    | none =>
      have hgap := lt_start_of_filter_head? hfree hafter hsucc
      refine ⟨_, congrArg some (set_last init after prev _), ?_⟩
      rw [append_assoc]
      apply absorbs_prev hfree' htouch
      intro hinit hpos
      apply absorbs_between hfree'.of_cons_middle
      · exact hpos
      · exact hinit
      · intro other hother
        have hlt := hgap other hother
        unfold Interval.stop at *
        dsimp only
        omega
    | some succ =>
      obtain ⟨⟨tail, rfl⟩, htouch'⟩ := filter_head?_eq_some hsucc
      refine ⟨init ++ ⟨prev.start, prev.size + block.size + succ.size⟩ :: tail, ?_, ?_⟩
      · dsimp only
        rw [set_last, ← singleton_append, ← append_assoc, removeBlock_between]
        · simp [Nat.add_assoc]
        · intro hmem
          rcases mem_append.mp hmem with hinit | hgrown
          · exact hfree.not_mem_before (mem_append_left _ hinit)
          · have hgap := hfree.start_lt_of_append (mem_append_right _ mem_cons_self) mem_cons_self
            rw [mem_singleton.mp hgrown] at hgap
            unfold Interval.stop at hgap
            dsimp only at hgap
            omega
      · rw [append_assoc]
        apply absorbs_prev hfree' htouch
        intro hinit hpos
        apply absorbs_succ hfree'.of_cons_middle
        · exact hpos
        · unfold Interval.stop at *
          dsimp only
          omega
        · exact hinit

/-- Blocks that share no position with each other or the list are taken in
one after the other. -/
theorem returnBlocks_absorb {newFreeBlocks blocks : List Interval} (hfree : IsFreeList blocks)
    (hsizes : ∀ block ∈ newFreeBlocks, 0 < block.size)
    (hcover : ∀ position, coverCount newFreeBlocks position + coverCount blocks position ≤ 1) :
    ∃ next, newFreeBlocks.foldlM returnBlock blocks = some next ∧ IsFreeList next ∧
      (∀ position, coverCount next position =
        coverCount blocks position + coverCount newFreeBlocks position) ∧
      totalSize next = totalSize blocks + totalSize newFreeBlocks := by
  induction newFreeBlocks generalizing blocks with
  | nil => exact ⟨blocks, rfl, hfree, fun _ => rfl, rfl⟩
  | cons block rest ih =>
    have hsplit := fun position => coverCount_cons block rest position
    have hsize := hsizes block mem_cons_self
    have hapart : ∀ other ∈ blocks, block.Separate other := by
      intro other hother
      apply separate_of_coverCount_le _ hother hsize (hfree.nonempty other hother)
      intro position
      have hposition := hcover position
      rw [hsplit] at hposition
      omega
    obtain ⟨middle, hmiddle, habsorbs⟩ := returnBlock_absorbs hfree hsize hapart
    obtain ⟨next, hnext, hfree', hcover',
      hsize'⟩ := ih habsorbs.free (fun other hother => hsizes other (mem_cons_of_mem _ hother)) (by
        intro position
        have hposition := hcover position
        rw [hsplit] at hposition
        rw [habsorbs.cover]
        omega)
    refine ⟨next, ?_, hfree', ?_, ?_⟩
    · rw [foldlM_cons, hmiddle]
      exact hnext
    · intro position
      rw [hcover', habsorbs.cover, hsplit]
      omega
    · rw [hsize', habsorbs.size, totalSize_cons]
      omega

end Return

/-! Taking a block. -/

theorem takeBlock_spec {blocks : List Interval} (hfree : IsFreeList blocks) (size : Nat) :
    takeBlock blocks size = some none ∨
      ∃ block next, takeBlock blocks size = some (some (block, next)) ∧ IsFreeList next ∧
        (∀ position, coverCount blocks position = coverCount next position +
          coverCount [⟨block.start, size⟩] position) ∧
        totalSize blocks = totalSize next + size := by
  unfold takeBlock
  cases hfound : blocks.find? fun block => decide (size ≤ block.size) with
  | none => exact Or.inl rfl
  | some block =>
    right
    have hfits : size ≤ block.size := by
      simpa using find?_some hfound
    obtain ⟨before, after, rfl⟩ := append_of_mem (mem_of_find?_eq_some hfound)
    have hsize := hfree.nonempty block (mem_append_right _ mem_cons_self)
    have hspaced := (pairwise_append.mp hfree.spaced).2.1
    have hafter := (pairwise_cons.mp hspaced).1
    have hbefore : ∀ other ∈ before, other.stop < block.start :=
      fun other hother => hfree.start_lt_of_append hother mem_cons_self
    dsimp only
    rw [removeBlock_between hfree.not_mem_before, Option.map_some]
    by_cases hmore : size < block.size
    · have hadded : addBlock ⟨block.start + size, block.size - size⟩ (before ++ after) = before ++
            ⟨block.start + size, block.size - size⟩ :: after := by
        apply addBlock_between
        · intro other hother
          have hgap := hbefore other hother
          unfold Interval.stop at hgap
          dsimp only
          omega
        · intro other hother
          have hgap := hafter other hother
          unfold Interval.stop at hgap
          dsimp only
          omega
      refine ⟨block, _, by rw [if_pos hmore, hadded], ?_, ?_, ?_⟩
      · apply hfree.of_cons_middle.insert
        · exact Nat.sub_pos_of_lt hmore
        · intro other hother
          have hgap := hbefore other hother
          dsimp only
          omega
        · intro other hother
          have hgap := hafter other hother
          unfold Interval.stop at *
          dsimp only
          omega
      · intro position
        have hcut := coverCount_merge block.start size (block.size - size) position
        rw [Nat.add_sub_cancel' hfits] at hcut
        rw [coverCount_append, coverCount_append,
          coverCount_cons block after, coverCount_cons _ after, hcut]
        omega
      · rw [totalSize_append, totalSize_append, totalSize_cons, totalSize_cons]
        dsimp only
        omega
    · have hwhole : size = block.size := by omega
      subst hwhole
      refine ⟨block, _, by rw [if_neg hmore], hfree.of_cons_middle, ?_, ?_⟩
      · intro position
        change _ = _ + coverCount [block] position
        rw [coverCount_append, coverCount_append, coverCount_cons block after]
        omega
      · rw [totalSize_append, totalSize_append, totalSize_cons]
        omega

/-! The objects. -/

theorem exists_split_set {objects : List TensorMemoryObj} {id : Nat} {obj : TensorMemoryObj}
    (hobj : objects[id]? = some obj) (other : TensorMemoryObj) :
    ∃ before after, objects = before ++ obj :: after ∧
      objects.set id other = before ++ other :: after := by
  obtain ⟨hlt, rfl⟩ := List.getElem?_eq_some_iff.mp hobj
  obtain ⟨before, after, hsplit, -, hset⟩ := List.exists_of_set hlt
  exact ⟨before, after, hsplit, hset⟩

@[simp]
theorem liveIntervals_append (first rest : List TensorMemoryObj) : liveIntervals (first ++ rest) =
    liveIntervals first ++ liveIntervals rest := by
  simp [liveIntervals]

theorem liveIntervals_cons (obj : TensorMemoryObj) (rest : List TensorMemoryObj) :
    liveIntervals (obj :: rest) =
      if obj.valid then obj.interval :: liveIntervals rest
      else liveIntervals rest := by
  unfold liveIntervals
  rw [filter_cons]
  split <;> rfl

theorem liveIntervals_invalidate {objects : List TensorMemoryObj} {id : Nat} {obj : TensorMemoryObj}
    (hobj : objects[id]? = some obj) (hvalid : obj.valid = true) :
    (∀ position, coverCount (liveIntervals objects) position =
      coverCount (liveIntervals (objects.set id obj.invalidate)) position +
        coverCount [obj.interval] position) ∧
      totalSize (liveIntervals objects) =
        totalSize (liveIntervals (objects.set id obj.invalidate)) + obj.phySize ∧
      (liveIntervals objects).length =
        (liveIntervals (objects.set id obj.invalidate)).length + 1 := by
  obtain ⟨before, after, rfl, hset⟩ := exists_split_set hobj obj.invalidate
  have hinvalid : obj.invalidate.valid = false := rfl
  rw [hset, liveIntervals_append, liveIntervals_append, liveIntervals_cons,
    liveIntervals_cons, if_pos hvalid, hinvalid, if_neg Bool.false_ne_true]
  refine ⟨?_, ?_, ?_⟩
  · intro position
    rw [coverCount_append, coverCount_append, coverCount_cons obj.interval]
    omega
  · rw [totalSize_append, totalSize_append, totalSize_cons]
    simp only [TensorMemoryObj.interval]
    omega
  · simp only [length_append, length_cons]
    omega

/-! The loop of a batched free. -/

/-- What the loop has collected and what is still live make up what was live
before it. -/
structure FreeRunInv (objects : List TensorMemoryObj) (run : FreeRun) : Prop where
  cover : ∀ position, coverCount run.blocks position +
    coverCount (liveIntervals run.objects) position = coverCount (liveIntervals objects) position
  size : totalSize run.blocks + totalSize (liveIntervals run.objects) =
    totalSize (liveIntervals objects)
  count : run.numValidBlocks + (liveIntervals run.objects).length = (liveIntervals objects).length
  freed : run.totalFreedSize = totalSize run.blocks
  nonempty : ∀ block ∈ run.blocks, 0 < block.size
  origin : ∀ obj ∈ run.objects, ∃ old ∈ objects,
    old.interval = obj.interval ∧ old.rawData = obj.rawData

section Loop

variable {objects : List TensorMemoryObj} {run : FreeRun} {obj : TensorMemoryObj}

/-- An object is joined to the current block only where that one ends. -/
def FreeRun.Aims (run : FreeRun) (obj : TensorMemoryObj) : Prop :=
  ∀ block, run.newFreeBlock = some block → run.currStart = obj.address → run.currStart = block.stop

theorem join_blocks (haims : run.Aims obj) :
    (∀ position, coverCount (run.join obj).blocks position = coverCount run.blocks position +
        coverCount [obj.interval] position) ∧
      totalSize (run.join obj).blocks = totalSize run.blocks + obj.phySize ∧
      ((∀ block ∈ run.blocks, 0 < block.size) → 0 < obj.phySize →
        ∀ block ∈ (run.join obj).blocks, 0 < block.size) := by
  unfold FreeRun.join
  split
  · next hnone =>
    simp only [FreeRun.blocks, hnone, Option.toList_none, Option.toList_some, append_nil]
    refine ⟨fun position => coverCount_append .., ?_, ?_⟩
    · simp [TensorMemoryObj.interval]
    · exact fun hblocks hobj => forall_mem_concat hblocks hobj
  · next block hsome =>
    split
    · next haddress =>
      have htouch : block.stop = obj.interval.start :=
        (haims block hsome haddress).symm.trans haddress
      simp only [FreeRun.blocks, hsome, Option.toList_some]
      refine ⟨fun position => ?_, ?_, ?_⟩
      · have hgrown := coverCount_touching htouch position
        simp only [TensorMemoryObj.interval] at hgrown ⊢
        rw [coverCount_append, coverCount_append, hgrown, Nat.add_assoc]
      · simp [Nat.add_assoc]
      · intro hblocks hobj
        exact forall_mem_concat (forall_mem_append.mp hblocks).1 (Nat.add_pos_right _ hobj)
    · simp only [FreeRun.blocks, hsome, Option.toList_some]
      refine ⟨fun position => coverCount_append .., ?_, ?_⟩
      · simp [TensorMemoryObj.interval, Nat.add_assoc]
      · exact fun hblocks hobj => forall_mem_concat hblocks hobj

/-- After a valid object the pointer stands at the end of the current block,
unless that object was the first one. -/
theorem join_pointer {block : Interval} (hblock : run.newFreeBlock = some block)
    (haims : run.Aims obj) :
    ∃ next, (run.join obj).newFreeBlock = some next ∧ (run.join obj).currStart = next.stop := by
  unfold FreeRun.join
  rw [hblock]
  dsimp only
  split
  · next haddress =>
    refine ⟨_, rfl, ?_⟩
    have hstop := haims block hblock haddress
    unfold Interval.stop at *
    dsimp only
    omega
  · exact ⟨_, rfl, rfl⟩

theorem join_objects (run : FreeRun) (obj : TensorMemoryObj) :
    (run.join obj).objects = run.objects ∧ (run.join obj).numValidBlocks = run.numValidBlocks ∧
      (run.join obj).totalFreedSize = run.totalFreedSize := by
  unfold FreeRun.join
  split
  · exact ⟨rfl, rfl, rfl⟩
  · split <;> exact ⟨rfl, rfl, rfl⟩

theorem visit_eq_of_not_valid {id : Nat}
    (hnot : ∀ obj, run.objects[id]? = some obj → obj.valid = false) : run.visit id = run := by
  unfold FreeRun.visit
  split
  · rfl
  · next obj hobj => simp [hnot obj hobj]

theorem visit_eq_of_valid {id : Nat} (hobj : run.objects[id]? = some obj)
    (hvalid : obj.valid = true) : run.visit id = (run.mark id obj).join obj := by
  simp [FreeRun.visit, hobj, hvalid]

theorem FreeRunInv.visit (hinv : FreeRunInv objects run) {id : Nat}
    (hobj : run.objects[id]? = some obj) (hvalid : obj.valid = true)
    (hsizes : ∀ old ∈ objects, 0 < old.phySize) (haims : run.Aims obj) :
    FreeRunInv objects (run.visit id) := by
  obtain ⟨hcover, hsize, hcount⟩ := liveIntervals_invalidate hobj hvalid
  obtain ⟨old, hold, hinterval, -⟩ := hinv.origin obj (mem_of_getElem? hobj)
  have hpos : 0 < obj.phySize := by
    have hphy : old.phySize = obj.phySize := congrArg Interval.size hinterval
    exact hphy ▸ hsizes old hold
  rw [visit_eq_of_valid hobj hvalid]
  have haims' : (run.mark id obj).Aims obj := haims
  have hblocks : (run.mark id obj).blocks = run.blocks := rfl
  obtain ⟨hcover', hsize', hnonempty⟩ := join_blocks haims'
  rw [hblocks] at hcover' hsize' hnonempty
  obtain ⟨hobjects, hvalidBlocks, hfreed⟩ :
      ((run.mark id obj).join obj).objects = run.objects.set id obj.invalidate ∧
        ((run.mark id obj).join obj).numValidBlocks = run.numValidBlocks + 1 ∧
        ((run.mark id obj).join obj).totalFreedSize = run.totalFreedSize + obj.phySize :=
    join_objects (run.mark id obj) obj
  constructor
  · intro position
    rw [hobjects, hcover', ← hinv.cover, hcover]
    omega
  · rw [hobjects, hsize', ← hinv.size, hsize]
    omega
  · rw [hobjects, hvalidBlocks, ← hinv.count, hcount]
    omega
  · rw [hfreed, hsize', ← hinv.freed]
  · exact hnonempty hinv.nonempty hpos
  · rw [hobjects]
    intro other hother
    rcases mem_or_eq_of_mem_set hother with hkept | rfl
    · exact hinv.origin other hkept
    · exact hinv.origin obj (mem_of_getElem? hobj)

/-- The pointer is right, or will not be followed. -/
def FreeRun.Ready (run : FreeRun) (ids : List Nat) : Prop :=
  match run.newFreeBlock with
  | none => startsRight run.objects run.currStart ids = true
  | some block => run.currStart = block.stop ∨ nextFits run.objects run.currStart block ids = true

theorem FreeRun.Ready.skip {id : Nat} {rest : List Nat} (hready : run.Ready (id :: rest))
    (hnot : ∀ obj, run.objects[id]? = some obj → obj.valid = false) : run.Ready rest := by
  unfold Ready at *
  split at hready
  · unfold startsRight at hready
    split at hready
    · exact hready
    · next obj hobj => simpa [hnot obj hobj] using hready
  · apply hready.imp_right
    intro hfits
    unfold nextFits at hfits
    split at hfits
    · exact hfits
    · next obj hobj => simpa [hnot obj hobj] using hfits

theorem FreeRun.Ready.visit {id : Nat} {rest : List Nat} (hready : run.Ready (id :: rest))
    (hobj : run.objects[id]? = some obj) (hvalid : obj.valid = true) :
    run.Aims obj ∧ (run.visit id).Ready rest := by
  unfold FreeRun.Ready at hready
  cases hblock : run.newFreeBlock with
  | none =>
    rw [hblock] at hready
    have hfits : nextFits (run.objects.set id obj.invalidate)
        (run.currStart + obj.phySize) obj.interval rest = true := by
      simpa [startsRight, hobj, hvalid] using hready
    constructor
    · intro block hsome
      rw [hblock] at hsome
      cases hsome
    · rw [visit_eq_of_valid hobj hvalid, FreeRun.join,
        show (run.mark id obj).newFreeBlock = none from hblock]
      exact Or.inr hfits
  | some block =>
    rw [hblock] at hready
    have haims : run.Aims obj := by
      intro other hsome haddress
      cases hblock.symm.trans hsome
      rcases hready with hstop | hfits
      · exact hstop
      · simpa [nextFits, hobj, hvalid, haddress] using hfits
    refine ⟨haims, ?_⟩
    rw [visit_eq_of_valid hobj hvalid]
    obtain ⟨next, hnext, hstop⟩ := join_pointer
      (show (run.mark id obj).newFreeBlock = some block from hblock) haims
    rw [FreeRun.Ready, hnext]
    exact Or.inl hstop

theorem FreeRunInv.foldl_visit {ids : List Nat} (hinv : FreeRunInv objects run)
    (hready : run.Ready ids) (hsizes : ∀ old ∈ objects, 0 < old.phySize) :
    FreeRunInv objects (ids.foldl FreeRun.visit run) := by
  induction ids generalizing run with
  | nil => exact hinv
  | cons id rest ih =>
    rw [foldl_cons]
    by_cases hvalid : ∃ obj, run.objects[id]? = some obj ∧ obj.valid = true
    · obtain ⟨obj, hobj, hvalid⟩ := hvalid
      obtain ⟨haims, hready'⟩ := hready.visit hobj hvalid
      exact ih (hinv.visit hobj hvalid hsizes haims) hready'
    · have hnot : ∀ obj, run.objects[id]? = some obj → obj.valid = false := by
        intro obj hobj
        by_contra hother
        exact hvalid ⟨obj, hobj, by simpa using hother⟩
      rw [visit_eq_of_not_valid hnot]
      exact ih hinv (hready.skip hnot)

end Loop

/-! Whole runs. -/

theorem computeAlignedSize_eq (rawSize bits : Nat) : computeAlignedSize rawSize (2 ^ bits) =
    (rawSize + 2 ^ bits - 1) / 2 ^ bits * 2 ^ bits := by
  apply Nat.eq_of_testBit_eq
  intro index
  rw [computeAlignedSize, Nat.testBit_ldiff, Nat.testBit_two_pow_sub_one,
    ← Nat.shiftRight_eq_div_pow, ← Nat.shiftLeft_eq, Nat.testBit_shiftLeft, Nat.testBit_shiftRight]
  by_cases hindex : index < bits
  · simp [hindex]
  · simp [hindex, Nat.le_of_not_lt hindex]

theorem le_alignedSize {allocator : TensorMemoryAllocator} {bits : Nat}
    (halign : allocator.alignBytes = 2 ^ bits) (rawSize : Nat) :
    rawSize ≤ allocator.alignedSize rawSize := by
  unfold TensorMemoryAllocator.alignedSize
  split
  · rw [halign, computeAlignedSize_eq]
    have hpos : 0 < 2 ^ bits := Nat.two_pow_pos bits
    have hdiv := Nat.div_add_mod (rawSize + 2 ^ bits - 1) (2 ^ bits)
    have hmod := Nat.mod_lt (rawSize + 2 ^ bits - 1) hpos
    rw [Nat.mul_comm] at hdiv
    omega
  · exact Nat.le_refl _

/-- The invariant of the allocator. -/
structure AllocatorInv (allocator : TensorMemoryAllocator) : Prop where
  free : IsFreeList allocator.explicitList
  shares : Shares allocator.bufferSize (allocator.explicitList ++ liveIntervals allocator.objects)
  sizes : totalSize allocator.explicitList +
    totalSize (liveIntervals allocator.objects) = allocator.bufferSize
  total : allocator.totalAllocatedSize = totalSize (liveIntervals allocator.objects)
  active : allocator.numActiveAllocations = (liveIntervals allocator.objects).length
  bytes : ∀ obj ∈ allocator.objects, obj.rawData.Within obj.interval
  nonempty : ∀ obj ∈ allocator.objects, 0 < obj.phySize
  align : ∃ bits, allocator.alignBytes = 2 ^ bits

/-- The objects made for an allocation tile what it takes. -/
structure Fills (size start : Nat) (made : List TensorMemoryObj) : Prop where
  cover : ∀ position, coverCount (liveIntervals made) position = coverCount [⟨start, size⟩] position
  size : totalSize (liveIntervals made) = size
  valid : ∀ obj ∈ made, obj.valid = true
  bytes : ∀ obj ∈ made, obj.rawData.Within obj.interval
  nonempty : ∀ obj ∈ made, 0 < obj.phySize

theorem length_liveIntervals {made : List TensorMemoryObj}
    (hvalid : ∀ obj ∈ made, obj.valid = true) : (liveIntervals made).length = made.length := by
  rw [liveIntervals, filter_eq_self.mpr hvalid, length_map]

theorem fills_object {rawSize alignedSize : Nat} (start : Nat)
    (hsize : rawSize ≤ alignedSize) (hpos : 0 < alignedSize) :
    Fills alignedSize start [⟨⟨1, 0⟩, start, alignedSize, ⟨start, rawSize⟩, true⟩] where
  cover _ := rfl
  size := rfl
  valid := by simp
  bytes := by simp [Interval.Within, Interval.stop, TensorMemoryObj.interval, hsize]
  nonempty := by simp [hpos]

theorem Fills.append {start first second : Nat} {made more : List TensorMemoryObj}
    (hmade : Fills first start made) (hmore : Fills second (start + first) more) :
    Fills (first + second) start (made ++ more) where
  cover position := by
    rw [liveIntervals_append, coverCount_append, hmade.cover, hmore.cover, coverCount_merge]
  size := by
    rw [liveIntervals_append, totalSize_append, hmade.size, hmore.size]
  valid := forall_mem_append.mpr ⟨hmade.valid, hmore.valid⟩
  bytes := forall_mem_append.mpr ⟨hmade.bytes, hmore.bytes⟩
  nonempty := forall_mem_append.mpr ⟨hmade.nonempty, hmore.nonempty⟩

theorem fills_batch {unitAlignedSize : Nat} (start batchSize : Nat) (hpos : 0 < unitAlignedSize) :
    Fills (unitAlignedSize * batchSize) start ((List.range batchSize).map fun index =>
        ⟨⟨1, 0⟩, start + index * unitAlignedSize, unitAlignedSize,
          ⟨start + index * unitAlignedSize, unitAlignedSize⟩, true⟩) := by
  induction batchSize with
  | zero =>
    constructor <;> simp [liveIntervals, coverCount, Interval.covers, Interval.stop]
  | succ batchSize ih =>
    rw [range_succ, map_append, map_singleton, Nat.mul_succ, Nat.mul_comm batchSize]
    apply ih.append
    exact fills_object _ (Nat.le_refl _) hpos

theorem FreeRunInv.start (objects : List TensorMemoryObj) (address : Nat) :
    FreeRunInv objects ⟨objects, none, address, [], 0, 0⟩ where
  cover _ := by simp [FreeRun.blocks]
  size := by simp [FreeRun.blocks]
  count := by simp
  freed := rfl
  nonempty := by simp [FreeRun.blocks]
  origin obj hobj := ⟨obj, hobj, rfl, rfl⟩

namespace AllocatorInv

variable {allocator : TensorMemoryAllocator}

theorem start {bufferSize : Nat} (hsize : 0 < bufferSize) (bits : Nat) :
    AllocatorInv (TensorMemoryAllocator.start bufferSize (2 ^ bits)) where
  free := {
    nonempty := by simpa [TensorMemoryAllocator.start] using hsize
    spaced := pairwise_singleton _ _ }
  shares position := by
    change coverCount [⟨0, bufferSize⟩] position =
      if position < bufferSize then 1 else 0
    rw [coverCount_singleton]
    simp
  sizes := by simp [TensorMemoryAllocator.start, liveIntervals, totalSize]
  total := rfl
  active := rfl
  bytes := by simp [TensorMemoryAllocator.start]
  nonempty := by simp [TensorMemoryAllocator.start]
  align := ⟨bits, rfl⟩

section Origin

variable {objects : List TensorMemoryObj} (horigin : ∀ obj ∈ objects, ∃ old ∈ allocator.objects,
    old.interval = obj.interval ∧ old.rawData = obj.rawData)
include horigin

theorem bytes_of_origin (hinv : AllocatorInv allocator) :
    ∀ obj ∈ objects, obj.rawData.Within obj.interval := by
  intro obj hobj
  obtain ⟨old, hold, hinterval, hbytes⟩ := horigin obj hobj
  rw [← hinterval, ← hbytes]
  exact hinv.bytes old hold

theorem nonempty_of_origin (hinv : AllocatorInv allocator) : ∀ obj ∈ objects, 0 < obj.phySize := by
  intro obj hobj
  obtain ⟨old, hold, hinterval, _⟩ := horigin obj hobj
  have hsize : old.phySize = obj.phySize := congrArg Interval.size hinterval
  rw [← hsize]
  exact hinv.nonempty old hold

end Origin

section

variable (hinv : AllocatorInv allocator)

include hinv

theorem cover_le (position : Nat) : coverCount allocator.explicitList position +
    coverCount (liveIntervals allocator.objects) position ≤ 1 := by
  have hposition := hinv.shares position
  rw [coverCount_append] at hposition
  split_ifs at hposition <;> omega

theorem shares_of_cover {blocks live : List Interval}
    (hcover : ∀ position, coverCount blocks position + coverCount live position =
        coverCount allocator.explicitList position +
          coverCount (liveIntervals allocator.objects) position) :
    Shares allocator.bufferSize (blocks ++ live) := by
  intro position
  rw [← hinv.shares position, coverCount_append, coverCount_append, hcover]

theorem memcheck : allocator.memcheck = true := by
  rw [TensorMemoryAllocator.memcheck, Bool.and_eq_true]
  constructor
  · have hsizes := hinv.sizes
    rw [beq_iff_eq, hinv.total]
    omega
  · rw [all_eq_true]
    intro neighbours hneighbours
    have hgap := hinv.free.stop_lt_of_mem_zip hneighbours
    rw [Interval.stop] at hgap
    have hne : neighbours.1.start + neighbours.1.size ≠ neighbours.2.start := by omega
    simp [canBeCoalesced, hne]

theorem sound : allocator.Sound where
  free := hinv.free
  shares := hinv.shares
  disjoint := by
    apply pairwise_separate_of_coverCount_le
    · intro interval hinterval
      obtain ⟨obj, hobj, rfl⟩ := mem_map.mp hinterval
      exact hinv.nonempty obj (mem_of_mem_filter hobj)
    · intro position
      have hposition := hinv.cover_le position
      omega
  total := hinv.total
  active := hinv.active
  bytes := hinv.bytes
  memcheck := hinv.memcheck

theorem grant {size : Nat} {objectsAt : Nat → List TensorMemoryObj}
    (hfills : ∀ start, Fills size start (objectsAt start)) :
    ∃ next, allocator.grant size objectsAt = some next ∧ AllocatorInv next := by
  rcases takeBlock_spec hinv.free size with
    hnone | ⟨block, blocks, htaken, hfree, hcover, hsize⟩
  · refine ⟨allocator, ?_, hinv⟩
    rw [TensorMemoryAllocator.grant, hnone]
    rfl
  · have hmade := hfills block.start
    refine ⟨_, congrArg (Option.map _) htaken, ?_⟩
    constructor
    · exact hfree
    · apply hinv.shares_of_cover
      intro position
      dsimp only
      rw [liveIntervals_append, coverCount_append, hmade.cover, hcover]
      omega
    · have hsizes := hinv.sizes
      simp only [liveIntervals_append, totalSize_append, hmade.size]
      omega
    · simp only [liveIntervals_append, totalSize_append, hmade.size]
      have htotal := hinv.total
      omega
    · have hactive := hinv.active
      simp only [liveIntervals_append, length_append, length_liveIntervals hmade.valid]
      omega
    · exact forall_mem_append.mpr ⟨hinv.bytes, hmade.bytes⟩
    · exact forall_mem_append.mpr ⟨hinv.nonempty, hmade.nonempty⟩
    · exact hinv.align

theorem free_object (id : Nat) : ∃ next, allocator.free id = some next ∧ AllocatorInv next := by
  unfold TensorMemoryAllocator.free
  cases hobj : allocator.objects[id]? with
  | none => exact ⟨allocator, rfl, hinv⟩
  | some obj =>
    cases hvalid : obj.valid with
    | false => exact ⟨allocator, by simp [hvalid], hinv⟩
    | true =>
      obtain ⟨hlive, hsize, hcount⟩ := liveIntervals_invalidate hobj hvalid
      have hmem := mem_of_getElem? hobj
      have hapart : ∀ other ∈ allocator.explicitList, obj.interval.Separate other := by
        intro other hother
        apply separate_of_coverCount_le _ hother
          (hinv.nonempty obj hmem) (hinv.free.nonempty other hother)
        intro position
        have hposition := hinv.cover_le position
        have hsplit := hlive position
        omega
      obtain ⟨blocks, hblocks, habsorbs⟩ := returnBlock_absorbs hinv.free
        (show 0 < obj.interval.size from hinv.nonempty obj hmem) hapart
      simp only [hvalid, hblocks, Bool.not_true, Bool.false_eq_true, if_false, Option.map_some]
      refine ⟨_, rfl, ?_⟩
      have hfields : ∀ other ∈ allocator.objects.set id obj.invalidate,
          ∃ old ∈ allocator.objects, old.interval = other.interval ∧
            old.rawData = other.rawData := by
        intro other hother
        rcases mem_or_eq_of_mem_set hother with hkept | rfl
        · exact ⟨other, hkept, rfl, rfl⟩
        · exact ⟨obj, hmem, rfl, rfl⟩
      have hblock : obj.interval.size = obj.phySize := rfl
      constructor
      · exact habsorbs.free
      · apply hinv.shares_of_cover
        intro position
        dsimp only
        rw [habsorbs.cover, hlive]
        omega
      · have hsizes := hinv.sizes
        have hgrown := habsorbs.size
        dsimp only
        omega
      · have htotal := hinv.total
        dsimp only
        omega
      · have hactive := hinv.active
        dsimp only
        omega
      · exact hinv.bytes_of_origin hfields
      · exact hinv.nonempty_of_origin hfields
      · exact hinv.align

theorem batchedFree {ids : List Nat}
    (hfits : ∀ first, ids.head?.bind (allocator.objects[·]?) = some first →
      startsRight allocator.objects first.address ids = true) :
    ∃ next, allocator.batchedFree ids true = some next ∧ AllocatorInv next := by
  unfold TensorMemoryAllocator.batchedFree
  cases hfirst : ids.head?.bind (allocator.objects[·]?) with
  | none => exact ⟨allocator, rfl, hinv⟩
  | some first =>
    have hrun := (FreeRunInv.start allocator.objects
      first.address).foldl_visit (hfits first hfirst) hinv.nonempty
    dsimp only
    revert hrun
    generalize ids.foldl FreeRun.visit _ = run
    intro hrun
    obtain ⟨blocks, hblocks, hfree, hcover, hsize⟩ :=
      returnBlocks_absorb hinv.free hrun.nonempty (by
        intro position
        have hposition := hinv.cover_le position
        have hlive := hrun.cover position
        omega)
    rw [hblocks]
    refine ⟨_, rfl, ?_⟩
    constructor
    · exact hfree
    · apply hinv.shares_of_cover
      intro position
      dsimp only
      rw [hcover, ← hrun.cover]
      omega
    · have hsizes := hinv.sizes
      have hlive := hrun.size
      dsimp only
      omega
    · have htotal := hinv.total
      have hlive := hrun.size
      have hfreed := hrun.freed
      simp only [if_true]
      omega
    · have hactive := hinv.active
      have hcount := hrun.count
      simp only [if_true]
      omega
    · exact hinv.bytes_of_origin hrun.origin
    · exact hinv.nonempty_of_origin hrun.origin
    · exact hinv.align

theorem step {action : AllocatorAction} (hfits : action.Fits allocator) :
    ∃ next, allocator.step action = some next ∧ AllocatorInv next := by
  obtain ⟨bits, halign⟩ := hinv.align
  cases action with
  | allocate rawSize =>
    have hsize := le_alignedSize halign rawSize
    have hpos : 0 < rawSize := hfits
    exact hinv.grant fun start => fills_object start hsize (by omega)
  | batchedAllocate unitRawSize batchSize =>
    have hsize := le_alignedSize halign unitRawSize
    have hpos : 0 < unitRawSize := hfits
    exact hinv.grant fun start => fills_batch start batchSize (by omega)
  | free id => exact hinv.free_object id
  | batchedFree ids updateStats =>
    obtain ⟨rfl, hstarts⟩ := hfits
    exact hinv.batchedFree hstarts

end

end AllocatorInv

instance AllocatorAction.fitsDecidable (allocator : TensorMemoryAllocator) :
    ∀ action : AllocatorAction, Decidable (action.Fits allocator)
  | .allocate _ | .batchedAllocate _ _ => inferInstanceAs (Decidable (0 < _))
  | .free _ => inferInstanceAs (Decidable True)
  | .batchedFree _ _ => inferInstanceAs (Decidable (_ ∧ _))

/-- Free blocks and live objects partition the buffer after every run in which
a batched free that begins with an object that is gone takes no other one for
its continuation. -/
theorem sound_of_fits {bufferSize bits : Nat} (hsize : 0 < bufferSize)
    {actions : List AllocatorAction}
    (hmeets : Meets TensorMemoryAllocator.step (fun allocator action => action.Fits allocator)
      (TensorMemoryAllocator.start bufferSize (2 ^ bits)) actions) :
    ∃ final, runFrom TensorMemoryAllocator.step
      (TensorMemoryAllocator.start bufferSize (2 ^ bits)) actions = some final ∧ final.Sound := by
  obtain ⟨final, hrun, hfinal⟩ := run_progress
    (fun allocator action hinv hfits => AllocatorInv.step hinv hfits)
    (AllocatorInv.start hsize bits) hmeets
  exact ⟨final, hrun, hfinal.sound⟩

theorem sound_sixteenBytes : ∃ final, runFrom TensorMemoryAllocator.step
    (TensorMemoryAllocator.start 16 (2 ^ 2))
    [.allocate 3, .batchedAllocate 4 2, .free 0, .batchedFree [2, 1] true,
      .allocate 9, .batchedFree [0, 3] true] = some final ∧
      final.Sound :=
  sound_of_fits (by decide) (by decide +kernel)

/-- The running pointer starts at the freed object, so the run of the objects
at 8 and 4 becomes a block at 8; later two live objects share bytes. -/
theorem not_separate_staleHead : ∃ final, runFrom TensorMemoryAllocator.step
    (TensorMemoryAllocator.start 16 (2 ^ 2))
    [.allocate 4, .allocate 4, .allocate 4, .free 0,
      .batchedFree [0, 2, 1] true, .allocate 8, .allocate 4,
      .allocate 4] = some final ∧
      ¬ (liveIntervals final.objects).Pairwise Interval.Separate :=
  ⟨_, rfl, by decide +kernel⟩

/-! When memory runs out. -/

/-- Somewhere in the buffer there is room between the live objects. -/
def TensorMemoryAllocator.HasRoom (allocator : TensorMemoryAllocator) (size : Nat) : Prop :=
  ∃ start, start + size ≤ allocator.bufferSize ∧
    ∀ interval ∈ liveIntervals allocator.objects, Interval.Separate ⟨start, size⟩ interval

section

variable {allocator : TensorMemoryAllocator}

theorem AllocatorInv.hasRoom_iff (hinv : AllocatorInv allocator) {size : Nat} (hsize : 0 < size) :
    allocator.HasRoom size ↔ ∃ block ∈ allocator.explicitList, size ≤ block.size := by
  constructor
  · rintro ⟨start, hinside, hapart⟩
    have hcovered : ∀ position, start ≤ position → position ≤ start + (size - 1) →
        0 < coverCount allocator.explicitList position := by
      intro position hstart hstop
      -- no live object is there, so the position is free
      have hlive : coverCount (liveIntervals allocator.objects) position = 0 := by
        by_contra hlive
        obtain ⟨interval, hmem, hbefore, hafter⟩ :=
          exists_of_coverCount_pos (Nat.pos_of_ne_zero hlive)
        have hseparate := hapart interval hmem
        simp only [Interval.Separate, Interval.stop] at hseparate hafter
        omega
      have hshared := hinv.shares position
      rw [coverCount_append, hlive, if_pos (by omega)] at hshared
      omega
    obtain ⟨block, hmem, hstart, hstop⟩ := hinv.free.exists_block hcovered
    exact ⟨block, hmem, by unfold Interval.stop at hstop; omega⟩
  · rintro ⟨block, hmem, hfits⟩
    have hone : ∀ position, coverCount [block] position ≤ coverCount allocator.explicitList position :=
      fun position => (singleton_sublist.mpr hmem).countP_le
    refine ⟨block.start, ?_, fun interval hinterval => ?_⟩
    · have hlast := hinv.shares (block.start + size - 1)
      have hcovered := hone (block.start + size - 1)
      rw [coverCount_singleton, if_pos (by omega)] at hcovered
      rw [coverCount_append] at hlast
      split_ifs at hlast <;> omega
    · obtain ⟨obj, hobj, rfl⟩ := mem_map.mp hinterval
      have hseparate := separate_of_coverCount_le (fun position => ?_) hinterval
        (hinv.free.nonempty block hmem) (hinv.nonempty obj (mem_of_mem_filter hobj))
      · simp only [Interval.Separate, Interval.stop] at hseparate ⊢
        omega
      · exact Nat.le_trans (Nat.add_le_add_right (hone position) _) (hinv.cover_le position)

theorem AllocatorInv.grant_ne_iff (hinv : AllocatorInv allocator) {size : Nat} (hsize : 0 < size)
    {objectsAt : Nat → List TensorMemoryObj} (hmade : ∀ start, objectsAt start ≠ []) :
    ∃ next, allocator.grant size objectsAt = some next ∧
      (next ≠ allocator ↔ allocator.HasRoom size) := by
  rw [hinv.hasRoom_iff hsize]
  unfold TensorMemoryAllocator.grant takeBlock
  cases hfound : allocator.explicitList.find? fun block => decide (size ≤ block.size) with
  | none => exact ⟨allocator, rfl, by simpa using hfound⟩
  | some block =>
    have hmem := mem_of_find?_eq_some hfound
    simp only [removeBlock, if_pos hmem, Option.map_some]
    refine ⟨_, rfl, iff_of_true (fun hsame => ?_) ⟨block, hmem, by simpa using find?_some hfound⟩⟩
    have hobjects := congrArg TensorMemoryAllocator.objects hsame
    simp [hmade] at hobjects

end

/-- After every such run an allocation fails only if no stretch of the buffer
between the live objects is large enough: no free memory is lost to blocks that
were not joined. -/
theorem allocates_iff_hasRoom {bufferSize bits : Nat} (hsize : 0 < bufferSize)
    {actions : List AllocatorAction}
    (hmeets : Meets TensorMemoryAllocator.step (fun allocator action => action.Fits allocator)
      (TensorMemoryAllocator.start bufferSize (2 ^ bits)) actions) :
    ∃ final, runFrom TensorMemoryAllocator.step
      (TensorMemoryAllocator.start bufferSize (2 ^ bits)) actions = some final ∧
      ∀ rawSize > 0, ∃ next, final.allocate rawSize = some next ∧
        (next ≠ final ↔ final.HasRoom (final.alignedSize rawSize)) := by
  obtain ⟨final, hrun, hinv⟩ := run_progress
    (fun allocator action hinv hfits => AllocatorInv.step hinv hfits)
    (AllocatorInv.start hsize bits) hmeets
  refine ⟨final, hrun, fun rawSize hraw => ?_⟩
  obtain ⟨bits, halign⟩ := hinv.align
  have hpos : 0 < final.alignedSize rawSize :=
    Nat.lt_of_lt_of_le hraw (le_alignedSize halign rawSize)
  unfold TensorMemoryAllocator.allocate
  exact hinv.grant_ne_iff hpos fun _ => cons_ne_nil _ _

/-- Freed in any order, three objects leave one block again. -/
theorem allocates_sixteenBytes : ∃ final, runFrom TensorMemoryAllocator.step
    (TensorMemoryAllocator.start 16 (2 ^ 2))
    [.allocate 3, .batchedAllocate 4 2, .free 1, .batchedFree [2, 0] true] = some final ∧
    ∃ next, final.allocate 13 = some next ∧
      (next ≠ final ↔ final.HasRoom (final.alignedSize 13)) :=
  (allocates_iff_hasRoom (by decide) (by decide +kernel)).imp fun _ hfinal =>
    ⟨hfinal.1, hfinal.2 13 (by decide)⟩

end CatKV
