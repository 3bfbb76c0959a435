/-
Lists of intervals that share out a range.  How often a position is covered
adds up under splitting and merging, so a partition is the statement that
every position of the range is covered once and no other is.  A free list is
kept in the order of the starts, with a gap between any two intervals.
-/
import Mathlib.Data.List.Basic
import Mathlib.Tactic.SplitIfs
import CatKV.RingAllocator

namespace CatKV

open List

/-! How often a position is covered. -/

def Interval.covers (interval : Interval) (position : Nat) : Bool :=
  decide (interval.start ≤ position) && decide (position < interval.stop)

def coverCount (intervals : List Interval) (position : Nat) : Nat :=
  intervals.countP (·.covers position)

@[simp]
theorem coverCount_nil (position : Nat) : coverCount [] position = 0 := rfl

@[simp]
theorem coverCount_append (first rest : List Interval) (position : Nat) :
    coverCount (first ++ rest) position = coverCount first position + coverCount rest position :=
  countP_append

theorem coverCount_cons (interval : Interval) (rest : List Interval) (position : Nat) :
    coverCount (interval :: rest) position =
      coverCount [interval] position + coverCount rest position :=
  coverCount_append [interval] rest position

theorem coverCount_singleton (interval : Interval) (position : Nat) :
    coverCount [interval] position =
      if interval.start ≤ position ∧ position < interval.start + interval.size
      then 1 else 0 := by
  simp only [coverCount, countP_singleton, Interval.covers, Bool.and_eq_true, decide_eq_true_eq]
  rfl

/-- Two intervals that meet cover what their union covers. -/
theorem coverCount_merge (start first second position : Nat) :
    coverCount [⟨start, first + second⟩] position = coverCount [⟨start, first⟩] position +
        coverCount [⟨start + first, second⟩] position := by
  simp only [coverCount_singleton]
  split_ifs <;> omega

/-- Every position of the range is covered once, and no other is. -/
def Shares (size : Nat) (intervals : List Interval) : Prop :=
  ∀ position, coverCount intervals position = if position < size then 1 else 0

variable {intervals : List Interval}

theorem coverCount_pos {interval : Interval} (hmem : interval ∈ intervals)
    {position : Nat} (hstart : interval.start ≤ position)
    (hstop : position < interval.stop) : 0 < coverCount intervals position := by
  apply countP_pos_iff.mpr
  exact ⟨interval, hmem, by simp [Interval.covers, hstart, hstop]⟩

theorem exists_of_coverCount_pos {position : Nat} (hcovered : 0 < coverCount intervals position) :
    ∃ interval ∈ intervals, interval.start ≤ position ∧ position < interval.stop := by
  simpa [Interval.covers] using countP_pos_iff.mp hcovered

/-- An interval that shares no position with the others is apart from each. -/
theorem separate_of_coverCount_le {interval other : Interval}
    (hcover : ∀ position, coverCount [interval] position +
      coverCount intervals position ≤ 1) (hmem : other ∈ intervals) (hsize : 0 < interval.size)
    (hother : 0 < other.size) : interval.Separate other := by
  by_contra hnot
  rw [Interval.Separate, not_or, Nat.not_le, Nat.not_le] at hnot
  unfold Interval.stop at hnot
  have hboth := hcover (max interval.start other.start)
  have hthere : 0 < coverCount intervals (max interval.start other.start) :=
    coverCount_pos hmem (Nat.le_max_right ..) (by unfold Interval.stop; omega)
  rw [coverCount_singleton, if_pos (by omega)] at hboth
  omega

/-- Intervals that cover no position twice do not overlap. -/
theorem pairwise_separate_of_coverCount_le (hsizes : ∀ interval ∈ intervals, 0 < interval.size)
    (hcover : ∀ position, coverCount intervals position ≤ 1) :
    intervals.Pairwise Interval.Separate := by
  induction intervals with
  | nil => exact List.Pairwise.nil
  | cons interval rest ih =>
    constructor
    · intro other hother
      apply separate_of_coverCount_le _ hother (hsizes _ mem_cons_self)
        (hsizes _ (mem_cons_of_mem _ hother))
      exact fun position => coverCount_cons .. ▸ hcover position
    · apply ih
      · exact fun other hother => hsizes _ (mem_cons_of_mem _ hother)
      · intro position
        have hposition := hcover position
        rw [coverCount_cons] at hposition
        omega

/-! The total size. -/

def totalSize (intervals : List Interval) : Nat := (intervals.map (·.size)).sum

@[simp]
theorem totalSize_nil : totalSize [] = 0 := rfl

@[simp]
theorem totalSize_cons (interval : Interval) (rest : List Interval) :
    totalSize (interval :: rest) = interval.size + totalSize rest := by
  simp [totalSize]

@[simp]
theorem totalSize_append (first rest : List Interval) :
    totalSize (first ++ rest) = totalSize first + totalSize rest := by
  simp [totalSize]

/-! Free lists. -/

/-- In order, not empty, and with a gap between any two. -/
structure IsFreeList (blocks : List Interval) : Prop where
  nonempty : ∀ block ∈ blocks, 0 < block.size
  spaced : blocks.Pairwise fun first second => first.stop < second.start

/-- `SortedList.add`: behind the intervals that do not start later. -/
def addBlock (block : Interval) : List Interval → List Interval
  | [] => [block]
  | head :: rest =>
    if head.start ≤ block.start then head :: addBlock block rest
    else block :: head :: rest

/-- `SortedList.remove`, which raises when there is no such interval. -/
def removeBlock (blocks : List Interval) (block : Interval) : Option (List Interval) :=
  if block ∈ blocks then some (blocks.erase block) else none

/-- `SortedList.bisect_right`. -/
def bisectRight (blocks : List Interval) (block : Interval) : Nat :=
  (blocks.takeWhile fun other => decide (other.start ≤ block.start)).length

variable {before after : List Interval} {block : Interval}

theorem addBlock_between (hbefore : ∀ other ∈ before, other.start ≤ block.start)
    (hafter : ∀ other ∈ after, block.start < other.start) :
    addBlock block (before ++ after) = before ++ block :: after := by
  induction before with
  | nil =>
    cases after with
    | nil => rfl
    | cons head rest =>
      have hhead := hafter head mem_cons_self
      simp [addBlock, Nat.not_le_of_lt hhead]
  | cons head rest ih =>
    rw [cons_append, addBlock, if_pos (hbefore head mem_cons_self),
      ih fun other hother => hbefore other (mem_cons_of_mem _ hother)]
    rfl

theorem bisectRight_between (hbefore : ∀ other ∈ before, other.start ≤ block.start)
    (hafter : ∀ other ∈ after, block.start < other.start) :
    bisectRight (before ++ after) block = before.length := by
  induction before with
  | nil =>
    cases after with
    | nil => rfl
    | cons head rest =>
      have hhead := hafter head mem_cons_self
      simp [bisectRight, Nat.not_le_of_lt hhead]
  | cons head rest ih =>
    have hrest := ih fun other hother =>
      hbefore other (mem_cons_of_mem _ hother)
    rw [bisectRight] at hrest ⊢
    simp [hbefore head mem_cons_self, hrest]

theorem removeBlock_between (hbefore : block ∉ before) :
    removeBlock (before ++ block :: after) block = some (before ++ after) := by
  rw [removeBlock, if_pos (mem_append_right _ mem_cons_self),
    erase_append_right _ hbefore, erase_cons_head]

namespace IsFreeList

variable {blocks before after : List Interval} {block : Interval}

theorem start_lt_of_append (hfree : IsFreeList (before ++ after)) {first second : Interval}
    (hfirst : first ∈ before) (hsecond : second ∈ after) : first.stop < second.start :=
  (pairwise_append.mp hfree.spaced).2.2 first hfirst second hsecond

/-- Where an interval that is apart from the free ones belongs. -/
theorem exists_between (hfree : IsFreeList blocks)
    (hapart : ∀ other ∈ blocks, block.Separate other) :
    ∃ before after, blocks = before ++ after ∧ (∀ other ∈ before, other.stop ≤ block.start) ∧
      ∀ other ∈ after, block.stop ≤ other.start := by
  induction blocks with
  | nil => exact ⟨[], [], rfl, by simp, by simp⟩
  | cons head rest ih =>
    obtain ⟨hhead, hspaced⟩ := pairwise_cons.mp hfree.spaced
    rcases hapart head mem_cons_self with hleft | hright
    · refine ⟨[], head :: rest, rfl, by simp, ?_⟩
      intro other hother
      rcases mem_cons.mp hother with rfl | hrest
      · exact hleft
      · have hgap := hhead other hrest
        unfold Interval.stop at *
        omega
    · obtain ⟨before, after, rfl, hbefore, hafter⟩ := ih ⟨fun other hother => hfree.nonempty other
          (mem_cons_of_mem _ hother), hspaced⟩
        (fun other hother => hapart other (mem_cons_of_mem _ hother))
      refine ⟨head :: before, after, rfl, ?_, hafter⟩
      intro other hother
      rcases mem_cons.mp hother with rfl | hrest
      · exact hright
      · exact hbefore other hrest

/-- An interval put into a gap, away from its neighbours, leaves a free
list. -/
theorem insert (hfree : IsFreeList (before ++ after)) (hsize : 0 < block.size)
    (hbefore : ∀ other ∈ before, other.stop < block.start)
    (hafter : ∀ other ∈ after, block.stop < other.start) :
    IsFreeList (before ++ block :: after) where
  nonempty := by
    intro other hother
    rcases mem_append.mp hother with hleft | hright
    · exact hfree.nonempty other (mem_append_left _ hleft)
    · rcases mem_cons.mp hright with rfl | hrest
      · exact hsize
      · exact hfree.nonempty other (mem_append_right _ hrest)
  spaced := by
    obtain ⟨hleft, hright, hcross⟩ := pairwise_append.mp hfree.spaced
    apply pairwise_append.mpr
    refine ⟨hleft, pairwise_cons.mpr ⟨hafter, hright⟩, ?_⟩
    intro first hfirst second hsecond
    rcases mem_cons.mp hsecond with rfl | hrest
    · exact hbefore first hfirst
    · exact hcross first hfirst second hrest

theorem of_cons_middle (hfree : IsFreeList (before ++ block :: after)) :
    IsFreeList (before ++ after) where
  nonempty := fun other hother => hfree.nonempty other (List.Sublist.mem hother
      ((List.Sublist.refl before).append (sublist_cons_self block after)))
  spaced := hfree.spaced.sublist ((List.Sublist.refl before).append (sublist_cons_self block after))

theorem not_mem_before (hfree : IsFreeList (before ++ block :: after)) : block ∉ before := by
  intro hmem
  have hgap := hfree.start_lt_of_append hmem mem_cons_self
  unfold Interval.stop at hgap
  omega

theorem stop_lt_of_mem_zip (hfree : IsFreeList blocks) {neighbours : Interval × Interval}
    (hmem : neighbours ∈ blocks.zip blocks.tail) : neighbours.1.stop < neighbours.2.start := by
  obtain ⟨index, hindex, rfl⟩ := mem_iff_getElem.mp hmem
  have hlength : index + 1 < blocks.length := by
    simp only [length_zip, length_tail] at hindex
    omega
  simp only [getElem_zip, getElem_tail]
  exact pairwise_iff_getElem.mp hfree.spaced index (index + 1) (by omega) hlength (by omega)

/-- With a gap between any two blocks, a stretch that is free throughout lies in
one of them. -/
theorem exists_block (hfree : IsFreeList blocks) {start size : Nat}
    (hcovered : ∀ position, start ≤ position → position ≤ start + size →
      0 < coverCount blocks position) :
    ∃ block ∈ blocks, block.start ≤ start ∧ start + size < block.stop := by
  induction size with
  | zero => exact exists_of_coverCount_pos (hcovered start (Nat.le_refl _) (Nat.le_refl _))
  | succ size ih =>
    obtain ⟨block, hmem, hstart, hstop⟩ := ih fun position hstart hstop =>
      hcovered position hstart (by omega)
    obtain ⟨last, hlast, hbefore, hafter⟩ :=
      exists_of_coverCount_pos (hcovered (start + (size + 1)) (by omega) (Nat.le_refl _))
    -- the block of the last position touches the one before it, so it is the same
    obtain ⟨first, hfirst, rfl⟩ := getElem_of_mem hmem
    obtain ⟨second, hsecond, rfl⟩ := getElem_of_mem hlast
    have hspaced := pairwise_iff_getElem.mp hfree.spaced
    rcases Nat.lt_trichotomy first second with hless | rfl | hmore
    · have hgap := hspaced _ _ hfirst hsecond hless
      omega
    · exact ⟨_, hmem, hstart, hafter⟩
    · have hgap := hspaced _ _ hsecond hfirst hmore
      omega

end IsFreeList

end CatKV
