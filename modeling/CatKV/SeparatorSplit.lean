/-
`SegmentTokenDatabase._fast_split_by_subtensor` as a generator.  The ranges
between consecutive separators are yielded as triples, but without a separator,
or with one longer than the input, the bare tokens are yielded first and the
generator goes on.
-/
import CatKV.StoreMode

namespace CatKV

open List
namespace SeparatorSplit

/-- What the generator hands to its consumer. -/
inductive Yielded where
  | bare (tokens : List Nat)
  | triple (start stop : Nat) (chunk : List Nat)
deriving DecidableEq

/-- All values of a generator, and whether it ends by raising. -/
structure Generated where
  yields : List Yielded
  raised : Bool
deriving DecidableEq

/-- `yield start, end, tokens[start:end]`. -/
def yieldRange (tokens : List Nat) (range : Nat × Nat) : Yielded :=
  .triple range.1 range.2 (sliceTokens tokens range)

/-- The generator; `unfold` raises if the windows are longer than the tokens. -/
def splitBySubtensor (sepTokens tokens : List Nat) : Generated :=
  let first := if sepTokens.length = 0 ∨ tokens.length < sepTokens.length
    then [Yielded.bare tokens] else []
  if tokens.length < sepTokens.length then ⟨first, true⟩
  else
    let positions := separatorMatches sepTokens tokens
    if positions.length ≤ 1 then ⟨first ++ [.triple 0 tokens.length tokens], false⟩
    else ⟨first ++ (segmentsBetween sepTokens.length positions).map (yieldRange tokens), false⟩

section Purpose

variable (sepTokens tokens : List Nat)

/-- The separator stands at the position. -/
def Occurs (position : Nat) : Prop :=
  ∃ before after, tokens = before ++ sepTokens ++ after ∧ before.length = position

/-- The range from the end of one occurrence to the start of the next. -/
def BetweenConsecutive (range : Nat × Nat) : Prop :=
  ∃ position, Occurs sepTokens tokens position ∧
    Occurs sepTokens tokens range.2 ∧ position < range.2 ∧
    (∀ other, Occurs sepTokens tokens other → ¬ (position < other ∧ other < range.2)) ∧
    range.1 = position + sepTokens.length

def OccursTwice : Prop :=
  ∃ position other, Occurs sepTokens tokens position ∧
    Occurs sepTokens tokens other ∧ position < other

/-- The ranges of a split: not empty, within the tokens, in increasing order
and disjoint; the stretches between consecutive separators if there are two, and
else all the tokens. -/
structure Splits (ranges : List (Nat × Nat)) : Prop where
  nonempty : ∀ range ∈ ranges, range.1 < range.2
  within : ∀ range ∈ ranges, range.2 ≤ tokens.length
  increasing : ranges.Pairwise fun range other => range.2 ≤ other.1
  stretches : OccursTwice sepTokens tokens → ∀ range, range ∈ ranges ↔
    BetweenConsecutive sepTokens tokens range ∧ range.1 < range.2
  whole : ¬ OccursTwice sepTokens tokens → ranges = [(0, tokens.length)]

/-- No range has a complete separator in it. -/
def SeparatorFree (ranges : List (Nat × Nat)) : Prop :=
  ∀ range ∈ ranges, ∀ position, Occurs sepTokens tokens position →
    ¬ (range.1 ≤ position ∧ position + sepTokens.length ≤ range.2)

/-- The generator ends normally and yields just the ranges. -/
def Yields (ranges : List (Nat × Nat)) : Prop :=
  splitBySubtensor sepTokens tokens = ⟨ranges.map (yieldRange tokens), false⟩

end Purpose

variable {sepTokens tokens : List Nat}

theorem mem_separatorMatches {position : Nat} : position ∈ separatorMatches sepTokens tokens ↔
    Occurs sepTokens tokens position := by
  rw [separatorMatches, mem_filter, mem_range, beq_iff_eq]
  constructor
  · rintro ⟨hlt, hwindow⟩
    have hposition := take_append_drop position tokens
    have hsep := take_append_drop sepTokens.length (tokens.drop position)
    rw [hwindow] at hsep
    refine ⟨tokens.take position, (tokens.drop position).drop sepTokens.length, ?_, ?_⟩
    · rw [append_assoc, hsep, hposition]
    · rw [length_take]
      omega
  · rintro ⟨before, after, rfl, rfl⟩
    constructor
    · simp only [length_append]
      omega
    · simp

theorem pairwise_separatorMatches : (separatorMatches sepTokens tokens).Pairwise (· < ·) :=
  pairwise_lt_range.filter _

variable {positions : List Nat}

theorem two_le_length_iff (hsorted : positions.Pairwise (· < ·)) : 2 ≤ positions.length ↔
    ∃ p ∈ positions, ∃ q ∈ positions, p < q := by
  rcases positions with _ | ⟨p, _ | ⟨q, rest⟩⟩
  · simp
  · simp
  · refine iff_of_true (by simp) ⟨p, by simp, q, by simp, ?_⟩
    exact rel_of_pairwise_cons hsorted mem_cons_self

theorem occursTwice_iff : OccursTwice sepTokens tokens ↔
    ¬ (separatorMatches sepTokens tokens).length ≤ 1 := by
  rw [not_le, ← Nat.succ_le_iff, two_le_length_iff pairwise_separatorMatches]
  simp only [OccursTwice, mem_separatorMatches]
  grind

variable {range : Nat × Nat}

theorem start_of_mem_segmentsBetween {sepLen p : Nat} {rest : List Nat}
    (hsorted : (p :: rest).Pairwise (· < ·)) (hrange : range ∈ segmentsBetween sepLen (p :: rest)) :
    p + sepLen ≤ range.1 := by
  induction rest generalizing p with
  | nil => simp [segmentsBetween] at hrange
  | cons q rest ih =>
    have hlt : p < q := rel_of_pairwise_cons hsorted mem_cons_self
    have hrest := fun hmem => ih hsorted.of_cons hmem
    rw [segmentsBetween] at hrange
    split at hrange
    · rcases mem_cons.mp hrange with rfl | hmem
      · exact le_rfl
      · have hle := hrest hmem
        omega
    · have hle := hrest hrange
      omega

theorem pairwise_segmentsBetween {sepLen : Nat} (hsorted : positions.Pairwise (· < ·)) :
    (segmentsBetween sepLen positions).Pairwise fun range other => range.2 ≤ other.1 := by
  fun_induction segmentsBetween sepLen positions with
  | case1 p q rest _ ih =>
    refine pairwise_cons.mpr ⟨fun other hother => ?_, ih hsorted.of_cons⟩
    exact le_trans (Nat.le_add_right q sepLen) (start_of_mem_segmentsBetween hsorted.of_cons hother)
  | case2 p q rest _ ih => exact ih hsorted.of_cons
  | case3 => exact List.Pairwise.nil

/-- Two entries of a list with no other entry between them. -/
def Consecutive (positions : List Nat) (p q : Nat) : Prop :=
  p ∈ positions ∧ q ∈ positions ∧ p < q ∧ ∀ r ∈ positions, ¬ (p < r ∧ r < q)

theorem not_consecutive_singleton {p a b : Nat} : ¬ Consecutive [p] a b := by
  rintro ⟨ha, hb, hlt, -⟩
  rw [mem_singleton] at ha hb
  omega

theorem consecutive_cons {p q a b : Nat} {rest : List Nat}
    (hsorted : (p :: q :: rest).Pairwise (· < ·)) :
    Consecutive (p :: q :: rest) a b ↔ a = p ∧ b = q ∨ Consecutive (q :: rest) a b := by
  have hp : ∀ r ∈ q :: rest, p < r := fun r hr =>
    rel_of_pairwise_cons hsorted hr
  have hq : ∀ r ∈ rest, q < r := fun r hr =>
    rel_of_pairwise_cons hsorted.of_cons hr
  constructor
  · rintro ⟨ha, hb, hlt, hnone⟩
    rcases mem_cons.mp ha with rfl | ha
    · have hb : b ∈ q :: rest := mem_of_ne_of_mem hlt.ne' hb
      have hgap := hnone q (by simp)
      have hqb : b = q ∨ q < b := (mem_cons.mp hb).imp id (hq b)
      have hpq := hp q mem_cons_self
      exact Or.inl ⟨rfl, by omega⟩
    · have hpa := hp a ha
      exact Or.inr ⟨ha, mem_of_ne_of_mem (by omega) hb, hlt,
        fun r hr => hnone r (mem_cons_of_mem p hr)⟩
  · rintro (⟨rfl, rfl⟩ | ⟨ha, hb, hlt, hnone⟩)
    · refine ⟨by simp, by simp, hp b mem_cons_self, fun r hr => ?_⟩
      rcases mem_cons.mp hr with rfl | hr
      · omega
      · have hbr : r = b ∨ b < r := (mem_cons.mp hr).imp id (hq r)
        omega
    · refine ⟨mem_cons_of_mem p ha, mem_cons_of_mem p hb, hlt, ?_⟩
      intro r hr
      rcases mem_cons.mp hr with rfl | hr
      · have hra := hp a ha
        omega
      · exact hnone r hr

theorem mem_segmentsBetween {sepLen : Nat} (hsorted : positions.Pairwise (· < ·)) :
    range ∈ segmentsBetween sepLen positions ↔
      (∃ p, Consecutive positions p range.2 ∧ range.1 = p + sepLen) ∧ range.1 < range.2 := by
  fun_induction segmentsBetween sepLen positions with
  | case1 p q rest hgap ih =>
    simp only [mem_cons, ih hsorted.of_cons, consecutive_cons hsorted]
    grind
  | case2 p q rest hgap ih =>
    simp only [ih hsorted.of_cons, consecutive_cons hsorted]
    grind
  | case3 positions hshort =>
    rcases positions with _ | ⟨p, _ | ⟨q, rest⟩⟩
    · simp [Consecutive]
    · simp [not_consecutive_singleton]
    · exact (hshort p q rest rfl).elim

theorem betweenConsecutive_iff : BetweenConsecutive sepTokens tokens range ↔
    ∃ p, Consecutive (separatorMatches sepTokens tokens) p range.2 ∧
      range.1 = p + sepTokens.length := by
  simp only [BetweenConsecutive, Consecutive, mem_separatorMatches, and_assoc]

/-- The ranges of the code, for a separator that is not empty. -/
def rangesOf (sepTokens tokens : List Nat) : List (Nat × Nat) :=
  if (separatorMatches sepTokens tokens).length ≤ 1 then [(0, tokens.length)]
  else segmentsBetween sepTokens.length (separatorMatches sepTokens tokens)

theorem sliceTokens_whole : sliceTokens tokens (0, tokens.length) = tokens := by
  simp [sliceTokens]

theorem yields_rangesOf (hsep : sepTokens ≠ []) (hlong : sepTokens.length ≤ tokens.length) :
    Yields sepTokens tokens (rangesOf sepTokens tokens) := by
  have hsep' : sepTokens.length ≠ 0 := by simpa using hsep
  simp only [Yields, splitBySubtensor, rangesOf,
    if_neg (Nat.not_lt.mpr hlong), hsep', false_or, nil_append]
  split
  · simp [yieldRange, sliceTokens_whole]
  · rfl

theorem occurs_le {position : Nat} (hoccurs : Occurs sepTokens tokens position) :
    position + sepTokens.length ≤ tokens.length := by
  obtain ⟨before, after, rfl, rfl⟩ := hoccurs
  simp only [length_append]
  omega

theorem splits_rangesOf (hsep : sepTokens ≠ []) (hlong : sepTokens.length ≤ tokens.length) :
    Splits sepTokens tokens (rangesOf sepTokens tokens) := by
  have hpos : 0 < sepTokens.length := length_pos_iff.mpr hsep
  by_cases htwice : OccursTwice sepTokens tokens
  · have heq : rangesOf sepTokens tokens = segmentsBetween sepTokens.length
        (separatorMatches sepTokens tokens) :=
      if_neg (occursTwice_iff.mp htwice)
    have hmem : ∀ range, range ∈ rangesOf sepTokens tokens ↔
        BetweenConsecutive sepTokens tokens range ∧ range.1 < range.2 := by
      intro range
      rw [heq, mem_segmentsBetween pairwise_separatorMatches, betweenConsecutive_iff]
    constructor
    · exact fun range hrange => ((hmem range).mp hrange).2
    · intro range hrange
      obtain ⟨⟨position, -, hstop, -⟩, -⟩ := (hmem range).mp hrange
      exact (Nat.le_add_right _ _).trans (occurs_le hstop)
    · rw [heq]
      exact pairwise_segmentsBetween pairwise_separatorMatches
    · exact fun _ => hmem
    · exact fun hnot => (hnot htwice).elim
  · have heq : rangesOf sepTokens tokens = [(0, tokens.length)] :=
      if_pos (not_not.mp (mt occursTwice_iff.mpr htwice))
    rw [heq]
    constructor
    · simp only [forall_mem_singleton]
      omega
    · simp
    · simp
    · exact fun h => (htwice h).elim
    · exact fun _ => rfl

variable {ranges : List (Nat × Nat)}

/-- With an empty separator a bare tensor comes first, and with one that is
too long the generator raises. -/
theorem Yields.fits (hyields : Yields sepTokens tokens ranges) :
    sepTokens ≠ [] ∧ sepTokens.length ≤ tokens.length := by
  have hfits : sepTokens.length ≤ tokens.length := by
    by_contra hshort
    have hraised := congrArg Generated.raised hyields
    simp [splitBySubtensor, Nat.not_le.mp hshort] at hraised
  refine ⟨fun hnil => ?_, hfits⟩
  have hbare : Yielded.bare tokens ∈ ranges.map (yieldRange tokens) := by
    have hlist : (splitBySubtensor sepTokens tokens).yields =
        ranges.map (yieldRange tokens) := congrArg Generated.yields hyields
    rw [← hlist]
    simp only [splitBySubtensor, hnil, length_nil, Nat.not_lt_zero, if_false, true_or, if_true]
    split <;> simp
  obtain ⟨range, -, hrange⟩ := mem_map.mp hbare
  exact Yielded.noConfusion hrange

theorem Splits.separatorFree (hsplits : Splits sepTokens tokens ranges) (hsep : sepTokens ≠ [])
    (hunique : ¬ ∃! position, Occurs sepTokens tokens position) :
    SeparatorFree sepTokens tokens ranges := by
  have hpos : 0 < sepTokens.length := length_pos_iff.mpr hsep
  intro range hrange position hoccurs hinside
  by_cases htwice : OccursTwice sepTokens tokens
  · obtain ⟨⟨before, -, -, -, hnone, hstart⟩, -⟩ := (hsplits.stretches htwice range).mp hrange
    exact hnone position hoccurs (by omega)
  · refine hunique ⟨position, hoccurs, fun other hother => ?_⟩
    by_contra hne
    rcases Nat.lt_or_gt_of_ne hne with hlt | hlt
    · exact htwice ⟨other, position, hother, hoccurs, hlt⟩
    · exact htwice ⟨position, other, hoccurs, hother, hlt⟩

/-- The generator splits the tokens exactly if the separator is not empty and
not longer than the tokens; the ranges are free of separators exactly if it does
not stand there just once. -/
theorem yields_splits_iff (sepTokens tokens : List Nat) :
    ((∃ ranges, Yields sepTokens tokens ranges ∧ Splits sepTokens tokens ranges) ↔
      sepTokens ≠ [] ∧ sepTokens.length ≤ tokens.length) ∧
    ((∃ ranges, Yields sepTokens tokens ranges ∧ Splits sepTokens tokens ranges ∧
        SeparatorFree sepTokens tokens ranges) ↔
      sepTokens ≠ [] ∧ sepTokens.length ≤ tokens.length ∧
        ¬ ∃! position, Occurs sepTokens tokens position) := by
  constructor
  · constructor
    · rintro ⟨ranges, hyields, -⟩
      exact hyields.fits
    · rintro ⟨hsep, hlong⟩
      exact ⟨_, yields_rangesOf hsep hlong, splits_rangesOf hsep hlong⟩
  constructor
  · rintro ⟨ranges, hyields, hsplits, hfree⟩
    refine ⟨hyields.fits.1, hyields.fits.2, ?_⟩
    rintro ⟨position, hoccurs, hunique⟩
    have hwhole := hsplits.whole (by
      rintro ⟨p, q, hp, hq, hlt⟩
      exact hlt.ne ((hunique p hp).trans (hunique q hq).symm))
    rw [hwhole] at hfree
    exact hfree _ (mem_singleton_self _) position hoccurs ⟨Nat.zero_le _, occurs_le hoccurs⟩
  · rintro ⟨hsep, hlong, hunique⟩
    have hsplits := splits_rangesOf hsep hlong
    exact ⟨_, yields_rangesOf hsep hlong, hsplits, hsplits.separatorFree hsep hunique⟩

/-- One token and a separator of two: the bare token is yielded and then the
windows cannot be built. -/
theorem not_yields_shortInput : splitBySubtensor [9, 9] [1] = ⟨[.bare [1]], true⟩ ∧
      (¬ ∃ ranges, Yields [9, 9] [1] ranges) ∧
    splitBySubtensor [] [1, 2] = ⟨[.bare [1, 2], .triple 0 1 [1], .triple 1 2 [2]], false⟩ ∧
      ¬ ∃ ranges, Yields [] [1, 2] ranges := by
  refine ⟨by decide, ?_, by decide, ?_⟩
  · rintro ⟨ranges, hyields⟩
    exact absurd hyields.fits.2 (by decide)
  · rintro ⟨ranges, hyields⟩
    exact hyields.fits.1 rfl

end SeparatorSplit
end CatKV
