/-
`CacheBlend.blend_forward` of both versions.  The positions outside all active
ranges are recomputed in any case; of the reused ones, a share with the largest
deviations is added by a top-k over all positions, in which the others only get
the deviation zero.  Where reused positions have the deviation zero as well,
the top-k is free to return a position that is not reused.
-/
import Mathlib.Algebra.Order.Field.Rat
import Mathlib.Data.Finset.Card
import Mathlib.Data.List.Sort
import Mathlib.Data.Rat.Floor

namespace CatKV

open List
namespace TokenSelection

/-- `mask[start:stop] = False`; a slice is cut at the end of the mask. -/
def assignFalse (mask : List Bool) (start stop : Nat) : List Bool :=
  mask.mapIdx fun i b => b && !(decide (start ≤ i) && decide (i < stop))

/-- `torch.where(mask)[0]`. -/
def whereTrue (mask : List Bool) : List Nat :=
  (List.range mask.length).filter fun i => mask[i]?.getD false

section TopK

variable {β : Type} [LinearOrder β]

/-- What `torch.topk` promises of the indices it returns: the largest values in
falling order, with ties broken in any way. -/
structure IsTopk (size : Nat) (values : Nat → β) (k : Nat) (indices : List Nat) : Prop where
  nodup : indices.Nodup
  length : indices.length = k
  lt : ∀ i ∈ indices, i < size
  sorted : indices.Pairwise fun i j => values j ≤ values i
  largest : ∀ i ∈ indices, ∀ j < size, j ∉ indices → values j ≤ values i

/-- The order by falling values that puts the preferred ones first in a tie. -/
def prefers (values : Nat → β) (preferred : Nat → Bool) (i j : Nat) : Bool :=
  decide (values j < values i) || (decide (values i = values j) && (preferred i || !preferred j))

theorem prefers_iff {values : Nat → β} {preferred : Nat → Bool} {i j : Nat} :
    prefers values preferred i j = true ↔ values j < values i ∨
      (values i = values j ∧ (preferred i = true ∨ preferred j = false)) := by
  simp [prefers]

/-- The positions sorted by that order. -/
def ranking (size : Nat) (values : Nat → β) (preferred : Nat → Bool) : List Nat :=
  (List.range size).mergeSort (prefers values preferred)

variable {size : Nat} {values : Nat → β} {preferred : Nat → Bool} {k : Nat}

theorem ranking_perm : (ranking size values preferred).Perm (List.range size) := mergeSort_perm _ _

theorem ranking_pairwise : (ranking size values preferred).Pairwise
    fun i j => prefers values preferred i j = true := by
  apply pairwise_mergeSort
  · intro a b c hab hbc
    rw [prefers_iff] at hab hbc ⊢
    grind
  · intro a b
    simp only [Bool.or_eq_true, prefers_iff]
    grind

theorem prefers_of_take {i j : Nat} (hi : i ∈ (ranking size values preferred).take k)
    (hj : j < size) (hout : j ∉ (ranking size values preferred).take k) :
    prefers values preferred i j = true := by
  have hpairs : (ranking size values preferred).Pairwise _ := ranking_pairwise
  have hmem : j ∈ ranking size values preferred := ranking_perm.mem_iff.mpr (mem_range.mpr hj)
  rw [← take_append_drop k (ranking size values preferred)] at hpairs hmem
  exact (pairwise_append.mp hpairs).2.2 i hi j ((mem_append.mp hmem).resolve_left hout)

theorem isTopk_take (hk : k ≤ size) :
    IsTopk size values k ((ranking size values preferred).take k) := by
  have hle : ∀ {i j}, prefers values preferred i j = true → values j ≤ values i := by
    intro i j hpref
    rcases prefers_iff.mp hpref with hlt | heq
    · exact hlt.le
    · exact heq.1.ge
  constructor
  · exact (ranking_perm.nodup_iff.mpr nodup_range).sublist (take_sublist _ _)
  · rw [length_take, ranking_perm.length_eq, length_range, min_eq_left hk]
  · intro i hi
    exact mem_range.mp (ranking_perm.mem_iff.mp (mem_of_mem_take hi))
  · exact (ranking_pairwise.sublist (take_sublist _ _)).imp hle
  · intro i hi j hj hout
    exact hle (prefers_of_take hi hj hout)

end TopK

/-- What one call of `blend_forward` decides from: the number of positions, the
active ranges, and the deviation of every position. -/
structure BlendInput (β : Type) where
  length : Nat
  indices : List (Nat × Nat)
  deviation : Nat → β

/-- The entries of `select_config` that are read. -/
structure SelectConfig where
  ablation : Option String
  recomputeRatio : Option ℚ

/-- `0 if "ablation" not in config or config["ablation"] == "False" else 32`. -/
def SelectConfig.offset (config : SelectConfig) : Nat :=
  if config.ablation = none ∨ config.ablation = some "False" then 0 else 32

/-- `config.get("recompute_ratio", 0.15)`. -/
def SelectConfig.ratio (config : SelectConfig) : ℚ := config.recomputeRatio.getD (15 / 100)

namespace BlendInput

variable {β : Type}

section Code

variable [LinearOrder β] [Zero β]
variable (input : BlendInput β) (offset : Nat) (ratio : ℚ)

def notReusedMask : List Bool :=
  input.indices.foldl (fun mask indice => assignFalse mask (indice.1 + offset) indice.2)
    (List.replicate input.length true)

/-- `deviation[torch.where(not_reused_mask)[0]] = 0.0`. -/
def maskedDeviation (i : Nat) : β :=
  if (input.notReusedMask offset)[i]?.getD false then 0 else input.deviation i

def recomputedTokenNum : Nat :=
  ⌈((input.length : ℚ) - (input.notReusedMask offset).count true) * ratio⌉.toNat

/-- The list is one that `blend_forward` may return. -/
def blendForward (result : List Nat) : Prop :=
  ∃ recomputeIdx, IsTopk input.length (input.maskedDeviation offset)
      (input.recomputedTokenNum offset ratio) recomputeIdx ∧
    result = (recomputeIdx ++ whereTrue (input.notReusedMask offset)).insertionSort (· ≤ ·)

/-- `CacheBlend.blend_forward` of the vLLM version. -/
def vllmBlendForward : List Nat → Prop := input.blendForward 0 (15 / 100)

/-- `CacheBlend.blend_forward` of the transformers version. -/
def transformersBlendForward (config : SelectConfig) : List Nat → Prop :=
  input.blendForward config.offset config.ratio

end Code

section Purpose

variable [LinearOrder β] [Zero β]
variable (input : BlendInput β) (ratio : ℚ)

/-- The position stands in an active range. -/
def reused (i : Nat) : Bool :=
  input.indices.any fun indice => decide (indice.1 ≤ i) && decide (i < indice.2)

def reusedPositions : List Nat := (List.range input.length).filter input.reused

/-- How many reused positions are to be recomputed. -/
def share : Nat := ⌈ratio * input.reusedPositions.length⌉.toNat

/-- The list has every position that is not reused, and of the reused ones the
share with the largest deviations, each position once and in order. -/
structure Selects (result : List Nat) : Prop where
  increasing : result.Pairwise (· < ·)
  lt : ∀ i ∈ result, i < input.length
  notReused : ∀ i < input.length, input.reused i = false → i ∈ result
  count : (result.filter input.reused).length = input.share ratio
  largest : ∀ i ∈ result, input.reused i = true → ∀ j < input.length,
    input.reused j = true → j ∉ result → input.deviation j ≤ input.deviation i

/-- A call returns, and whatever it may return is such a list. -/
def AlwaysSelects (returns : List Nat → Prop) : Prop :=
  (∃ result, returns result) ∧ ∀ result, returns result → input.Selects ratio result

/-- The reused positions with a deviation above zero. -/
def positives : List Nat := input.reusedPositions.filter fun i => decide (0 < input.deviation i)

/-- All positions are reused, or enough reused ones have a deviation above
zero. -/
def EnoughDeviations : Prop :=
  (∀ i < input.length, input.reused i = true) ∨ input.share ratio ≤ input.positives.length

end Purpose

variable {input : BlendInput β} {ratio : ℚ}

theorem assignFalse_map (f : Nat → Bool) (size start stop : Nat) :
    assignFalse ((List.range size).map f) start stop = (List.range size).map fun i =>
        f i && !(decide (start ≤ i) && decide (i < stop)) := by
  apply ext_getElem
  · simp [assignFalse]
  · intro i _ _
    simp [assignFalse]

theorem foldl_assignFalse (indices : List (Nat × Nat)) (f : Nat → Bool) (size : Nat) :
    indices.foldl (fun mask indice => assignFalse mask (indice.1 + 0) indice.2)
        ((List.range size).map f) =
      (List.range size).map fun i => f i && !(indices.any fun indice =>
        decide (indice.1 ≤ i) && decide (i < indice.2)) := by
  induction indices generalizing f with
  | nil => simp
  | cons indice rest ih =>
    rw [foldl_cons, assignFalse_map, ih]
    simp [Bool.and_assoc]

theorem notReusedMask_eq : input.notReusedMask 0 =
    (List.range input.length).map fun i => !input.reused i := by
  have hall : List.replicate input.length true =
      (List.range input.length).map fun _ => true := by simp
  rw [notReusedMask, hall, foldl_assignFalse]
  simp [reused]

theorem notReusedMask_getD {i : Nat} (hi : i < input.length) :
    (input.notReusedMask 0)[i]?.getD false = !input.reused i := by
  simp [notReusedMask_eq, hi]

theorem mem_whereTrue {i : Nat} : i ∈ whereTrue (input.notReusedMask 0) ↔
    i < input.length ∧ input.reused i = false := by
  have hlength : (input.notReusedMask 0).length = input.length := by
    simp [notReusedMask_eq]
  rw [whereTrue, mem_filter, mem_range, hlength]
  constructor
  · rintro ⟨hi, htrue⟩
    rw [notReusedMask_getD hi] at htrue
    exact ⟨hi, by simpa using htrue⟩
  · rintro ⟨hi, hfalse⟩
    exact ⟨hi, by rw [notReusedMask_getD hi, hfalse]; rfl⟩

theorem recomputedTokenNum_eq : input.recomputedTokenNum 0 ratio = input.share ratio := by
  have hsplit := (List.range input.length).length_eq_length_filter_add input.reused
  have hcount : (input.notReusedMask 0).count true =
      ((List.range input.length).filter fun i => !input.reused i).length := by
    rw [notReusedMask_eq, List.count, countP_map, countP_eq_length_filter]
    congr 2
    funext i
    simp
  rw [recomputedTokenNum, share, hcount, mul_comm ratio]
  congr 3
  rw [length_range] at hsplit
  have hcast : (input.length : ℚ) = _ := congrArg Nat.cast hsplit
  rw [hcast, Nat.cast_add, add_sub_cancel_right, reusedPositions]

theorem share_le (hratio : ratio ≤ 1) : input.share ratio ≤ input.length := by
  have hreused : input.reusedPositions.length ≤ input.length := by
    rw [reusedPositions]
    exact (length_filter_le _ _).trans_eq length_range
  apply le_trans _ hreused
  rw [share, Int.toNat_le, Int.ceil_le]
  exact_mod_cast mul_le_of_le_one_left (Nat.cast_nonneg _) hratio

variable [Zero β]

theorem maskedDeviation_reused {i : Nat} (hi : i < input.length) (hreused : input.reused i = true) :
    input.maskedDeviation 0 i = input.deviation i := by
  simp [maskedDeviation, notReusedMask_getD hi, hreused]

theorem maskedDeviation_notReused {i : Nat} (hi : i < input.length)
    (hreused : input.reused i = false) : input.maskedDeviation 0 i = 0 := by
  simp [maskedDeviation, notReusedMask_getD hi, hreused]

variable [LinearOrder β]

theorem mem_positives {i : Nat} : i ∈ input.positives ↔
    i < input.length ∧ input.reused i = true ∧ 0 < input.deviation i := by
  simp only [positives, reusedPositions, mem_filter, mem_range, decide_eq_true_eq, and_assoc]

theorem nodup_positives : input.positives.Nodup := (nodup_range.filter _).filter _

theorem reused_of_isTopk (henough : input.EnoughDeviations ratio) {recomputeIdx : List Nat}
    (htopk : IsTopk input.length (input.maskedDeviation 0) (input.share ratio)
      recomputeIdx) {p : Nat} (hp : p ∈ recomputeIdx) : input.reused p = true := by
  rcases henough with hall | hpositives
  · exact hall p (htopk.lt p hp)
  by_contra hfree
  rw [Bool.not_eq_true] at hfree
  -- `p` stands for zero, so everything above zero was taken besides it
  have hsub : p :: input.positives ⊆ recomputeIdx := by
    intro i hi
    rcases mem_cons.mp hi with rfl | hi
    · exact hp
    obtain ⟨hlt, hreused, hpos⟩ := mem_positives.mp hi
    by_contra hout
    have hle := htopk.largest p hp i hlt hout
    rw [maskedDeviation_reused hlt hreused, maskedDeviation_notReused (htopk.lt p hp) hfree] at hle
    exact absurd hpos (not_lt.mpr hle)
  have hnodup : (p :: input.positives).Nodup := by
    refine nodup_cons.mpr ⟨fun hmem => ?_, nodup_positives⟩
    rw [(mem_positives.mp hmem).2.1] at hfree
    exact Bool.noConfusion hfree
  have hlength := (hnodup.subperm hsub).length_le
  rw [htopk.length, length_cons] at hlength
  exact absurd hpositives (Nat.not_le.mpr hlength)

theorem exists_isTopk_notReused (hratio : ratio ≤ 1) (hfew : ¬ input.EnoughDeviations ratio) :
    ∃ recomputeIdx, IsTopk input.length (input.maskedDeviation 0) (input.share ratio) recomputeIdx ∧
      ∃ p ∈ recomputeIdx, p < input.length ∧ input.reused p = false := by
  rw [EnoughDeviations, not_or, not_le] at hfew
  obtain ⟨hfree, hfew⟩ := hfew
  simp only [not_forall, Bool.not_eq_true] at hfree
  obtain ⟨p, hp, hfree⟩ := hfree
  have htopk : IsTopk input.length (input.maskedDeviation 0)
      (input.share ratio) ((ranking input.length (input.maskedDeviation 0)
        fun i => !input.reused i).take (input.share ratio)) :=
    isTopk_take (share_le hratio)
  refine ⟨_, htopk, ?_⟩
  by_contra hnone
  -- then everything taken is preferred to `p`, hence reused and above zero
  have hsub : (ranking input.length (input.maskedDeviation 0)
      fun i => !input.reused i).take (input.share ratio) ⊆ input.positives := by
    intro i hi
    have hlt := htopk.lt i hi
    have hreused : input.reused i = true := by
      by_contra hi'
      exact hnone ⟨i, hi, hlt, by simpa using hi'⟩
    have hout := fun hmem => hnone ⟨p, hmem, hp, hfree⟩
    have hpref := prefers_iff.mp (prefers_of_take hi hp hout)
    rw [maskedDeviation_reused hlt hreused, maskedDeviation_notReused hp hfree] at hpref
    refine mem_positives.mpr ⟨hlt, hreused, hpref.resolve_right ?_⟩
    simp [hreused, hfree]
  have hlength := (htopk.nodup.subperm hsub).length_le
  rw [htopk.length] at hlength
  exact absurd hfew (Nat.not_lt.mpr hlength)

theorem selects_of_reused {recomputeIdx result : List Nat}
    (htopk : IsTopk input.length (input.maskedDeviation 0) (input.share ratio)
      recomputeIdx) (hreused : ∀ p ∈ recomputeIdx, input.reused p = true)
    (hperm : result.Perm (recomputeIdx ++ whereTrue (input.notReusedMask 0)))
    (hsorted : result.Pairwise (· ≤ ·)) : input.Selects ratio result := by
  have hmem : ∀ i, i ∈ result ↔ i ∈ recomputeIdx ∨ i < input.length ∧ input.reused i = false := by
    intro i
    rw [hperm.mem_iff, mem_append, mem_whereTrue]
  have hnodup : (recomputeIdx ++ whereTrue (input.notReusedMask 0)).Nodup := by
    refine nodup_append'.mpr ⟨htopk.nodup, nodup_range.filter _, ?_⟩
    intro i hi hfree
    exact Bool.false_ne_true ((mem_whereTrue.mp hfree).2.symm.trans (hreused i hi))
  have hidx : ∀ i ∈ result, input.reused i = true → i ∈ recomputeIdx := by
    intro i hi hi'
    refine ((hmem i).mp hi).resolve_right fun hfree => ?_
    exact Bool.false_ne_true (hfree.2.symm.trans hi')
  constructor
  · exact (hsorted.and (hperm.nodup_iff.mpr hnodup)).imp fun hpair => lt_of_le_of_ne hpair.1 hpair.2
  · intro i hi
    exact ((hmem i).mp hi).elim (htopk.lt i) And.left
  · intro i hi hfree
    exact (hmem i).mpr (Or.inr ⟨hi, hfree⟩)
  · have hnone : (whereTrue (input.notReusedMask 0)).filter input.reused = [] := by
      refine filter_eq_nil_iff.mpr fun i hi => ?_
      rw [(mem_whereTrue.mp hi).2]
      exact Bool.false_ne_true
    rw [(hperm.filter _).length_eq, filter_append, hnone, append_nil,
      filter_eq_self.mpr hreused, htopk.length]
  · intro i hi hi' j hj hj' hout
    have hle := htopk.largest i (hidx i hi hi') j hj fun hmem' => hout ((hmem j).mpr (Or.inl hmem'))
    rwa [maskedDeviation_reused hj hj',
      maskedDeviation_reused (htopk.lt i (hidx i hi hi')) hi'] at hle

omit [Zero β] in
theorem not_selects_of_notReused {recomputeIdx result : List Nat} {p : Nat} (hp : p ∈ recomputeIdx)
    (hlt : p < input.length) (hfree : input.reused p = false)
    (hperm : result.Perm (recomputeIdx ++ whereTrue (input.notReusedMask 0))) :
    ¬ input.Selects ratio result := by
  intro hselects
  have hnodup := hperm.nodup_iff.mp (hselects.increasing.imp ne_of_lt)
  exact (nodup_append'.mp hnodup).2.2 hp (mem_whereTrue.mpr ⟨hlt, hfree⟩)

theorem blendForward_alwaysSelects (hratio : ratio ≤ 1) :
    input.AlwaysSelects ratio (input.blendForward 0 ratio) ↔ input.EnoughDeviations ratio := by
  simp only [AlwaysSelects, blendForward, recomputedTokenNum_eq]
  constructor
  · rintro ⟨-, hselects⟩
    by_contra hfew
    obtain ⟨recomputeIdx, htopk, p, hp, hlt, hfree⟩ := exists_isTopk_notReused hratio hfew
    exact not_selects_of_notReused hp hlt hfree (perm_insertionSort _ _)
      (hselects _ ⟨recomputeIdx, htopk, rfl⟩)
  · intro henough
    constructor
    · exact ⟨_, (ranking input.length (input.maskedDeviation 0)
        fun _ => true).take _, isTopk_take (share_le hratio), rfl⟩
    · rintro result ⟨recomputeIdx, htopk, rfl⟩
      exact selects_of_reused htopk (fun p hp => reused_of_isTopk henough htopk hp)
        (perm_insertionSort _ _) (pairwise_insertionSort _ _)

/-- Both versions, with ablation off: the selection is right in every run
exactly if all positions are reused or enough reused ones deviate. -/
theorem alwaysSelects_iff (input : BlendInput β) (config : SelectConfig)
    (hablation : config.offset = 0) (hratio : config.ratio ∈ Set.Icc 0 1) :
    (input.AlwaysSelects (15 / 100) input.vllmBlendForward ↔ input.EnoughDeviations (15 / 100)) ∧
    (input.AlwaysSelects config.ratio (input.transformersBlendForward config) ↔
      input.EnoughDeviations config.ratio) := by
  constructor
  · exact blendForward_alwaysSelects (by norm_num)
  · rw [transformersBlendForward, hablation]
    exact blendForward_alwaysSelects hratio.2

end BlendInput

/-- Two positions, of which the second is reused and deviates by nothing. -/
def unchangedToken : BlendInput ℚ := ⟨2, [(1, 2)], fun _ => 0⟩

def defaultConfig : SelectConfig := ⟨none, none⟩

theorem alwaysSelects_iff_unchangedToken :
    (unchangedToken.AlwaysSelects (15 / 100) unchangedToken.vllmBlendForward ↔
      unchangedToken.EnoughDeviations (15 / 100)) ∧
    (unchangedToken.AlwaysSelects defaultConfig.ratio
        (unchangedToken.transformersBlendForward defaultConfig) ↔
      unchangedToken.EnoughDeviations defaultConfig.ratio) :=
  BlendInput.alwaysSelects_iff unchangedToken defaultConfig rfl
    ⟨by norm_num [defaultConfig, SelectConfig.ratio],
      by norm_num [defaultConfig, SelectConfig.ratio]⟩

/-- The position that is not reused may be returned twice, and the reused one
not at all. -/
theorem not_selects_unchangedToken : unchangedToken.vllmBlendForward [0, 0] ∧
    ¬ unchangedToken.Selects (15 / 100) [0, 0] := by
  constructor
  · refine ⟨[0], ⟨?_, ?_, ?_, ?_, ?_⟩, ?_⟩
    all_goals decide +kernel
  · intro hselects
    exact absurd hselects.increasing (by decide)

end TokenSelection
end CatKV
