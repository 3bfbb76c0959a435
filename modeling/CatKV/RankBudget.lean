/-
How many singular values a compressed chunk keeps.  The native compressor and
`Ours.compress_multi` turn a ratio into a rank, cap the residual rows that the
elbow search asks for, and split the budget into low and high ranks.  Doubles
are exact rationals here, and the outcome of the elbow search is arbitrary.
-/
import Mathlib.Data.Rat.Floor
import Mathlib.Tactic.Linarith
import Mathlib.Tactic.NormNum
import Mathlib.Tactic.Positivity
import Mathlib.Tactic.Ring
import CatKV.GroupCompressor

namespace CatKV
namespace RankBudget

/-! ### The native allocation -/

/-- The bits of a quantized rank: a column of `u`, a row of `sv` and their
scales. -/
def budgetPerRank (tokenNum hiddenDim : Nat) : ℚ := 4 * 16 + (tokenNum + hiddenDim) * 4

/-- The bytes of a tensor, cut to the ratio and shared by the chunks. -/
def totalOriginalMemBytes (ratio : ℚ)
    (numLayers seqLen hiddenDim elementSize groupCount : Nat) : ℚ :=
  numLayers * seqLen * hiddenDim * elementSize * ratio / groupCount

def calculateMultiRank (ratio : ℚ)
    (numLayers seqLen hiddenDim groupCount elementSize : Nat) : Int :=
  let tokenNum := seqLen / max groupCount 1
  let allRank := ⌊totalOriginalMemBytes ratio numLayers seqLen hiddenDim
    elementSize (max groupCount 1) * 8 / budgetPerRank tokenNum hiddenDim⌋
  max 0 (min allRank (min (Grouped.maxRank tokenNum) (min 1024 tokenNum)))

/-- The bits that a high rank is charged with: a quantized column of `u` and
its scale, and a row of `sv` in full. -/
def chargePerHighRank (tokenNum hiddenDim : Nat) : ℚ := tokenNum * 4 + 2 * 16 + hiddenDim * 16

def allocateLowRankMulti (totalBudgetBytes : ℚ) (hiddenDim tokenNum : Nat)
    (highRank : Int) : Int × Int :=
  let lowRank := ⌊(totalBudgetBytes * 8 - highRank * chargePerHighRank tokenNum hiddenDim) /
      budgetPerRank tokenNum hiddenDim⌋
  if lowRank < 0 then (0, ⌊totalBudgetBytes * 8 / chargePerHighRank tokenNum hiddenDim⌋)
  else (lowRank, highRank)

/-! ### What `compress` emits -/

/-- One layer of `seqLen` tokens with elements of two bytes, and what the elbow
search returns for keys and values. -/
structure CompressInput where
  seqLen : Nat
  hiddenDim : Nat
  ratio : ℚ
  keyElbow : Nat
  valueElbow : Nat

namespace CompressInput

variable (input : CompressInput)

def budget : ℚ := totalOriginalMemBytes input.ratio 1 input.seqLen input.hiddenDim 2 1

def rank : Int := calculateMultiRank input.ratio 1 input.seqLen input.hiddenDim 1 2

def residualDim (elbow : Nat) : Int := min elbow (max (input.rank - 1) 0)

/-- The low and the high ranks that the budget is split into. -/
def ranks : Int × Int :=
  allocateLowRankMulti input.budget input.hiddenDim input.seqLen
    ((input.residualDim input.keyElbow + input.residualDim input.valueElbow) / 2)

def finalRank : Int := min input.rank (max 0 (input.ranks.1 + input.ranks.2))

/-- The rows of `u` and `sv`: a slice ends with the columns of the factors. -/
def rows : Int := min input.finalRank (min input.seqLen input.hiddenDim)

/-- The rows of a residual, cut from `sv`. -/
def residualRows (elbow : Nat) : Int := min (input.residualDim elbow) input.rows

/-- `u_quantized`, `u_meta`, the quantized rows and scales of both `sv`, and
the two residuals. -/
def emittedBytes : Int :=
  2 * input.rows * ((input.seqLen + 1) / 2) + 2 * input.rows * 2 * 2 +
    2 * input.rows * ((input.hiddenDim + 1) / 2) + 2 * input.rows * 2 * 2 +
    (input.residualRows input.keyElbow + input.residualRows input.valueElbow) * input.hiddenDim * 2

/-- The bytes of the key and value tensors. -/
def originalBytes : Nat := 2 * (input.seqLen * input.hiddenDim * 2)

def RespectsBudget : Prop := input.emittedBytes ≤ input.ratio * input.originalBytes

/-! The split charges a low rank with `budgetPerRank` bits and a high one with
`chargePerHighRank`, for keys and values alike. -/

/-- The bits that the split leaves over. -/
def unusedBits : ℚ :=
  input.budget * 8 - (input.ranks.1 * budgetPerRank input.seqLen input.hiddenDim +
    input.ranks.2 * chargePerHighRank input.seqLen input.hiddenDim)

/-- The ranks that are charged and not kept. -/
def droppedRanks : Int := input.ranks.1 + input.ranks.2 - input.rows

/-- What is stored and not charged: the quantized row of `sv` of every high rank
with its scale, and the residual rows beyond two for a high rank. -/
def unchargedBits : Int :=
  input.ranks.2 * (4 * input.hiddenDim + 32) + 8 * input.hiddenDim *
    (input.residualRows input.keyElbow + input.residualRows input.valueElbow - 2 * input.ranks.2)

end CompressInput

/-! ### The budget -/

theorem budgetPerRank_pos (tokenNum hiddenDim : Nat) : 0 < budgetPerRank tokenNum hiddenDim := by
  have htoken : (0 : ℚ) ≤ tokenNum := Nat.cast_nonneg _
  have hhidden : (0 : ℚ) ≤ hiddenDim := Nat.cast_nonneg _
  rw [budgetPerRank]
  linarith

instance (input : CompressInput) : Decidable input.RespectsBudget :=
  inferInstanceAs (Decidable (_ ≤ _))

theorem emittedBytes_eq {input : CompressInput} (hseqLen : Even input.seqLen)
    (hhidden : Even input.hiddenDim) : input.emittedBytes =
      input.rows * (input.seqLen + input.hiddenDim + 16) + 2 * input.hiddenDim *
        (input.residualRows input.keyElbow + input.residualRows input.valueElbow) := by
  obtain ⟨tokens, htokens⟩ := hseqLen
  obtain ⟨columns, hcolumns⟩ := hhidden
  have htokenHalf : ((input.seqLen : Int) + 1) / 2 = tokens := by omega
  have hcolumnHalf : ((input.hiddenDim : Int) + 1) / 2 = columns := by omega
  rw [CompressInput.emittedBytes, htokenHalf, hcolumnHalf, htokens, hcolumns]
  push_cast
  ring

/-- A call of `compress_multi`: what it is given, the outcome of the elbow
search for the keys, and the length and outcome for the values of each chunk.  A
chunk without tokens has no factors on either side. -/
structure MultiInput where
  ratio : ℚ
  numLayers : Nat
  seqLen : Nat
  hiddenDim : Nat
  elementSize : Nat
  keyElbow : Nat
  chunks : List (Nat × Nat)
  lengths : ∀ chunk ∈ chunks, 0 < chunk.1

/-- What is chosen for a chunk. -/
@[ext]
structure ChunkChoice where
  initialRank : Int
  keyResidualDim : Int
  valueResidualDim : Int
  finalRank : Int
deriving Repr, DecidableEq

namespace MultiInput

variable (input : MultiInput)

def groupCount : Nat := input.chunks.length

def tokenNum : Nat := input.seqLen / input.groupCount

def totalBytes : ℚ :=
  totalOriginalMemBytes input.ratio input.numLayers input.seqLen
    input.hiddenDim input.elementSize input.groupCount

/-- A chunk's part of `compress_multi_impl`. -/
def nativeChoice (rank : Int) (chunk : Nat × Nat) : ChunkChoice :=
  let maxResidualRank := max (rank - 1) 0
  let keyResidualDim := min (input.keyElbow : Int) maxResidualRank
  let valueResidualDim := min (chunk.2 : Int) maxResidualRank
  let ranks := allocateLowRankMulti input.totalBytes input.hiddenDim
    input.tokenNum ((keyResidualDim + valueResidualDim) / 2)
  ⟨min rank chunk.1, keyResidualDim, valueResidualDim, max 0 (ranks.1 + ranks.2)⟩

def native : List ChunkChoice :=
  input.chunks.map (input.nativeChoice (calculateMultiRank input.ratio
    input.numLayers input.seqLen input.hiddenDim input.groupCount
    input.elementSize))

/-- `UniformAllocate().allocate`, called with one layer. -/
def allocate : Int :=
  let allRank := ⌊input.totalBytes * 8 / budgetPerRank input.tokenNum input.hiddenDim⌋
  let rank := allRank / 1 * 1
  min (Grouped.maxRank input.tokenNum : Int) (min rank (min 1024 input.tokenNum))

/-- `allocate_low_rank`. -/
def allocateLowRank (highRank : Int) : Int × Int :=
  let lowRank := ⌊(input.totalBytes * 8 - (highRank * input.tokenNum * 4 +
    highRank * 2 * 16 + highRank * input.hiddenDim * 16)) /
      budgetPerRank input.tokenNum input.hiddenDim⌋
  if lowRank < 0 then
    (0, ⌊input.totalBytes * 8 / (input.tokenNum * 4 + 2 * 16 + input.hiddenDim * 16)⌋)
  else (lowRank, highRank)

def maxResidualRank (finalRanks : Int) : Int :=
  if input.ratio < 1 / 10 then ⌊(max (finalRanks - 1) 0 : Int) * (1 / 10 : ℚ)⌋
  else max (finalRanks - 1) 0

/-- A chunk's part of `Ours.compress_multi`. -/
def pythonChoice (finalRanks : Int) (chunk : Nat × Nat) : ChunkChoice :=
  let keyResidualDim := min (input.keyElbow : Int) (input.maxResidualRank finalRanks)
  let valueResidualDim := min (chunk.2 : Int) (input.maxResidualRank finalRanks)
  let ranks := input.allocateLowRank ((keyResidualDim + valueResidualDim) / 2)
  ⟨min finalRanks chunk.1, keyResidualDim, valueResidualDim, ranks.1 + ranks.2⟩

/-- Without chunks the division by `group_size` raises, and without a rank
`calculate_elbow` does, which has no first point then. -/
def python : Option (List ChunkChoice) :=
  if input.groupCount = 0 ∨ input.allocate = 0 then none
  else some (input.chunks.map (input.pythonChoice input.allocate))

/-- The rank that both sides start from. -/
def rank : Int :=
  calculateMultiRank input.ratio input.numLayers input.seqLen input.hiddenDim
    input.groupCount input.elementSize

/-- The outcomes of all elbow searches of the call. -/
def elbows : List Nat := input.keyElbow :: input.chunks.map Prod.snd

/-- A chunk has tokens and budget for a number of ranks. -/
def Affords (ranks : Nat) : Prop :=
  ranks ≤ input.tokenNum ∧ ranks ≤ Grouped.maxRank input.tokenNum ∧
    ranks * budgetPerRank input.tokenNum input.hiddenDim ≤ input.totalBytes * 8

variable {input}

theorem totalBytes_nonneg (hratio : 0 < input.ratio) : 0 ≤ input.totalBytes := by
  rw [totalBytes, totalOriginalMemBytes]
  positivity

theorem allocate_eq_rank (hratio : 0 < input.ratio)
    (hchunks : input.groupCount ≠ 0) : input.allocate = input.rank := by
  have hmax : max input.groupCount 1 = input.groupCount := by omega
  have hnonneg : 0 ≤ ⌊input.totalBytes * 8 / budgetPerRank input.tokenNum input.hiddenDim⌋ :=
    Int.floor_nonneg.mpr (div_nonneg (mul_nonneg (totalBytes_nonneg hratio) (by norm_num))
      (budgetPerRank_pos _ _).le)
  simp only [rank, calculateMultiRank, hmax, allocate, Int.ediv_one, mul_one]
  rw [← tokenNum, ← totalBytes]
  omega

theorem allocateLowRank_eq (highRank : Int) : input.allocateLowRank highRank =
    allocateLowRankMulti input.totalBytes input.hiddenDim input.tokenNum highRank := by
  have hcharge : (highRank * input.tokenNum * 4 + highRank * 2 * 16 +
      highRank * input.hiddenDim * 16 : ℚ) =
        highRank * chargePerHighRank input.tokenNum input.hiddenDim := by
    rw [chargePerHighRank]
    ring
  rw [allocateLowRank, hcharge]
  rfl

theorem allocateLowRankMulti_nonneg (hratio : 0 < input.ratio) {highRank : Int}
    (hhigh : 0 ≤ highRank) :
    0 ≤ (allocateLowRankMulti input.totalBytes input.hiddenDim input.tokenNum highRank).1 +
      (allocateLowRankMulti input.totalBytes input.hiddenDim input.tokenNum highRank).2 := by
  rw [allocateLowRankMulti]
  split
  next =>
    have hbytes := totalBytes_nonneg hratio
    have hfloor : 0 ≤ ⌊input.totalBytes * 8 /
        chargePerHighRank input.tokenNum input.hiddenDim⌋ := by
      rw [Int.floor_nonneg, chargePerHighRank]
      positivity
    dsimp only
    omega
  next hlow =>
    dsimp only
    omega

theorem pythonChoice_eq_iff (hratio : 0 < input.ratio) {rank : Int} {chunk : Nat × Nat} :
    input.pythonChoice rank chunk = input.nativeChoice rank chunk ↔
      min (input.keyElbow : Int) (input.maxResidualRank rank) =
          min (input.keyElbow : Int) (max (rank - 1) 0) ∧
        min (chunk.2 : Int) (input.maxResidualRank rank) =
          min (chunk.2 : Int) (max (rank - 1) 0) := by
  constructor
  · intro heq
    exact ⟨congrArg ChunkChoice.keyResidualDim heq, congrArg ChunkChoice.valueResidualDim heq⟩
  · rintro ⟨hkey, hvalue⟩
    have hhigh : 0 ≤ (min (input.keyElbow : Int) (max (rank - 1) 0) +
        min (chunk.2 : Int) (max (rank - 1) 0)) / 2 := by
      omega
    have hsum := allocateLowRankMulti_nonneg hratio hhigh
    simp only [pythonChoice, nativeChoice, hkey, hvalue, allocateLowRank_eq, max_eq_right hsum]

/-- The cap that Python applies to small ratios cuts an elbow exactly if the
elbow is above a tenth of the rank. -/
theorem min_maxResidualRank_iff {rank : Int} (elbow : Nat) :
    min (elbow : Int) (input.maxResidualRank rank) = min (elbow : Int) (max (rank - 1) 0) ↔
      1 / 10 ≤ input.ratio ∨ rank ≤ 1 ∨ (elbow : Int) ≤ (rank - 1) / 10 := by
  rw [maxResidualRank]
  split
  next hsmall =>
    have hfloor : ⌊((max (rank - 1) 0 : Int) : ℚ) * (1 / 10)⌋ = max (rank - 1) 0 / 10 := by
      rw [mul_one_div]
      exact_mod_cast Rat.floor_intCast_div_natCast (max (rank - 1) 0) 10
    rw [hfloor]
    have hnot : ¬ 1 / 10 ≤ input.ratio := not_le.mpr hsmall
    simp only [hnot, false_or]
    omega
  next hlarge => exact ⟨fun _ => Or.inl (not_lt.mp hlarge), fun _ => rfl⟩

theorem le_allocate_iff {ranks : Nat} : (ranks : Int) ≤ input.allocate ↔ input.Affords ranks := by
  have hcap : Grouped.maxRank input.tokenNum ≤ 1024 := by
    unfold Grouped.maxRank
    split <;> [decide; split <;> decide]
  have hfloor : (ranks : Int) ≤ ⌊input.totalBytes * 8 /
      budgetPerRank input.tokenNum input.hiddenDim⌋ ↔
      ranks * budgetPerRank input.tokenNum input.hiddenDim ≤ input.totalBytes * 8 := by
    rw [Int.le_floor, le_div_iff₀ (budgetPerRank_pos _ _), Int.cast_natCast]
  simp only [allocate, Int.ediv_one, mul_one, le_min_iff, hfloor, Affords, Nat.cast_le]
  constructor
  · rintro ⟨hmax, hbudget, -, htokens⟩
    exact ⟨htokens, hmax, hbudget⟩
  · rintro ⟨htokens, hmax, hbudget⟩
    exact ⟨hmax, hbudget, by omega, htokens⟩

end MultiInput

/-- Two chunks of 512 tokens at a tenth. -/
def tenth : MultiInput := ⟨1 / 10, 1, 1024, 1024, 2, 40, [(512, 30), (512, 90)], by decide⟩

end RankBudget
end CatKV
