/-
The two branches of `Ours.svd`.  `torch.svd_lowrank` is used first, and
`torch.svd` when that raises; both are taken to return the same exact thin
decomposition, the first one cut to the rank.  The fallback cuts the rows of
the right factor instead of its columns.
-/
import Mathlib.Algebra.BigOperators.Ring.Finset
import Mathlib.Data.Real.Basic
import Mathlib.Tactic.Linarith

namespace CatKV
namespace SvdFallback

/-- A matrix of a given shape; what `get` says outside the shape means
nothing. -/
structure Mat (α : Type) where
  rows : Nat
  columns : Nat
  get : Nat → Nat → α

namespace Mat

variable {α : Type}

/-- `m.transpose(-1, -2)`. -/
def transpose (mat : Mat α) : Mat α := ⟨mat.columns, mat.rows, fun i j => mat.get j i⟩

/-- `m[:, :count]`. -/
def takeColumns (count : Nat) (mat : Mat α) : Mat α := { mat with columns := min count mat.columns }

/-- `m[:count, :]`. -/
def takeRows (count : Nat) (mat : Mat α) : Mat α := { mat with rows := min count mat.rows }

/-- Equal shapes and equal cells. -/
structure Same (mat other : Mat α) : Prop where
  rows : mat.rows = other.rows
  columns : mat.columns = other.columns
  cells : ∀ i < mat.rows, ∀ j < mat.columns, mat.get i j = other.get i j

theorem Same.refl (mat : Mat α) : Same mat mat := ⟨rfl, rfl, fun _ _ _ _ => rfl⟩

end Mat

/-- An exact thin decomposition `A = U diag(S) Vᵀ` of an `m` by `n` matrix, with
the singular values in falling order. -/
structure ThinSvd (m n : Nat) where
  matrix : Nat → Nat → ℝ
  u : Nat → Nat → ℝ
  s : Nat → ℝ
  v : Nat → Nat → ℝ
  orthonormal_u : ∀ a < min m n, ∀ b < min m n,
    ∑ i ∈ Finset.range m, u i a * u i b = if a = b then 1 else 0
  orthonormal_v : ∀ a < min m n, ∀ b < min m n,
    ∑ j ∈ Finset.range n, v j a * v j b = if a = b then 1 else 0
  nonneg : ∀ a < min m n, 0 ≤ s a
  antitone : ∀ a b, a ≤ b → b < min m n → s b ≤ s a
  exact : ∀ i < m, ∀ j < n, matrix i j = ∑ a ∈ Finset.range (min m n), u i a * s a * v j a

/-- What `Ours.svd` returns of a decomposition: `u`, `s` as a row, and `vh`. -/
structure Triple (α : Type) where
  u : Mat α
  s : Mat α
  vh : Mat α

structure Triple.Same {α : Type} (triple other : Triple α) : Prop where
  u : Mat.Same triple.u other.u
  s : Mat.Same triple.s other.s
  vh : Mat.Same triple.vh other.vh

namespace ThinSvd

variable {m n : Nat} (svd : ThinSvd m n) (rank : Nat)

/-- `torch.svd`. -/
def torchSvd : Triple ℝ :=
  ⟨⟨m, min m n, svd.u⟩, ⟨1, min m n, fun _ a => svd.s a⟩, ⟨n, min m n, svd.v⟩⟩

/-- `torch.svd_lowrank`: the leading triples. -/
def torchSvdLowrank : Triple ℝ :=
  ⟨svd.torchSvd.u.takeColumns rank, svd.torchSvd.s.takeColumns rank,
    svd.torchSvd.vh.takeColumns rank⟩

def mainBranch : Triple ℝ :=
  let factors := svd.torchSvdLowrank rank
  ⟨factors.u, factors.s, factors.vh.transpose⟩

def fallbackBranch : Triple ℝ :=
  let factors := svd.torchSvd
  let v := (factors.vh.takeRows rank).transpose
  ⟨factors.u.takeColumns rank, factors.s.takeColumns rank, v.transpose⟩

/-- Both branches return the same. -/
def BranchesAgree : Prop := (svd.fallbackBranch rank).Same (svd.mainBranch rank)

variable {svd rank}

theorem branchesAgree_iff_vh : svd.BranchesAgree rank ↔
    (min rank n = min rank (min m n) ∧ min m n = n ∧
      ∀ i < min rank n, ∀ j < min m n, svd.v i j = svd.v j i) := by
  constructor
  · intro hagree
    exact ⟨hagree.vh.rows, hagree.vh.columns, hagree.vh.cells⟩
  · rintro ⟨hrows, hcolumns, hcells⟩
    exact ⟨Mat.Same.refl _, Mat.Same.refl _, hrows, hcolumns, hcells⟩

end ThinSvd

theorem sum_single_mul {size : Nat} {row : Nat → Nat} (value : Nat → ℝ)
    (hrow : Function.Injective row) {a : Nat} (b : Nat) (ha : row a < size)
    (hvalue : value a * value a = 1) :
    ∑ i ∈ Finset.range size, (if i = row a then value a else 0) *
        (if i = row b then value b else 0) = if a = b then 1 else 0 := by
  simp only [ite_mul, zero_mul, Finset.sum_ite_eq', Finset.mem_range, ha, if_true]
  by_cases hab : a = b
  · subst hab
    simp [hvalue]
  · have hne : row a ≠ row b := fun heq => hab (hrow heq)
    simp [hab, hne]

/-- The first two rows change places. -/
def swapRows (a : Nat) : Nat :=
  if a = 0 then 1 else if a = 1 then 0 else a

theorem swapRows_swapRows (a : Nat) : swapRows (swapRows a) = a := by
  simp only [swapRows]
  grind

theorem swapRows_lt {m n a : Nat} (hwide : 2 ≤ n ∨ m = 0) (ha : a < min m n) : swapRows a < n := by
  simp only [swapRows]
  grind

/-- A decomposition whose right factor takes the first two columns into each
other, the second one with its sign changed. -/
noncomputable def signedSwap (m n : Nat) (hwide : 2 ≤ n ∨ m = 0) : ThinSvd m n where
  matrix i j := ∑ a ∈ Finset.range (min m n), (if i = a then 1 else 0) * ((m : ℝ) - a) *
      (if j = swapRows a then (if a = 1 then -1 else 1) else 0)
  u i a := if i = a then 1 else 0
  s a := (m : ℝ) - a
  v j a := if j = swapRows a then (if a = 1 then -1 else 1) else 0
  orthonormal_u _ ha b _ := sum_single_mul (fun _ => 1)
    Function.injective_id b (lt_of_lt_of_le ha (min_le_left _ _)) (one_mul 1)
  orthonormal_v _ ha b _ := sum_single_mul (fun a => if a = 1 then -1 else 1)
    (Function.LeftInverse.injective swapRows_swapRows) b
    (swapRows_lt hwide ha) (by split <;> norm_num)
  nonneg a ha := by
    have hle : (a : ℝ) ≤ m := by exact_mod_cast (lt_min_iff.mp ha).1.le
    linarith
  antitone a b hab _ := by
    have hle : (a : ℝ) ≤ b := by exact_mod_cast hab
    linarith
  exact _ _ _ _ := rfl

theorem signedSwap_cells {m n : Nat} (hwide : 2 ≤ n ∨ m = 0) :
    (signedSwap m n hwide).v 0 1 ≠ (signedSwap m n hwide).v 1 0 := by
  simp only [signedSwap, swapRows]
  norm_num

/-- The branches agree on every decomposition of a shape exactly if the matrix
is not wider than high, and nothing is kept or there is at most one column. -/
theorem branchesAgree_iff (m n rank : Nat) : (∀ svd : ThinSvd m n, svd.BranchesAgree rank) ↔
    n ≤ m ∧ (rank = 0 ∨ n ≤ 1) := by
  simp only [ThinSvd.branchesAgree_iff_vh]
  constructor
  · intro hall
    by_contra hnot
    have hwide : 2 ≤ n ∨ m = 0 := by omega
    obtain ⟨-, hcolumns, hcells⟩ := hall (signedSwap m n hwide)
    exact signedSwap_cells hwide (hcells 0 (by omega) 1 (by omega))
  · rintro ⟨hhigh, hshape⟩ svd
    refine ⟨by omega, by omega, ?_⟩
    intro i hi j hj
    obtain ⟨rfl, rfl⟩ : i = 0 ∧ j = 0 := by omega
    rfl

/-- On two rows and two columns with one kept triple, the fallback returns the
first row of the right factor for its first column. -/
theorem not_branchesAgree_signedSwap : ¬ (signedSwap 2 2 (Or.inl le_rfl)).BranchesAgree 1 := by
  rw [ThinSvd.branchesAgree_iff_vh]
  rintro ⟨-, -, hcells⟩
  exact signedSwap_cells (Or.inl le_rfl) (hcells 0 Nat.one_pos 1 Nat.one_lt_two)

end SvdFallback
end CatKV
