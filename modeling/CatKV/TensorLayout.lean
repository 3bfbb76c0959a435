/-
Contiguous tensors of three dimensions in flat memory.  A cell has a position
in the buffer; threads that each write one position leave the values they
wrote, as long as no two write the same one.
-/
import Mathlib.Data.Finset.Card
import Mathlib.Data.List.Basic
import Mathlib.Logic.Function.Basic
import Mathlib.Tactic.Ring

namespace CatKV

open List

universe u v

/-- The position of cell `(i, j, k)` in a contiguous tensor of shape
`[_, rows, columns]`. -/
def cell (rows columns i j k : Nat) : Nat := (i * rows + j) * columns + k

variable {rows columns i j k : Nat}

theorem cell_lt {count : Nat} (hi : i < count) (hj : j < rows)
    (hk : k < columns) : cell rows columns i j k < count * rows * columns := by
  have hrow : i * rows + j < count * rows := by
    have hnext : (i + 1) * rows ≤ count * rows := Nat.mul_le_mul_right _ hi
    rw [Nat.add_mul, Nat.one_mul] at hnext
    omega
  have hnext : (i * rows + j + 1) * columns ≤ count * rows * columns := Nat.mul_le_mul_right _ hrow
  rw [Nat.add_mul, Nat.one_mul] at hnext
  rw [cell]
  omega

theorem cell_mod (hk : k < columns) : cell rows columns i j k % columns = k := by
  rw [cell, Nat.mul_add_mod_of_lt hk]

theorem cell_div (hk : k < columns) : cell rows columns i j k / columns = i * rows + j := by
  rw [cell, Nat.mul_comm, Nat.mul_add_div (by omega), Nat.div_eq_of_lt hk, Nat.add_zero]

theorem cell_row (hj : j < rows) (hk : k < columns) :
    cell rows columns i j k / columns % rows = j := by
  rw [cell_div hk, Nat.mul_add_mod_of_lt hj]

theorem cell_batch (hj : j < rows) (hk : k < columns) :
    cell rows columns i j k / (columns * rows) = i := by
  rw [← Nat.div_div_eq_div_mul, cell_div hk, Nat.mul_comm,
    Nat.mul_add_div (by omega), Nat.div_eq_of_lt hj, Nat.add_zero]

theorem cell_quotients (rows columns idx : Nat) :
    cell rows columns (idx / (columns * rows)) (idx / columns % rows) (idx % columns) = idx := by
  rw [cell, ← Nat.div_div_eq_div_mul, Nat.mul_comm _ rows, Nat.div_add_mod,
    Nat.mul_comm, Nat.div_add_mod]

theorem exists_cell {count idx : Nat} (hidx : idx < count * rows * columns) :
    ∃ i < count, ∃ j < rows, ∃ k < columns, idx = cell rows columns i j k := by
  have hcolumns : 0 < columns := by
    apply Nat.pos_of_ne_zero
    rintro rfl
    exact Nat.not_lt_zero _ hidx
  have hrows : 0 < rows := by
    apply Nat.pos_of_ne_zero
    rintro rfl
    rw [Nat.mul_zero, Nat.zero_mul] at hidx
    exact Nat.not_lt_zero _ hidx
  refine ⟨idx / (columns * rows), ?_, idx / columns % rows, Nat.mod_lt _ hrows, idx % columns,
    Nat.mod_lt _ hcolumns, (cell_quotients rows columns idx).symm⟩
  rw [Nat.div_lt_iff_lt_mul (Nat.mul_pos hcolumns hrows)]
  calc idx < count * rows * columns := hidx
    _ = count * (columns * rows) := by ring

theorem cell_inj {i' j' k' : Nat} (hj : j < rows) (hk : k < columns) (hj' : j' < rows)
    (hk' : k' < columns) (heq : cell rows columns i j k = cell rows columns i' j' k') :
    i = i' ∧ j = j' ∧ k = k' := by
  refine ⟨?_, ?_, ?_⟩
  · rw [← cell_batch (i := i) hj hk, heq, cell_batch hj' hk']
  · rw [← cell_row (i := i) hj hk, heq, cell_row hj' hk']
  · rw [← cell_mod (i := i) (j := j) hk, heq, cell_mod hk']

/-- A tensor of a given shape; what `get` says outside the shape means
nothing. -/
@[ext]
structure Tensor3 (batches rows columns : Nat) (α : Type u) where
  get : Nat → Nat → Nat → α

namespace Tensor3

variable {batches rows columns : Nat} {α : Type u} {β : Type v}

/-- The memory from a contiguous tensor's first element on, both ways. -/
def storage (tensor : Tensor3 batches rows columns α) (outside : Int → α) :
    Int → α := fun position =>
  if 0 ≤ position ∧ position < (batches * rows * columns : Nat) then
    tensor.get (position.toNat / (columns * rows))
      (position.toNat / columns % rows) (position.toNat % columns)
  else outside position

theorem storage_cell (tensor : Tensor3 batches rows columns α) (outside : Int → α) {i j k : Nat}
    (hi : i < batches) (hj : j < rows) (hk : k < columns) :
    tensor.storage outside (cell rows columns i j k) = tensor.get i j k := by
  have hlt := cell_lt hi hj hk
  rw [storage, if_pos ⟨Int.natCast_nonneg _, by exact_mod_cast hlt⟩,
    Int.toNat_natCast, cell_batch hj hk, cell_row hj hk, cell_mod hk]

theorem storage_congr {tensor other : Tensor3 batches rows columns α}
    (heq : ∀ i < batches, ∀ j < rows, ∀ k < columns,
      tensor.get i j k = other.get i j k) (outside : Int → α) :
    tensor.storage outside = other.storage outside := by
  funext position
  rw [storage, storage]
  split
  next hin =>
    have hlt : position.toNat < batches * rows * columns := by omega
    obtain ⟨i, hi, j, hj, k, hk, hcell⟩ := exists_cell hlt
    rw [hcell, cell_batch hj hk, cell_row hj hk, cell_mod hk]
    exact heq i hi j hj k hk
  next => rfl

/-- A list of rows as a tensor of one batch. -/
def ofRows [Inhabited α] (list : List (List α)) : Tensor3 1 list.length columns α :=
  ⟨fun _ j k => (list.getD j []).getD k default⟩

/-- The tensor whose cells hold their own positions. -/
def positions : Tensor3 batches rows columns Int := ⟨fun i j k => cell rows columns i j k⟩

@[simp]
theorem get_positions (i j k : Nat) : (positions : Tensor3 batches rows columns Int).get i j k =
    cell rows columns i j k := rfl

@[simp]
theorem storage_positions : (positions : Tensor3 batches rows columns Int).storage id = id := by
  funext position
  rw [storage]
  split
  next hin =>
    rw [get_positions, cell_quotients, Int.toNat_of_nonneg hin.1]
    rfl
  next => rfl

def map (f : α → β) (tensor : Tensor3 batches rows columns α) : Tensor3 batches rows columns β :=
  ⟨fun i j k => f (tensor.get i j k)⟩

theorem storage_map (f : α → β) (tensor : Tensor3 batches rows columns α) (outside : Int → α) :
    (tensor.map f).storage (f ∘ outside) = f ∘ tensor.storage outside := by
  funext position
  simp only [storage, map, Function.comp_apply]
  split
  · rfl
  · rfl

/-- `torch.cat` along the last dimension. -/
def catColumns {columns' : Nat} (first : Tensor3 batches rows columns α)
    (second : Tensor3 batches rows columns' α) :
    Tensor3 batches rows (columns + columns') α :=
  ⟨fun i j k => if k < columns then first.get i j k else second.get i j (k - columns)⟩

/-- `torch.cat` along the first dimension. -/
def catBatches {batches' : Nat} (first : Tensor3 batches rows columns α)
    (second : Tensor3 batches' rows columns α) :
    Tensor3 (batches + batches') rows columns α :=
  ⟨fun i j k => if i < batches then first.get i j k else second.get (i - batches) j k⟩

/-- `tensor[:, :count]`, for a count of at most all rows. -/
def takeRows (count : Nat) (tensor : Tensor3 batches rows columns α) :
    Tensor3 batches count columns α :=
  ⟨tensor.get⟩

/-- `tensor[:, :, :count]`, for a count of at most all columns. -/
def takeColumns (count : Nat) (tensor : Tensor3 batches rows columns α) :
    Tensor3 batches rows count α :=
  ⟨tensor.get⟩

/-- `tensor.transpose(-1, -2)`. -/
def transpose (tensor : Tensor3 batches rows columns α) : Tensor3 batches columns rows α :=
  ⟨fun i j k => tensor.get i k j⟩

/-- `tensor[first:first+count, :depth, :] = source[:, :depth, :]`. -/
def assignRows {count sourceRows : Nat}
    (tensor : Tensor3 batches rows columns α) (first depth : Nat)
    (source : Tensor3 count sourceRows columns α) :
    Tensor3 batches rows columns α :=
  ⟨fun i j k =>
    if first ≤ i ∧ i < first + count ∧ j < depth then source.get (i - first) j k
    else tensor.get i j k⟩

end Tensor3

section Writes

variable {α : Type u} {β : Type v}

/-- The memory after the given threads have each written one position. -/
def writeAll (threads : List β) (address : β → Int) (value : β → α) (memory : Int → α) : Int → α :=
  threads.foldl (fun memory thread =>
      Function.update memory (address thread) (value thread)) memory

variable {threads : List β} {address : β → Int} {value : β → α}

theorem writeAll_of_forall_ne {position : Int} (hne : ∀ thread ∈ threads, address thread ≠ position)
    (memory : Int → α) : writeAll threads address value memory position = memory position := by
  induction threads generalizing memory with
  | nil => rfl
  | cons thread rest ih =>
    have hhead := hne thread mem_cons_self
    rw [writeAll, foldl_cons, ← writeAll,
      ih fun other hother => hne other (mem_cons_of_mem _ hother), Function.update_of_ne hhead.symm]

theorem writeAll_congr {value' : β → α} (heq : ∀ thread ∈ threads, value thread = value' thread)
    (memory : Int → α) :
    writeAll threads address value memory = writeAll threads address value' memory := by
  induction threads generalizing memory with
  | nil => rfl
  | cons thread rest ih =>
    rw [writeAll, writeAll, foldl_cons, foldl_cons, ← writeAll,
      ← writeAll, heq thread mem_cons_self]
    exact ih (fun other hother => heq other (mem_cons_of_mem _ hother)) _

theorem writeAll_of_mem {thread : β} (hmem : thread ∈ threads)
    (hunique : ∀ other ∈ threads, address other = address thread →
      other = thread) (memory : Int → α) :
    writeAll threads address value memory (address thread) = value thread := by
  induction threads generalizing memory with
  | nil => exact absurd hmem not_mem_nil
  | cons head rest ih =>
    rw [writeAll, foldl_cons, ← writeAll]
    by_cases hrest : thread ∈ rest
    · exact ih hrest (fun other hother =>
        hunique other (mem_cons_of_mem _ hother)) _
    · have hhead : thread = head := by
        cases mem_cons.mp hmem with
        | inl heq => exact heq
        | inr hin => exact absurd hin hrest
      subst hhead
      rw [writeAll_of_forall_ne, Function.update_self]
      intro other hother heq
      rw [hunique other (mem_cons_of_mem _ hother) heq] at hother
      exact hrest hother

theorem exists_unwritten (address : β → Int) {size : Nat} (hlt : threads.length < size) :
    ∃ position < size, ∀ thread ∈ threads, address thread ≠ (position : Nat) := by
  classical
  by_contra hall
  push Not at hall
  have hsubset : (Finset.range size).image (Nat.cast : Nat → Int) ⊆
      (threads.map address).toFinset := by
    intro written hwritten
    obtain ⟨position, hposition, rfl⟩ := Finset.mem_image.mp hwritten
    obtain ⟨thread, hthread, heq⟩ := hall position (Finset.mem_range.mp hposition)
    rw [mem_toFinset, ← heq]
    exact mem_map_of_mem hthread
  have hcard := Finset.card_le_card hsubset
  rw [Finset.card_image_of_injective _ Nat.cast_injective, Finset.card_range] at hcard
  have hlength := (threads.map address).toFinset_card_le
  rw [length_map] at hlength
  omega

end Writes

end CatKV
