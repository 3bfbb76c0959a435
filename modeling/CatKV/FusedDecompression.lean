/-
`Ours.decompress` in its two forms.  The plain form slices, joins and overlays
tensors; the fused form hands the tensors' memory to the two kernels.  Slicing
`u_quantized` and `u_meta` to a rank leaves views of the tensors they are cut
from, and the kernels read their memory as if the views were contiguous.

A payload has `halfB` batches of keys and as many of values; the hidden size is
twice the packed width.  What is in memory around the tensors, and what
`torch::empty` leaves in the outputs, is arbitrary.
-/
import CatKV.FusedKernels

namespace CatKV

open Tensor3
namespace Fused

/-- The sizes of a compressed payload. -/
structure Shape where
  halfB : Nat
  uRank : Nat
  keyRank : Nat
  valueRank : Nat
  packedLen : Nat
  packedHidden : Nat
  keyRes : Nat
  valueRes : Nat
deriving Repr, DecidableEq

namespace Shape

variable (shape : Shape)

def B : Nat := shape.halfB + shape.halfB

def hiddenDim : Nat := shape.packedHidden + shape.packedHidden

/-- `decompress` keeps the rows that both factors have. -/
def rank : Nat := min shape.keyRank shape.valueRank

/-- The rows of `u` after the cut to the rank. -/
def uRows : Nat := min shape.uRank shape.rank

end Shape

/-- The tensors of a payload of a shape. -/
@[ext]
structure Payload (shape : Shape) (α : Type) where
  uQuantized : Tensor3 shape.B shape.uRank shape.packedLen Nat
  uMeta : Tensor3 shape.B shape.uRank 2 α
  keySvQuantized : Tensor3 shape.halfB shape.keyRank shape.packedHidden Nat
  keySvMeta : Tensor3 shape.halfB shape.keyRank 2 α
  valueSvQuantized : Tensor3 shape.halfB shape.valueRank shape.packedHidden Nat
  valueSvMeta : Tensor3 shape.halfB shape.valueRank 2 α
  keyResidualSv : Tensor3 shape.halfB shape.keyRes shape.hiddenDim α
  valueResidualSv : Tensor3 shape.halfB shape.valueRes shape.hiddenDim α

/-- Memory that no tensor of the call has set. -/
structure Garbage (α : Type) where
  bytes : Int → Nat
  scalars : Int → α
  uOut : Int → α
  vOut : Int → α

section Decompress

variable {α : Type} (dequant : Nat → α → α → α) {shape : Shape}

namespace Payload

variable (payload : Payload shape α)

def vQuantized : Tensor3 shape.B shape.rank shape.packedHidden Nat :=
  (payload.keySvQuantized.takeRows shape.rank).catBatches
    (payload.valueSvQuantized.takeRows shape.rank)

def vMeta : Tensor3 shape.B shape.rank 2 α :=
  (payload.keySvMeta.takeRows shape.rank).catBatches (payload.valueSvMeta.takeRows shape.rank)

end Payload

/-! The plain form, `_sq_decompress_combined`. -/

/-- `q // 16` and `q % 16` side by side. -/
def unpack {batches rows columns : Nat} (quantized : Tensor3 batches rows columns Nat) :
    Tensor3 batches rows (columns + columns) Nat :=
  (quantized.map (· / 16)).catColumns (quantized.map (· % 16))

/-- Every code with the two ends of its row. -/
def dequantize {batches rows columns : Nat}
    (codes : Tensor3 batches rows columns Nat) (ends : Tensor3 batches rows 2 α) :
    Tensor3 batches rows columns α :=
  ⟨fun i j k => dequant (codes.get i j k) (ends.get i j 0) (ends.get i j 1)⟩

def plainU (payload : Payload shape α) (kvLen : Nat) : Tensor3 shape.B shape.uRows kvLen α :=
  (dequantize dequant (unpack (payload.uQuantized.takeRows shape.uRows))
    (payload.uMeta.takeRows shape.uRows)).takeColumns kvLen

def plainV (payload : Payload shape α) : Tensor3 shape.B shape.rank shape.hiddenDim α :=
  ((dequantize dequant (unpack payload.vQuantized) payload.vMeta).assignRows
    0 (min shape.rank shape.keyRes) payload.keyResidualSv).assignRows
    (shape.B / 2) (min shape.rank shape.valueRes) payload.valueResidualSv

/-! The fused form. -/

/-- The value a thread of the u kernel writes. -/
def uThreadValue (quantized : Int → Nat) (ends : Int → α) (thread : UThread) : α :=
  dequant (if thread.highNibble then quantized thread.quantizedOffset >>> 4
      else quantized thread.quantizedOffset &&& 0x0F)
    (ends thread.metaOffset) (ends (thread.metaOffset + 1))

/-- `fused_dequant_u_transposed` on the memory of `u_quantized` and `u_meta`. -/
def fusedDequantUTransposed (B rank packedLen kvLen : Nat)
    (quantized : Int → Nat) (ends : Int → α) (uOut : Int → α) : Int → α :=
  writeAll (activeThreads (launchTotal B rank kvLen))
    (fun idx => (uThread rank packedLen kvLen idx).outOffset)
    (fun idx => uThreadValue dequant quantized ends (uThread rank packedLen kvLen idx)) uOut

/-- The value a thread of `fused_dequant_v_residual_kernel` writes. -/
def vThreadValue (rank packedHidden hiddenDim halfB : Nat) (keyRes valRes : Int)
    (quantized : Int → Nat) (ends keyResidual valResidual : Int → α)
    (idx : Nat) : α :=
  let col := idx % hiddenDim
  let row := idx / hiddenDim % rank
  let batch := idx / (hiddenDim * rank)
  if batch < halfB ∧ row < keyRes then
    keyResidual (int32 ((batch * keyRes + row) * hiddenDim + col))
  else if ¬batch < halfB ∧ row < valRes then
    valResidual (int32 (((batch - halfB : Nat) * valRes + row) * hiddenDim + col))
  else
    let metaOffset := int32 ((batch * rank + row) * 2 : Nat)
    let qBase := (batch * rank + row) * packedHidden
    dequant (if col < packedHidden then quantized (int32 (qBase + col : Nat)) >>> 4
        else quantized (int32 (qBase + (col - packedHidden) : Nat)) &&& 0x0F)
      (ends metaOffset) (ends (metaOffset + 1))

/-- `fused_dequant_v_residual` on the memory of its tensors.  A residual
without elements counts as one without rows. -/
def fusedDequantVResidual (B rank packedHidden hiddenDim keyRows valRows : Nat)
    (quantized : Int → Nat) (ends keyResidual valResidual : Int → α)
    (vOut : Int → α) : Int → α :=
  let halfB := B / 2
  let keyRes := if 0 < halfB * keyRows * hiddenDim then int32 keyRows else 0
  let valRes := if 0 < halfB * valRows * hiddenDim then int32 valRows else 0
  writeAll (activeThreads (launchTotal B rank hiddenDim)) (fun idx => (idx : Int))
    (vThreadValue dequant rank packedHidden hiddenDim halfB keyRes valRes
      quantized ends keyResidual valResidual) vOut

/-- The u part of `_fused_decompress`.  The views of `u_quantized` and `u_meta`
start where the tensors they are cut from start. -/
def fusedU (payload : Payload shape α) (kvLen : Nat) (garbage : Garbage α) : Int → α :=
  fusedDequantUTransposed dequant shape.B shape.uRows shape.packedLen kvLen
    (payload.uQuantized.storage garbage.bytes)
    (payload.uMeta.storage garbage.scalars) garbage.uOut

def fusedV (payload : Payload shape α) (garbage : Garbage α) : Int → α :=
  fusedDequantVResidual dequant shape.B shape.rank shape.packedHidden
    shape.hiddenDim shape.keyRes shape.valueRes
    (payload.vQuantized.storage garbage.bytes)
    (payload.vMeta.storage garbage.scalars)
    (payload.keyResidualSv.storage garbage.scalars)
    (payload.valueResidualSv.storage garbage.scalars) garbage.vOut

end Decompress

/-- Both forms give the same cells, for every payload of a shape. -/
structure FusedEqualsPlain (shape : Shape) (kvLen : Nat) : Prop where
  u : ∀ (α : Type) (dequant : Nat → α → α → α) (payload : Payload shape α)
    (garbage : Garbage α), ∀ b < shape.B, ∀ k < kvLen, ∀ r < shape.uRows,
      fusedU dequant payload kvLen garbage (cell kvLen shape.uRows b k r) =
        (plainU dequant payload kvLen).transpose.get b k r
  v : ∀ (α : Type) (dequant : Nat → α → α → α) (payload : Payload shape α)
    (garbage : Garbage α), ∀ b < shape.B, ∀ r < shape.rank, ∀ c < shape.hiddenDim,
        fusedV dequant payload garbage (cell shape.rank shape.hiddenDim b r c) =
          (plainV dequant payload).get b r c

/-! ### The u kernel on a view -/

/-- Where the u kernel reads the right memory: the view of `u` is the whole
tensor, and the `int`s hold the number of cells with a last block and the
offsets of the scales and of the bytes. -/
def UAgrees (shape : Shape) (kvLen : Nat) : Prop :=
  shape.uRank ≤ shape.rank ∧ UFits shape.B shape.uRows kvLen ∧
    (shape.B * shape.uRows - 1) * shape.packedLen + min kvLen shape.packedLen ≤ 2 ^ 31

section U

variable {α : Type} {dequant : Nat → α → α → α} {shape : Shape} {kvLen : Nat}

theorem fusedU_cell (payload : Payload shape α) (garbage : Garbage α)
    (hfits : shape.B * shape.uRows * kvLen + 255 < 2 ^ 31) {b k r : Nat}
    (hb : b < shape.B) (hk : k < kvLen) (hr : r < shape.uRows) :
    fusedU dequant payload kvLen garbage (cell kvLen shape.uRows b k r) =
      uThreadValue dequant (payload.uQuantized.storage garbage.bytes)
        (payload.uMeta.storage garbage.scalars)
        (uThread shape.uRows shape.packedLen kvLen (cell shape.uRows kvLen b r k)) := by
  have hcolumns : 0 < kvLen := by omega
  have hidx : cell shape.uRows kvLen b r k ∈
      activeThreads (launchTotal shape.B shape.uRows kvLen) :=
    (mem_activeThreads_launch hcolumns hfits).mpr (cell_lt hb hr hk)
  have hout := outOffset_uThread hfits hb hk hr shape.packedLen
  rw [fusedU, fusedDequantUTransposed, ← hout]
  apply writeAll_of_mem hidx
  intro other hother heq
  rw [hout] at heq
  exact eq_of_outOffset_uThread hcolumns hfits hk hr hother heq

theorem plainU_get (payload : Payload shape α) (b k r : Nat) :
    (plainU dequant payload kvLen).transpose.get b k r =
      dequant (if k < shape.packedLen then payload.uQuantized.get b r k / 16
          else payload.uQuantized.get b r (k - shape.packedLen) % 16)
        (payload.uMeta.get b r 0) (payload.uMeta.get b r 1) := rfl

theorem byte_offset_lt {B rank packedLen width b r c : Nat} (hb : b < B) (hr : r < rank)
    (hc : c < width) : cell rank packedLen b r c < (B * rank - 1) * packedLen + width := by
  have hrow : b * rank + r ≤ B * rank - 1 := by
    have hnext : (b + 1) * rank ≤ B * rank := Nat.mul_le_mul_right _ hb
    rw [Nat.add_mul, Nat.one_mul] at hnext
    omega
  have hbase := Nat.mul_le_mul_right packedLen hrow
  rw [cell]
  omega

theorem fusedU_eq_of_agrees (hagrees : UAgrees shape kvLen) (hkvLen : kvLen ≤ 2 * shape.packedLen)
    (payload : Payload shape α) (garbage : Garbage α) {b k r : Nat} (hb : b < shape.B)
    (hk : k < kvLen) (hr : r < shape.uRows) :
    fusedU dequant payload kvLen garbage (cell kvLen shape.uRows b k r) =
      (plainU dequant payload kvLen).transpose.get b k r := by
  obtain ⟨hview, hfits, hbytes⟩ := hagrees
  have hrows : shape.uRows = shape.uRank := Nat.min_eq_left hview
  rw [fusedU_cell payload garbage hfits.1 hb hk hr, plainU_get]
  rw [hrows] at hr hfits hbytes ⊢
  have hcolumn : (if k < shape.packedLen then k else k - shape.packedLen) <
      min kvLen shape.packedLen := by
    split <;> omega
  have hscale : cell shape.uRank 2 b r 1 < shape.B * shape.uRank * 2 := cell_lt hb hr (by decide)
  have hnext : (cell shape.uRank 2 b r 0 : Int) + 1 = (cell shape.uRank 2 b r 1 : Nat) := rfl
  have hscales := hfits.2
  have hbyte : cell shape.uRank shape.packedLen b r
      (if k < shape.packedLen then k else k - shape.packedLen) <
        (shape.B * shape.uRank - 1) * shape.packedLen + min kvLen shape.packedLen :=
    byte_offset_lt hb hr hcolumn
  rw [uThread_cell hr hk, int32_of_lt (Int.natCast_nonneg _) (by omega),
    int32_of_lt (Int.natCast_nonneg _) (by omega), uThreadValue]
  dsimp only
  rw [hnext, storage_cell _ _ hb hr (by omega), storage_cell _ _ hb hr (by decide),
    storage_cell _ _ hb hr (by decide)]
  by_cases hhigh : k < shape.packedLen
  · simp [hhigh, Nat.shiftRight_eq_div_pow]
  · simp [hhigh, Nat.and_two_pow_sub_one_eq_mod _ 4]

/-- A payload whose scales hold their own positions, and the memory around
them theirs; the outputs start from -1. -/
def positionPayload (shape : Shape) : Payload shape Int where
  uQuantized := ⟨fun _ _ _ => 0⟩
  uMeta := Tensor3.positions
  keySvQuantized := ⟨fun _ _ _ => 0⟩
  keySvMeta := ⟨fun _ _ _ => 0⟩
  valueSvQuantized := ⟨fun _ _ _ => 0⟩
  valueSvMeta := ⟨fun _ _ _ => 0⟩
  keyResidualSv := Tensor3.positions
  valueResidualSv := Tensor3.positions

def positionGarbage : Garbage Int := ⟨fun _ => 0, id, fun _ => -1, fun _ => -1⟩

/-- The lower end of a row, whatever the code. -/
def lowerEnd : Nat → Int → Int → Int := fun _ low _ => low

theorem lowerEnd_eq (code : Nat) (low high : Int) : lowerEnd code low high = low := rfl

theorem uThreadValue_positions (thread : UThread) : uThreadValue lowerEnd
        ((positionPayload shape).uQuantized.storage positionGarbage.bytes)
        ((positionPayload shape).uMeta.storage positionGarbage.scalars)
        thread = thread.metaOffset := by
  simp only [positionPayload, positionGarbage, lowerEnd, uThreadValue, storage_positions, id]

theorem plainU_positions (b k r : Nat) :
    (plainU lowerEnd (positionPayload shape) kvLen).transpose.get b k r =
      cell shape.uRank 2 b r 0 := by
  rw [plainU_get]
  simp only [positionPayload, lowerEnd, get_positions]

/-- A payload with one byte set, at a position of `u_quantized`. -/
def markedPayload (shape : Shape) (marked : Int) : Payload shape Nat where
  uQuantized := Tensor3.positions.map fun position =>
    if position = marked then 255 else 0
  uMeta := ⟨fun _ _ _ => 0⟩
  keySvQuantized := ⟨fun _ _ _ => 0⟩
  keySvMeta := ⟨fun _ _ _ => 0⟩
  valueSvQuantized := ⟨fun _ _ _ => 0⟩
  valueSvMeta := ⟨fun _ _ _ => 0⟩
  keyResidualSv := ⟨fun _ _ _ => 0⟩
  valueResidualSv := ⟨fun _ _ _ => 0⟩

def markedGarbage (marked : Int) : Garbage Nat :=
  ⟨(fun position => if position = marked then 255 else 0) ∘ id, fun _ => 0, fun _ => 0, fun _ => 0⟩

/-- On that payload a thread that reads a high nibble tells whether it read
the marked byte. -/
theorem uThreadValue_marked {marked : Int} {thread : UThread} (hhigh : thread.highNibble = true) :
    uThreadValue (fun code _ _ => code) ((markedPayload shape marked).uQuantized.storage
          (markedGarbage marked).bytes)
        ((markedPayload shape marked).uMeta.storage (markedGarbage marked).scalars) thread =
      if thread.quantizedOffset = marked then 15 else 0 := by
  rw [uThreadValue, if_pos hhigh, markedPayload, markedGarbage]
  dsimp only
  rw [storage_map, storage_positions, Function.comp_apply, id]
  split <;> rfl

section Necessary

variable (hu : ∀ (α : Type) (dequant : Nat → α → α → α)
  (payload : Payload shape α) (garbage : Garbage α), ∀ b < shape.B, ∀ k < kvLen, ∀ r < shape.uRows,
      fusedU dequant payload kvLen garbage (cell kvLen shape.uRows b k r) =
        (plainU dequant payload kvLen).transpose.get b k r)
  (hcells : shape.B * shape.uRows * kvLen ≠ 0)

include hu hcells

theorem u_cells_lt : shape.B * shape.uRows * kvLen + 255 < 2 ^ 31 := by
  by_contra hoverflow
  have hlength := length_activeThreads_lt (Nat.pos_of_ne_zero hcells) (by omega)
  rw [Nat.mul_right_comm] at hlength
  obtain ⟨position, hlt, hunwritten⟩ := exists_unwritten
    (fun idx => (uThread shape.uRows shape.packedLen kvLen idx).outOffset)
    hlength
  obtain ⟨b, hb, k, hk, r, hr, rfl⟩ := exists_cell hlt
  have heq := hu Int lowerEnd (positionPayload shape) positionGarbage b hb k hk r hr
  rw [plainU_positions, fusedU, fusedDequantUTransposed,
    writeAll_of_forall_ne hunwritten, positionGarbage] at heq
  dsimp only at heq
  omega

theorem u_scale_eq {b r : Nat} (hb : b < shape.B) (hr : r < shape.uRows) :
    int32 (cell shape.uRows 2 b r 0) = cell shape.uRank 2 b r 0 := by
  have hk : 0 < kvLen := Nat.pos_of_mul_pos_left (Nat.pos_of_ne_zero hcells)
  have hthread : (uThread shape.uRows shape.packedLen kvLen
      (cell shape.uRows kvLen b r 0)).metaOffset = int32 (cell shape.uRows 2 b r 0) := by
    rw [uThread_cell hr hk]
  rw [← hthread, ← uThreadValue_positions, ← fusedU_cell _ _ (u_cells_lt hu hcells) hb hk hr,
    hu Int lowerEnd (positionPayload shape) positionGarbage b hb 0 hk r hr, plainU_positions]

theorem u_byte_eq {b k r : Nat} (hb : b < shape.B) (hk : k < kvLen)
    (hcolumn : k < shape.packedLen) (hr : r < shape.uRows) :
    int32 (cell shape.uRows shape.packedLen b r k) = cell shape.uRank shape.packedLen b r k := by
  have heq := hu Nat (fun code _ _ => code)
    (markedPayload shape (cell shape.uRank shape.packedLen b r k))
    (markedGarbage (cell shape.uRank shape.packedLen b r k)) b hb k hk r hr
  have hplain : (markedPayload shape (cell shape.uRank shape.packedLen b r k)
      ).uQuantized.get b r k = 255 := by
    rw [markedPayload, map]
    exact if_pos (get_positions b r k)
  have hhigh : (uThread shape.uRows shape.packedLen kvLen
      (cell shape.uRows kvLen b r k)).highNibble = true := by
    rw [uThread_cell hr hk]
    exact decide_eq_true hcolumn
  have hoffset : (uThread shape.uRows shape.packedLen kvLen
      (cell shape.uRows kvLen b r k)).quantizedOffset =
        int32 (cell shape.uRows shape.packedLen b r k) := by
    rw [uThread_cell hr hk, if_pos hcolumn]
  rw [fusedU_cell _ _ (u_cells_lt hu hcells) hb hk hr,
    uThreadValue_marked hhigh, hoffset, plainU_get, hplain] at heq
  by_contra hne
  rw [if_neg hne, if_pos hcolumn] at heq
  exact absurd heq (by decide)

theorem agrees_of_u_eq (hkvLen : kvLen ≤ 2 * shape.packedLen) : UAgrees shape kvLen := by
  have hcells' := u_cells_lt hu hcells
  have hk : 0 < kvLen := Nat.pos_of_mul_pos_left (Nat.pos_of_ne_zero hcells)
  have hrows : 0 < shape.B * shape.uRows := Nat.pos_of_mul_pos_right (Nat.pos_of_ne_zero hcells)
  have hB : 0 < shape.B := Nat.pos_of_mul_pos_right hrows
  have hr : 0 < shape.uRows := Nat.pos_of_mul_pos_left hrows
  have hview : shape.uRank ≤ shape.rank := by
    -- Row 0 of the second batch starts after all rows of the first.
    have htwo : 1 < shape.B := by
      rw [Shape.B] at hB ⊢
      omega
    have hscale := u_scale_eq hu hcells htwo hr
    have hle := int32_le (Int.natCast_nonneg (cell shape.uRows 2 1 0 0))
    rw [hscale, cell, cell] at hle
    rw [Shape.uRows] at hle
    omega
  have hsum : (shape.B - 1) * shape.uRows + shape.uRows = shape.B * shape.uRows := by
    rw [← Nat.succ_mul, Nat.succ_eq_add_one, Nat.sub_add_cancel hB]
  refine ⟨hview, ⟨hcells', ?_⟩, ?_⟩
  · have hscale := u_scale_eq hu hcells (Nat.sub_lt hB one_pos) (Nat.sub_lt hr one_pos)
    have hlt := int32_lt (cell shape.uRows 2 (shape.B - 1) (shape.uRows - 1) 0)
    have huRank : shape.uRows = shape.uRank := Nat.min_eq_left hview
    rw [hscale, ← huRank, cell] at hlt
    omega
  · -- The byte of the last row that is read last.
    have hcolumn : min kvLen shape.packedLen - 1 < shape.packedLen := by omega
    have hk' : min kvLen shape.packedLen - 1 < kvLen := by omega
    have hb : shape.B - 1 < shape.B := by omega
    have hr' : shape.uRows - 1 < shape.uRows := by omega
    have huRank : shape.uRows = shape.uRank := Nat.min_eq_left hview
    have hbyte := u_byte_eq hu hcells hb hk' hcolumn hr'
    have hlt := int32_lt (cell shape.uRows shape.packedLen (shape.B - 1)
      (shape.uRows - 1) (min kvLen shape.packedLen - 1))
    have hlast : (shape.B - 1) * shape.uRows + (shape.uRows - 1) = shape.B * shape.uRows - 1 := by
      omega
    rw [hbyte, ← huRank, cell, hlast] at hlt
    omega

end Necessary

end U

/-! ### The v kernel -/

/-- The `int`s hold the offsets of the residual rows that are used, and the number
of rows as an `int` still counts those. -/
def ResidualFits (shape : Shape) (residualRows : Nat) : Prop :=
  ((shape.halfB - 1) * residualRows + min residualRows shape.rank) * shape.hiddenDim ≤ 2 ^ 31 ∧
    ((min residualRows shape.rank : Nat) : Int) ≤ int32 residualRows

/-- The `int`s hold the number of cells with a last block, and the offsets of
both residuals. -/
def VAgrees (shape : Shape) : Prop :=
  shape.B * shape.rank * shape.hiddenDim + 255 < 2 ^ 31 ∧
    ResidualFits shape shape.keyRes ∧ ResidualFits shape shape.valueRes

section V

variable {α : Type} {dequant : Nat → α → α → α} {shape : Shape}

variable {b r c : Nat}

/-- The offset does not depend on which of the equal `int`s counts the rows. -/
theorem int32_cell (rows hiddenDim b r c : Nat) :
    int32 ((b * int32 rows + r) * hiddenDim + c) = int32 (cell rows hiddenDim b r c) := by
  obtain ⟨wraps, hwraps⟩ : ∃ wraps, int32 rows = rows + 4294967296 * wraps := by
    rw [int32, Int.bmod_def]
    split
    · exact ⟨-(rows / 4294967296), by omega⟩
    · exact ⟨-(rows / 4294967296) - 1, by omega⟩
  have hsplit : (b * int32 rows + r) * hiddenDim + c =
      (cell rows hiddenDim b r c : Int) + 4294967296 * (b * wraps * hiddenDim) := by
    rw [hwraps, cell]
    push_cast
    ring
  rw [hsplit, int32, int32, Int.bmod_def, Int.bmod_def, Nat.cast_ofNat, Int.add_mul_emod_self_left]

theorem vThreadValue_cell {rank packedHidden hiddenDim halfB keyRows valRows : Nat} (hr : r < rank)
    (hc : c < hiddenDim) (quantized : Int → Nat) (ends keyResidual valResidual : Int → α) :
    vThreadValue dequant rank packedHidden hiddenDim halfB (int32 keyRows) (int32 valRows)
        quantized ends keyResidual valResidual (cell rank hiddenDim b r c) =
      if b < halfB ∧ r < int32 keyRows then keyResidual (int32 (cell keyRows hiddenDim b r c))
      else if ¬b < halfB ∧ r < int32 valRows then
        valResidual (int32 (cell valRows hiddenDim (b - halfB) r c))
      else dequant (if c < packedHidden then quantized (int32 (cell rank packedHidden b r c)) >>> 4
        else quantized (int32 (cell rank packedHidden b r (c - packedHidden))) &&& 0x0F)
        (ends (int32 (cell rank 2 b r 0)))
        (ends (int32 (cell rank 2 b r 0) + 1)) := by
  simp only [vThreadValue, cell_mod hc, cell_row hr hc, cell_batch hr hc, int32_cell]
  rfl

theorem half_B (shape : Shape) : shape.B / 2 = shape.halfB := by
  rw [Shape.B]
  omega

theorem fusedV_cell (payload : Payload shape α) (garbage : Garbage α)
    (hfits : shape.B * shape.rank * shape.hiddenDim + 255 < 2 ^ 31)
    (hb : b < shape.B) (hr : r < shape.rank) (hc : c < shape.hiddenDim) :
    fusedV dequant payload garbage (cell shape.rank shape.hiddenDim b r c) =
      vThreadValue dequant shape.rank shape.packedHidden shape.hiddenDim
        shape.halfB (int32 shape.keyRes) (int32 shape.valueRes)
        (payload.vQuantized.storage garbage.bytes)
        (payload.vMeta.storage garbage.scalars)
        (payload.keyResidualSv.storage garbage.scalars)
        (payload.valueResidualSv.storage garbage.scalars)
        (cell shape.rank shape.hiddenDim b r c) := by
  have hidden : 0 < shape.hiddenDim := by omega
  have hhalf : 0 < shape.halfB := by
    rw [Shape.B] at hb
    omega
  have hrows (rows : Nat) :
      (if 0 < shape.halfB * rows * shape.hiddenDim then int32 rows else 0) = int32 rows := by
    rcases Nat.eq_zero_or_pos rows with rfl | hpos
    · exact ite_self _
    · rw [if_pos (Nat.mul_pos (Nat.mul_pos hhalf hpos) hidden)]
  have hidx : cell shape.rank shape.hiddenDim b r c ∈
      activeThreads (launchTotal shape.B shape.rank shape.hiddenDim) :=
    (mem_activeThreads_launch hidden hfits).mpr (cell_lt hb hr hc)
  simp only [fusedV, fusedDequantVResidual, half_B, hrows]
  apply writeAll_of_mem hidx
  intro other hother heq
  exact Int.ofNat_inj.mp heq

theorem plainV_get (payload : Payload shape α) (hb : b < shape.B) (hr : r < shape.rank) (c : Nat) :
    (plainV dequant payload).get b r c =
      if b < shape.halfB ∧ r < shape.keyRes then payload.keyResidualSv.get b r c
      else if ¬b < shape.halfB ∧ r < shape.valueRes then
        payload.valueResidualSv.get (b - shape.halfB) r c
      else dequant (if c < shape.packedHidden then payload.vQuantized.get b r c / 16
          else payload.vQuantized.get b r (c - shape.packedHidden) % 16)
        (payload.vMeta.get b r 0) (payload.vMeta.get b r 1) := by
  rw [Shape.B] at hb
  simp only [plainV, assignRows, half_B, Nat.zero_le, true_and,
    Nat.zero_add, Nat.sub_zero, lt_min_iff, hr]
  by_cases hkey : b < shape.halfB
  · rw [if_neg (by omega)]
    simp only [hkey, not_true, false_and, true_and, if_false]
    rfl
  · have hle : shape.halfB ≤ b := Nat.le_of_not_lt hkey
    simp only [hkey, hle, hb, not_false_iff, false_and, true_and, if_false]
    rfl

variable {residualRows : Nat}

theorem residual_offset_lt (hb : b < shape.halfB)
    (hr : r < min residualRows shape.rank) (hc : c < shape.hiddenDim) :
    cell residualRows shape.hiddenDim b r c <
      ((shape.halfB - 1) * residualRows + min residualRows shape.rank) * shape.hiddenDim := by
  have hbatch := Nat.mul_le_mul_right residualRows (Nat.le_sub_one_of_lt hb)
  have hrow : b * residualRows + r + 1 ≤
      (shape.halfB - 1) * residualRows + min residualRows shape.rank := by
    omega
  have hbase := Nat.mul_le_mul_right shape.hiddenDim hrow
  rw [Nat.add_mul, Nat.one_mul] at hbase
  rw [cell]
  omega

theorem storage_residual (hfits : ResidualFits shape residualRows)
    (residual : Tensor3 shape.halfB residualRows shape.hiddenDim α)
    (outside : Int → α) (hb : b < shape.halfB) (hr : r < shape.rank)
    (hres : r < residualRows) (hc : c < shape.hiddenDim) :
    residual.storage outside (int32 (cell residualRows shape.hiddenDim b r c)) =
      residual.get b r c := by
  have hlt := residual_offset_lt hb (lt_min hres hr) hc
  have hoffsets := hfits.1
  rw [int32_of_lt (Int.natCast_nonneg _) (by omega), storage_cell _ _ hb hres hc]

theorem lt_int32_iff (hfits : ResidualFits shape residualRows) (hr : r < shape.rank) :
    (r : Int) < int32 residualRows ↔ r < residualRows := by
  have hle := int32_le (Int.natCast_nonneg residualRows)
  have hrows := hfits.2
  omega

theorem fusedV_eq_of_agrees (hagrees : VAgrees shape) (payload : Payload shape α)
    (garbage : Garbage α) (hb : b < shape.B) (hr : r < shape.rank) (hc : c < shape.hiddenDim) :
    fusedV dequant payload garbage (cell shape.rank shape.hiddenDim b r c) =
      (plainV dequant payload).get b r c := by
  obtain ⟨hcells, hkey, hvalue⟩ := hagrees
  rw [fusedV_cell payload garbage hcells hb hr hc, plainV_get payload hb hr,
    vThreadValue_cell hr hc]
  simp only [lt_int32_iff hkey hr, lt_int32_iff hvalue hr]
  have hhidden : shape.hiddenDim = 2 * shape.packedHidden := by
    rw [Shape.hiddenDim]
    omega
  split
  next hres => exact storage_residual hkey _ _ hres.1 hr hres.2 hc
  next =>
    split
    next hres =>
      exact storage_residual hvalue _ _ (by rw [Shape.B] at hb; omega) hr hres.2 hc
    next =>
      have hscale : cell shape.rank 2 b r 1 < shape.B * shape.rank * 2 := cell_lt hb hr (by decide)
      have hnext : (cell shape.rank 2 b r 0 : Int) + 1 = (cell shape.rank 2 b r 1 : Nat) := rfl
      have hscales : shape.B * shape.rank * 2 ≤ shape.B * shape.rank * shape.hiddenDim :=
        Nat.mul_le_mul_left _ (by omega)
      have hbytes : shape.B * shape.rank * shape.packedHidden ≤
          shape.B * shape.rank * shape.hiddenDim :=
        Nat.mul_le_mul_left _ (by omega)
      have hbyte {column : Nat} (hcolumn : column < shape.packedHidden) :
          payload.vQuantized.storage garbage.bytes
              (int32 (cell shape.rank shape.packedHidden b r column)) =
            payload.vQuantized.get b r column := by
        have hlt := cell_lt hb hr hcolumn
        rw [int32_of_lt (Int.natCast_nonneg _) (by omega), storage_cell _ _ hb hr hcolumn]
      rw [int32_of_lt (Int.natCast_nonneg (cell shape.rank 2 b r 0)) (by omega), hnext,
        storage_cell _ _ hb hr (by decide), storage_cell _ _ hb hr (by decide)]
      by_cases hhigh : c < shape.packedHidden
      · rw [if_pos hhigh, if_pos hhigh, hbyte hhigh, Nat.shiftRight_eq_div_pow]
      · rw [if_neg hhigh, if_neg hhigh, hbyte (by omega), Nat.and_two_pow_sub_one_eq_mod _ 4]

theorem plainV_positions_nonneg (hb : b < shape.B) (hr : r < shape.rank) :
    0 ≤ (plainV lowerEnd (positionPayload shape)).get b r c := by
  rw [plainV_get _ hb hr]
  split
  · exact Int.natCast_nonneg _
  · split
    · exact Int.natCast_nonneg _
    · simp only [lowerEnd, Payload.vMeta, positionPayload, catBatches, takeRows, ite_self, le_refl]

/-- The last offset that is used decides. -/
theorem residualFits_of_eq (hhalf : 0 < shape.halfB) (hrank : 0 < shape.rank)
    (hhidden : 0 < shape.packedHidden) (heq : ∀ b < shape.halfB, ∀ r < shape.rank,
      ∀ c < shape.hiddenDim,
        (if (r : Int) < int32 residualRows then int32 (cell residualRows shape.hiddenDim b r c)
          else 0) =
        if r < residualRows then (cell residualRows shape.hiddenDim b r c : Int) else 0) :
    ResidualFits shape residualRows := by
  have hwidth : shape.hiddenDim = shape.packedHidden + shape.packedHidden := rfl
  rcases Nat.eq_zero_or_pos residualRows with rfl | hpos
  · rw [ResidualFits, Nat.mul_zero, Nat.zero_min, Nat.zero_mul]
    decide
  · have hlast := heq (shape.halfB - 1) (by omega) (min residualRows shape.rank - 1) (by omega)
      (shape.hiddenDim - 1) (by omega)
    have hlt := int32_lt (cell residualRows shape.hiddenDim (shape.halfB - 1)
      (min residualRows shape.rank - 1) (shape.hiddenDim - 1))
    have hrows : (shape.halfB - 1) * residualRows +
        min residualRows shape.rank = (shape.halfB - 1) * residualRows +
          (min residualRows shape.rank - 1) + 1 := by
      omega
    rw [if_pos (by omega : min residualRows shape.rank - 1 < residualRows)] at hlast
    rw [ResidualFits, hrows, Nat.add_mul, Nat.one_mul]
    generalize int32 residualRows = counted at hlast ⊢
    split at hlast
    · rw [hlast, cell] at hlt
      omega
    · rw [cell] at hlast
      omega

section Necessary

variable (hv : ∀ (α : Type) (dequant : Nat → α → α → α)
  (payload : Payload shape α) (garbage : Garbage α), ∀ b < shape.B,
    ∀ r < shape.rank, ∀ c < shape.hiddenDim,
      fusedV dequant payload garbage (cell shape.rank shape.hiddenDim b r c) =
        (plainV dequant payload).get b r c)
  (hcells : shape.B * shape.rank * shape.hiddenDim ≠ 0)

include hv hcells

theorem v_cells_lt : shape.B * shape.rank * shape.hiddenDim + 255 < 2 ^ 31 := by
  by_contra hoverflow
  have hlength := length_activeThreads_lt (Nat.pos_of_ne_zero hcells) (by omega)
  obtain ⟨position, hlt, hunwritten⟩ := exists_unwritten (fun idx : Nat => (idx : Int)) hlength
  obtain ⟨b, hb, r, hr, c, hc, rfl⟩ := exists_cell hlt
  have hkept : fusedV lowerEnd (positionPayload shape) positionGarbage
      (cell shape.rank shape.hiddenDim b r c) = -1 := by
    rw [fusedV, fusedDequantVResidual]
    apply writeAll_of_forall_ne
    exact hunwritten
  have hnonneg : 0 ≤ (plainV lowerEnd (positionPayload shape)).get b r c :=
    plainV_positions_nonneg hb hr
  rw [← hv Int lowerEnd (positionPayload shape) positionGarbage b hb r hr c hc, hkept] at hnonneg
  omega

/-- The scales of the factors are 0 on the payload of positions. -/
theorem v_scale_eq {b r : Nat} (hb : b < shape.B) (hr : r < shape.rank) :
    (positionPayload shape).vMeta.storage positionGarbage.scalars
        (int32 (cell shape.rank 2 b r 0)) = 0 ∧
      (positionPayload shape).vMeta.get b r 0 = 0 := by
  have hzero : ∀ b r k, (positionPayload shape).vMeta.get b r k = 0 := by
    simp [Payload.vMeta, positionPayload, catBatches, takeRows]
  have hlt := cell_lt hb hr (show 0 < 2 by decide)
  have hwidth : shape.hiddenDim = shape.packedHidden + shape.packedHidden := rfl
  have hhidden : 0 < shape.hiddenDim := Nat.pos_of_mul_pos_left (Nat.pos_of_ne_zero hcells)
  have hscales : shape.B * shape.rank * 2 ≤ shape.B * shape.rank * shape.hiddenDim :=
    Nat.mul_le_mul_left _ (by omega)
  have hfits := v_cells_lt hv hcells
  rw [int32_of_lt (Int.natCast_nonneg _) (by omega), storage_cell _ _ hb hr (by decide)]
  exact ⟨hzero .., hzero ..⟩

/-- On the payload of positions a cell without residual is 0 in both forms. -/
theorem v_key_eq {b r c : Nat} (hb : b < shape.halfB) (hr : r < shape.rank)
    (hc : c < shape.hiddenDim) :
    (if (r : Int) < int32 shape.keyRes then int32 (cell shape.keyRes shape.hiddenDim b r c)
      else 0) =
      if r < shape.keyRes then (cell shape.keyRes shape.hiddenDim b r c : Int) else 0 := by
  have hb' : b < shape.B := Nat.lt_add_right _ hb
  have heq := hv Int lowerEnd (positionPayload shape) positionGarbage b hb' r hr c hc
  rw [fusedV_cell _ _ (v_cells_lt hv hcells) hb' hr hc, vThreadValue_cell hr hc,
    plainV_get _ hb' hr] at heq
  simp only [hb, true_and, not_true, false_and, if_false, lowerEnd_eq,
    v_scale_eq hv hcells hb' hr] at heq
  have hstorage : (positionPayload shape).keyResidualSv.storage
      positionGarbage.scalars = id := storage_positions
  have hget : (positionPayload shape).keyResidualSv.get b r c =
      cell shape.keyRes shape.hiddenDim b r c := rfl
  rw [hstorage, hget, id] at heq
  generalize int32 shape.keyRes = counted at heq ⊢
  exact heq

theorem v_value_eq {b r c : Nat} (hb : b < shape.halfB) (hr : r < shape.rank)
    (hc : c < shape.hiddenDim) :
    (if (r : Int) < int32 shape.valueRes then int32 (cell shape.valueRes shape.hiddenDim b r c)
      else 0) =
      if r < shape.valueRes then (cell shape.valueRes shape.hiddenDim b r c : Int) else 0 := by
  have hb' : shape.halfB + b < shape.B := Nat.add_lt_add_left hb _
  have hnot : ¬shape.halfB + b < shape.halfB := by omega
  have heq := hv Int lowerEnd (positionPayload shape) positionGarbage
    (shape.halfB + b) hb' r hr c hc
  rw [fusedV_cell _ _ (v_cells_lt hv hcells) hb' hr hc, vThreadValue_cell hr hc,
    plainV_get _ hb' hr] at heq
  simp only [hnot, false_and, if_false, not_false_eq_true, true_and, Nat.add_sub_cancel_left,
    lowerEnd_eq, v_scale_eq hv hcells hb' hr] at heq
  have hstorage : (positionPayload shape).valueResidualSv.storage
      positionGarbage.scalars = id := storage_positions
  have hget : (positionPayload shape).valueResidualSv.get b r c =
      cell shape.valueRes shape.hiddenDim b r c := rfl
  rw [hstorage, hget, id] at heq
  generalize int32 shape.valueRes = counted at heq ⊢
  exact heq

theorem agrees_of_v_eq : VAgrees shape := by
  have hrows : 0 < shape.B * shape.rank := Nat.pos_of_mul_pos_right (Nat.pos_of_ne_zero hcells)
  have hhidden : 0 < shape.hiddenDim := Nat.pos_of_mul_pos_left (Nat.pos_of_ne_zero hcells)
  have hrank : 0 < shape.rank := Nat.pos_of_mul_pos_left hrows
  have hhalf : 0 < shape.halfB := by
    have hB : 0 < shape.B := Nat.pos_of_mul_pos_right hrows
    rw [Shape.B] at hB
    omega
  have hpacked : 0 < shape.packedHidden := by
    rw [Shape.hiddenDim] at hhidden
    omega
  exact ⟨v_cells_lt hv hcells,
    residualFits_of_eq hhalf hrank hpacked fun b hb r hr c hc => v_key_eq hv hcells hb hr hc,
    residualFits_of_eq hhalf hrank hpacked fun b hb r hr c hc => v_value_eq hv hcells hb hr hc⟩

end Necessary

end V

/-- The fused form gives the cells of the plain one for every payload of a
shape, exactly where each output is empty or its kernel reads the right
memory. -/
theorem fusedEqualsPlain_iff (shape : Shape) (kvLen : Nat) (hkvLen : kvLen ≤ 2 * shape.packedLen) :
    FusedEqualsPlain shape kvLen ↔ (shape.B * shape.uRows * kvLen ≠ 0 → UAgrees shape kvLen) ∧
        (shape.B * shape.rank * shape.hiddenDim ≠ 0 → VAgrees shape) := by
  constructor
  · intro hequal
    exact ⟨fun hcells => agrees_of_u_eq hequal.u hcells hkvLen,
      fun hcells => agrees_of_v_eq hequal.v hcells⟩
  · rintro ⟨hu, hv⟩
    constructor
    · intro α dequant payload garbage b hb k hk r hr
      apply fusedU_eq_of_agrees (hu _) hkvLen payload garbage hb hk hr
      exact Nat.ne_of_gt (Nat.mul_pos (Nat.mul_pos (by omega) (by omega)) (by omega))
    · intro α dequant payload garbage b hb r hr c hc
      apply fusedV_eq_of_agrees (hv _) payload garbage hb hr hc
      exact Nat.ne_of_gt (Nat.mul_pos (Nat.mul_pos (by omega) (by omega)) (by omega))

/-- Ranks that differ, a key residual longer than the rank and a value residual
shorter than it. -/
theorem fusedEqualsPlain_mixedRanks : FusedEqualsPlain ⟨1, 3, 4, 3, 3, 2, 5, 1⟩ 5 :=
  (fusedEqualsPlain_iff ⟨1, 3, 4, 3, 3, 2, 5, 1⟩ 5 (by decide)).mpr
    ⟨fun _ => ⟨by decide, by decide, by decide⟩,
      fun _ => ⟨by decide, by unfold ResidualFits; decide,
        by unfold ResidualFits; decide⟩⟩

/-- `u` has two rows and the key factors one: the second batch is read from the
rows that were cut off.  With 2³¹ cells no thread runs.  The count of 2³¹ rows of
a residual is negative as an `int`, so that the rows are not laid over. -/
theorem not_fusedEqualsPlain_cutU : ¬ FusedEqualsPlain ⟨1, 2, 1, 2, 1, 1, 0, 0⟩ 1 ∧
    ¬ FusedEqualsPlain ⟨1, 1, 1, 1, 2 ^ 30, 1, 0, 0⟩ (2 ^ 30) ∧
    ¬ FusedEqualsPlain ⟨1, 1, 1, 1, 1, 1, 2 ^ 31, 0⟩ 1 := by
  refine ⟨?_, ?_, ?_⟩
  · intro hequal
    have hagrees := agrees_of_u_eq hequal.u (by decide) (by decide)
    exact absurd hagrees.1 (by decide)
  · intro hequal
    have hagrees := agrees_of_u_eq hequal.u (by decide) (by decide)
    exact absurd hagrees.2.1 (by decide)
  · intro hequal
    have hagrees := agrees_of_v_eq hequal.v (by decide)
    exact absurd hagrees.2.1.2 (by decide)

end Fused
end CatKV
