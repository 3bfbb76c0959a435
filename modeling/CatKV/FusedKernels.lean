/-
The 4-bit codes of a quantized row, and the CUDA kernels that read them back.

`sq_compress_exact` and `CatKVCompressor::sq_compress` pack a row of codes two
to a byte: the first half of the row in the high nibbles, the second half in
the low ones.  `fused_dequant_u_transposed_kernel` has one thread for each cell
of its output; the thread finds its row and column by division, reads one
nibble and the two ends of the row's scale, and writes the transposed cell.

Sizes and indices are C++ `int`s in the launcher and in the kernels.  Signed
overflow has no meaning in C++; here it wraps, which is what the compiled code
does.  The dequantization formula is an arbitrary function of the code and the
two ends.
-/
import Mathlib.Data.Nat.Bitwise
import CatKV.TensorLayout

namespace CatKV

open List
namespace Fused

/-! ### Packing a row of codes -/

/-- `quantized.chunk(2, -1)`: pieces of half the length, rounded up, so that a
row of one element has a single piece. -/
def chunkInTwo (row : List Nat) : List (List Nat) :=
  let size := (row.length + 1) / 2
  if row.length ≤ size then [row] else [row.take size, row.drop size]

/-- The `_packed` row of `sq_compress_exact`, with uint8 arithmetic. -/
def sqCompressExact (row : List Nat) : List Nat :=
  match chunkInTwo row with
  | [chunk0, chunk1] =>
    let padded := chunk1 ++ List.replicate (chunk0.length - chunk1.length) 0
    List.zipWith (fun high low => (high * 16 + low) % 256) chunk0 padded
  | chunks => (chunks.headD []).map fun high => high * 16 % 256

/-- The packed row of `CatKVCompressor::sq_compress`. -/
def sqCompress (row : List Nat) : List Nat :=
  let half := (row.length + 1) / 2
  (List.range half).map fun col =>
    let lowCol := col + half
    let low := if lowCol < row.length then row.getD lowCol 0 else 0
    (row.getD col 0 <<< 4 ||| low) % 256

/-- The nibble both kernels take for position `position` of a row whose packed
form has `packedLen` bytes. -/
def nibbleAt (packed : Nat → Nat) (packedLen position : Nat) : Nat :=
  if position < packedLen then packed position >>> 4
  else packed (position - packedLen) &&& 0x0F

/-- A row of 4-bit codes as the values of the uint8 tensor `quantized`. -/
def codeValues (codes : List (Fin 16)) : List Nat := codes.map Fin.val

@[simp]
theorem length_codeValues (codes : List (Fin 16)) : (codeValues codes).length = codes.length := by
  simp [codeValues]

theorem getD_codeValues_lt (codes : List (Fin 16)) (position : Nat) :
    (codeValues codes).getD position 0 < 16 := by
  rw [getD_eq_getElem?_getD, codeValues, getElem?_map]
  cases codes[position]? with
  | none => decide
  | some code => exact code.isLt

theorem pack_eq {high low : Nat} (hhigh : high < 16) (hlow : low < 16) :
    (high <<< 4 ||| low) % 256 = high * 16 + low := by
  have hor := Nat.shiftLeft_add_eq_or_of_lt (i := 4) hlow high
  rw [← hor, Nat.shiftLeft_eq, Nat.mod_eq_of_lt]
  omega

/-- Byte `col` of a packed row holds the codes `col` and `col + half`, the
second one 0 past the end of the row. -/
theorem getD_sqCompress (codes : List (Fin 16)) {col : Nat} (hcol : col < (codes.length + 1) / 2) :
    (sqCompress (codeValues codes)).getD col 0 = (codeValues codes).getD col 0 * 16 +
        (codeValues codes).getD (col + (codes.length + 1) / 2) 0 := by
  have hlow : (if col + (codes.length + 1) / 2 < codes.length then
      (codeValues codes).getD (col + (codes.length + 1) / 2) 0 else 0) =
      (codeValues codes).getD (col + (codes.length + 1) / 2) 0 := by
    split
    · rfl
    · rw [getD_eq_default]
      simpa using by omega
  rw [getD_eq_getElem?_getD, sqCompress]
  simp only [getElem?_map, length_codeValues, getElem?_range hcol,
    Option.map_some, Option.getD_some, hlow]
  exact pack_eq (getD_codeValues_lt codes _) (getD_codeValues_lt codes _)

theorem getElem_pad (row : List Nat) (padding col : Nat)
    (hcol : col < (row ++ List.replicate padding 0).length) :
    (row ++ List.replicate padding 0)[col] = row.getD col 0 := by
  rw [getElem_append]
  split
  next hrow => exact (getD_eq_getElem row 0 hrow).symm
  next hrow =>
    rw [getElem_replicate, getD_eq_default _ _ (Nat.le_of_not_lt hrow)]

theorem sqCompressExact_eq (codes : List (Fin 16)) :
    sqCompressExact (codeValues codes) = sqCompress (codeValues codes) := by
  match codes with
  | [] => rfl
  | [code] =>
    have hpack := pack_eq code.isLt (show 0 < 16 by decide)
    simp [sqCompressExact, sqCompress, codeValues, chunkInTwo] at hpack ⊢
    omega
  | first :: second :: rest =>
    generalize hcodes : first :: second :: rest = codes
    have htwo : 2 ≤ codes.length := by simp [← hcodes]
    have hchunks : chunkInTwo (codeValues codes) =
        [(codeValues codes).take ((codes.length + 1) / 2),
          (codeValues codes).drop ((codes.length + 1) / 2)] := by
      rw [chunkInTwo, length_codeValues, if_neg (by omega)]
    have hlength : (sqCompress (codeValues codes)).length = (codes.length + 1) / 2 := by
      simp [sqCompress]
    rw [sqCompressExact, hchunks]
    apply ext_getElem
    · rw [hlength]
      simp only [length_zipWith, length_append, length_take,
        length_drop, length_replicate, length_codeValues]
      omega
    · intro col hexact hcol
      rw [hlength] at hcol
      have hhigh := getD_codeValues_lt codes col
      have hlow := getD_codeValues_lt codes (col + (codes.length + 1) / 2)
      have hdrop : ((codeValues codes).drop ((codes.length + 1) / 2)).getD
          col 0 = (codeValues codes).getD (col + (codes.length + 1) / 2) 0 := by
        rw [getD_eq_getElem?_getD, getElem?_drop, Nat.add_comm, ← getD_eq_getElem?_getD]
      rw [← getD_eq_getElem (sqCompress (codeValues codes)) 0, getD_sqCompress codes hcol,
        getElem_zipWith, getElem_pad _ _ _ (by simp; omega), getElem_take, ← getD_eq_getElem _ 0,
        hdrop, Nat.mod_eq_of_lt]
      omega

theorem nibbleAt_sqCompress (codes : List (Fin 16)) {position : Nat}
    (hposition : position < codes.length) :
    some (nibbleAt (fun col => (sqCompress (codeValues codes)).getD col 0)
        ((codes.length + 1) / 2) position) = (codeValues codes)[position]? := by
  have hcode := getD_codeValues_lt codes position
  have hvalue : (codeValues codes)[position]? = some ((codeValues codes).getD position 0) := by
    rw [getD_eq_getElem _ 0 (by simpa using hposition)]
    exact getElem?_eq_getElem _
  rw [hvalue, nibbleAt]
  congr 1
  split
  next hhigh =>
    have hlow := getD_codeValues_lt codes (position + (codes.length + 1) / 2)
    rw [getD_sqCompress codes hhigh, Nat.shiftRight_eq_div_pow]
    omega
  next hlow =>
    have hcol : position - (codes.length + 1) / 2 < (codes.length + 1) / 2 := by
      omega
    rw [getD_sqCompress codes hcol, Nat.sub_add_cancel (by omega),
      Nat.and_two_pow_sub_one_eq_mod _ 4]
    omega

/-- Both packers keep every code of a row for the kernels. -/
structure RoundTrips (codes : List (Fin 16)) : Prop where
  exact : ∀ position < codes.length,
    some (nibbleAt (fun col => (sqCompressExact (codeValues codes)).getD col 0)
      ((codes.length + 1) / 2) position) = (codeValues codes)[position]?
  native : ∀ position < codes.length,
    some (nibbleAt (fun col => (sqCompress (codeValues codes)).getD col 0)
      ((codes.length + 1) / 2) position) = (codeValues codes)[position]?

theorem roundTrips (codes : List (Fin 16)) : RoundTrips codes := by
  constructor
  · intro position hposition
    rw [sqCompressExact_eq]
    exact nibbleAt_sqCompress codes hposition
  · intro position hposition
    exact nibbleAt_sqCompress codes hposition

/-! ### Threads -/

/-- A value in a C++ `int`. -/
def int32 (value : Int) : Int := value.bmod 4294967296

/-- The number of blocks of 256 threads: `(total + threads - 1) / threads`. -/
def blockCount (total : Int) : Int := (int32 (total + 255)).tdiv 256

/-- The thread indices that pass the test `idx >= total` of a kernel.  A launch
with a count of blocks that is not positive is refused by the runtime, and the
launchers do not look at its error. -/
def activeThreads (total : Int) : List Nat :=
  (List.range (blockCount total * 256).toNat).filter fun idx => idx < total

/-- `B * rank * columns`, computed once by the launcher and once by each
thread.  Sizes are not negative; one that does not fit an `int` makes the
output larger than any number of threads. -/
def launchTotal (B rank columns : Nat) : Int := int32 (int32 (B * rank) * columns)

theorem int32_of_lt {value : Int} (hnonneg : 0 ≤ value)
    (hlt : value < 2 ^ 31) : int32 value = value := by
  rw [int32, Int.bmod_def]
  omega

theorem int32_lt (value : Int) : int32 value < 2 ^ 31 := by
  rw [int32, Int.bmod_def]
  omega

theorem int32_le {value : Int} (hnonneg : 0 ≤ value) : int32 value ≤ value := by
  rw [int32, Int.bmod_def]
  omega

theorem mem_activeThreads_iff {total : Int} (hfits : total + 255 < 2 ^ 31)
    {idx : Nat} : idx ∈ activeThreads total ↔ (idx : Int) < total := by
  rw [activeThreads, mem_filter, mem_range, decide_eq_true_iff, blockCount]
  constructor
  · intro hactive
    exact hactive.2
  · intro hlt
    rw [int32_of_lt (by omega) hfits, Int.tdiv_eq_ediv_of_nonneg (by omega)]
    omega

theorem length_activeThreads_le (total : Int) : (activeThreads total).length ≤ total.toNat := by
  have hsubset : activeThreads total ⊆ List.range total.toNat := by
    intro idx hidx
    rw [activeThreads, mem_filter, decide_eq_true_iff] at hidx
    rw [mem_range]
    omega
  have hnodup : (activeThreads total).Nodup := nodup_range.filter _
  have hlength := (subperm_of_subset hnodup hsubset).length_le
  rwa [length_range] at hlength

/-- From 255 below the largest `int` on, the count of blocks overflows and no
thread runs. -/
theorem activeThreads_eq_nil {total : Int} (hle : 2 ^ 31 ≤ total + 255)
    (hlt : total < 2 ^ 31) : activeThreads total = [] := by
  have hblocks : blockCount total ≤ 0 := by
    have hwrap : int32 (total + 255) ≤ 0 := by
      rw [int32, Int.bmod_def]
      omega
    have hneg : 0 ≤ (-int32 (total + 255)).tdiv 256 := Int.tdiv_nonneg (by omega) (by decide)
    rw [Int.neg_tdiv] at hneg
    rw [blockCount]
    omega
  have hcount : (blockCount total * 256).toNat = 0 := by omega
  rw [activeThreads, hcount, range_zero, filter_nil]

theorem launchTotal_of_lt {B rank columns : Nat} (hcolumns : 0 < columns)
    (hlt : B * rank * columns < 2 ^ 31) :
    launchTotal B rank columns = (B * rank * columns : Nat) := by
  have hrows : B * rank ≤ B * rank * columns := Nat.le_mul_of_pos_right _ hcolumns
  have hrows' : int32 (B * rank) = (B * rank : Nat) := by
    rw [← Int.natCast_mul]
    exact int32_of_lt (Int.natCast_nonneg _) (by omega)
  rw [launchTotal, hrows', ← Int.natCast_mul]
  exact int32_of_lt (Int.natCast_nonneg _) (by omega)

/-! ### The u kernel -/

/-- The offsets one thread of `fused_dequant_u_transposed_kernel` computes. -/
structure UThread where
  metaOffset : Int
  quantizedOffset : Int
  highNibble : Bool
  outOffset : Int
deriving DecidableEq

def uThread (rank packedLen kvLen idx : Nat) : UThread :=
  let kvIdx := idx % kvLen
  let rankIdx := idx / kvLen % rank
  let batch := idx / (kvLen * rank)
  let qBase := (batch * rank + rankIdx) * packedLen
  { metaOffset := int32 ((batch * rank + rankIdx) * 2 : Nat)
    quantizedOffset :=
      if kvIdx < packedLen then int32 (qBase + kvIdx : Nat)
      else int32 (qBase + (kvIdx - packedLen) : Nat)
    highNibble := kvIdx < packedLen
    outOffset := int32 (batch * (kvLen * rank) + kvIdx * rank + rankIdx : Nat) }

/-- What the thread for cell `(b, k, r)` of the output `[B, kvLen, rank]` has
to read: the scale of row `r` of batch `b`, and the byte of that row with the
nibble of position `k`. -/
structure ReadsSource (rank packedLen b k r : Nat) (thread : UThread) : Prop where
  scale : thread.metaOffset = cell rank 2 b r 0
  byte : thread.quantizedOffset =
    cell rank packedLen b r (if k < packedLen then k else k - packedLen)
  nibble : thread.highNibble = decide (k < packedLen)

/-- The bounds of a thread's two reads of `u_meta`, of its read of
`u_quantized` and of its write. -/
structure InBounds (B rank packedLen kvLen : Nat) (thread : UThread) : Prop where
  scale : 0 ≤ thread.metaOffset ∧ thread.metaOffset + 1 < B * rank * 2
  byte : 0 ≤ thread.quantizedOffset ∧ thread.quantizedOffset < B * rank * packedLen
  out : 0 ≤ thread.outOffset ∧ thread.outOffset < B * kvLen * rank

/-- Every cell of the transposed output is written by one thread, which reads
the cell's source, and no thread leaves the tensors. -/
structure WritesTranspose (B rank kvLen : Nat) : Prop where
  once : ∀ b < B, ∀ k < kvLen, ∀ r < rank, ∃ idx ∈ activeThreads (launchTotal B rank kvLen),
      (uThread rank ((kvLen + 1) / 2) kvLen idx).outOffset = cell kvLen rank b k r ∧
        ReadsSource rank ((kvLen + 1) / 2) b k r (uThread rank ((kvLen + 1) / 2) kvLen idx) ∧
        ∀ other ∈ activeThreads (launchTotal B rank kvLen),
          (uThread rank ((kvLen + 1) / 2) kvLen other).outOffset =
            cell kvLen rank b k r → other = idx
  inBounds : ∀ idx ∈ activeThreads (launchTotal B rank kvLen),
    InBounds B rank ((kvLen + 1) / 2) kvLen (uThread rank ((kvLen + 1) / 2) kvLen idx)

theorem uThread_cell {rank packedLen kvLen b k r : Nat} (hr : r < rank) (hk : k < kvLen) :
    uThread rank packedLen kvLen (cell rank kvLen b r k) =
      { metaOffset := int32 (cell rank 2 b r 0)
        quantizedOffset := int32
          (cell rank packedLen b r (if k < packedLen then k else k - packedLen))
        highNibble := k < packedLen
        outOffset := int32 (cell kvLen rank b k r) } := by
  have hout : b * (kvLen * rank) + k * rank + r = cell kvLen rank b k r := by
    rw [cell]
    ring
  have hbyte : (if k < packedLen then int32 ((b * rank + r) * packedLen + k : Nat)
      else int32 ((b * rank + r) * packedLen + (k - packedLen) : Nat)) = int32
        (cell rank packedLen b r (if k < packedLen then k else k - packedLen)) := by
    split <;> rw [cell]
  have hscale : (b * rank + r) * 2 = cell rank 2 b r 0 := rfl
  simp only [uThread, cell_mod hk, cell_row hr hk, cell_batch hr hk, hout, hbyte, hscale]

/-- The sizes for which the `int`s of the u kernel and of its launcher hold
every value: the last block is counted past the last cell, and the scale has
two entries for each row. -/
def UFits (B rank kvLen : Nat) : Prop := B * rank * kvLen + 255 < 2 ^ 31 ∧ B * rank * 2 ≤ 2 ^ 31

instance (B rank kvLen : Nat) : Decidable (UFits B rank kvLen) :=
  inferInstanceAs (Decidable (_ ∧ _))

section Sizes

variable {B rank kvLen : Nat}

theorem mem_activeThreads_launch (hcolumns : 0 < kvLen) (hfits : B * rank * kvLen + 255 < 2 ^ 31)
    {idx : Nat} : idx ∈ activeThreads (launchTotal B rank kvLen) ↔ idx < B * rank * kvLen := by
  rw [launchTotal_of_lt hcolumns (by omega), mem_activeThreads_iff (by omega), Int.ofNat_lt]

theorem activeThreads_launch_eq_nil (hcolumns : 0 < kvLen) (hle : 2 ^ 31 ≤ B * rank * kvLen + 255)
    (hlt : B * rank * kvLen < 2 ^ 31) : activeThreads (launchTotal B rank kvLen) = [] := by
  rw [launchTotal_of_lt hcolumns hlt]
  apply activeThreads_eq_nil <;> omega

/-- Once the `int`s do not hold the number of cells, there are fewer threads
than cells. -/
theorem length_activeThreads_lt (hcells : 0 < B * rank * kvLen)
    (hle : 2 ^ 31 ≤ B * rank * kvLen + 255) :
    (activeThreads (launchTotal B rank kvLen)).length < B * rank * kvLen := by
  have hcolumns : 0 < kvLen := Nat.pos_of_mul_pos_left hcells
  by_cases hlt : B * rank * kvLen < 2 ^ 31
  · rw [activeThreads_launch_eq_nil hcolumns hle hlt]
    exact hcells
  · have htotal : launchTotal B rank kvLen < 2 ^ 31 := int32_lt _
    have hlength := length_activeThreads_le (launchTotal B rank kvLen)
    omega

theorem outOffset_uThread (hfits : B * rank * kvLen + 255 < 2 ^ 31) {b k r : Nat} (hb : b < B)
    (hk : k < kvLen) (hr : r < rank) (packedLen : Nat) :
    (uThread rank packedLen kvLen (cell rank kvLen b r k)).outOffset = cell kvLen rank b k r := by
  have hout : cell kvLen rank b k r < B * kvLen * rank := cell_lt hb hk hr
  have hcomm : B * kvLen * rank = B * rank * kvLen := Nat.mul_right_comm _ _ _
  rw [uThread_cell hr hk]
  dsimp only
  rw [int32_of_lt (Int.natCast_nonneg _) (by omega)]

theorem eq_of_outOffset_uThread (hcolumns : 0 < kvLen) (hfits : B * rank * kvLen + 255 < 2 ^ 31)
    {b k r packedLen : Nat} (hk : k < kvLen) (hr : r < rank) {idx : Nat}
    (hidx : idx ∈ activeThreads (launchTotal B rank kvLen))
    (hout : (uThread rank packedLen kvLen idx).outOffset =
      cell kvLen rank b k r) : idx = cell rank kvLen b r k := by
  rw [mem_activeThreads_launch hcolumns hfits] at hidx
  obtain ⟨b', hb', r', hr', k', hk', rfl⟩ := exists_cell hidx
  rw [outOffset_uThread hfits hb' hk' hr'] at hout
  obtain ⟨rfl, rfl, rfl⟩ := cell_inj hk' hr' hk hr (Int.ofNat_inj.mp hout)
  rfl

theorem uThread_of_fits (hfits : UFits B rank kvLen) {packedLen b k r : Nat}
    (hpacked : packedLen ≤ kvLen) (hcover : kvLen ≤ 2 * packedLen)
    (hb : b < B) (hk : k < kvLen) (hr : r < rank) :
    uThread rank packedLen kvLen (cell rank kvLen b r k) =
      { metaOffset := cell rank 2 b r 0
        quantizedOffset := cell rank packedLen b r (if k < packedLen then k else k - packedLen)
        highNibble := k < packedLen
        outOffset := cell kvLen rank b k r } := by
  have hscale : cell rank 2 b r 0 < B * rank * 2 := cell_lt hb hr (by decide)
  have hbyte : cell rank packedLen b r
      (if k < packedLen then k else k - packedLen) < B * rank * packedLen :=
    cell_lt hb hr (by split <;> omega)
  have hbytes : B * rank * packedLen ≤ B * rank * kvLen := Nat.mul_le_mul_left _ hpacked
  have hout := outOffset_uThread hfits.1 hb hk hr packedLen
  obtain ⟨hcells, hscales⟩ := hfits
  rw [uThread_cell hr hk] at hout ⊢
  dsimp only at hout
  rw [hout, int32_of_lt (Int.natCast_nonneg _) (by omega),
    int32_of_lt (Int.natCast_nonneg _) (by omega)]

theorem writesTranspose_of_fits (hcolumns : 0 < kvLen)
    (hfits : UFits B rank kvLen) : WritesTranspose B rank kvLen := by
  constructor
  · intro b hb k hk r hr
    have hidx := cell_lt hb hr hk
    have hthread := uThread_of_fits hfits
      (show (kvLen + 1) / 2 ≤ kvLen by omega) (by omega) hb hk hr
    refine ⟨cell rank kvLen b r k, (mem_activeThreads_launch hcolumns hfits.1).mpr hidx, ?_, ?_, ?_⟩
    · rw [hthread]
    · rw [hthread]
      exact ⟨rfl, rfl, rfl⟩
    · intro other hother hout
      exact eq_of_outOffset_uThread hcolumns hfits.1 hk hr hother hout
  · intro idx hidx
    rw [mem_activeThreads_launch hcolumns hfits.1] at hidx
    obtain ⟨b, hb, r, hr, k, hk, rfl⟩ := exists_cell hidx
    rw [uThread_of_fits hfits (by omega) (by omega) hb hk hr]
    have hscale : cell rank 2 b r 1 < B * rank * 2 := cell_lt hb hr (by decide)
    have hbyte : cell rank ((kvLen + 1) / 2) b r
        (if k < (kvLen + 1) / 2 then k else k - (kvLen + 1) / 2) < B * rank * ((kvLen + 1) / 2) :=
      cell_lt hb hr (by split <;> omega)
    have hout : cell kvLen rank b k r < B * kvLen * rank := cell_lt hb hk hr
    have hnext : cell rank 2 b r 1 = cell rank 2 b r 0 + 1 := rfl
    rw [hnext] at hscale
    refine ⟨⟨Int.natCast_nonneg _, ?_⟩, ⟨Int.natCast_nonneg _, ?_⟩,
      ⟨Int.natCast_nonneg _, ?_⟩⟩ <;> dsimp only
    · exact_mod_cast hscale
    · exact_mod_cast hbyte
    · exact_mod_cast hout

theorem fits_of_writesTranspose (hcolumns : 0 < kvLen) (hlt : B * rank * kvLen < 2 ^ 31)
    (hrows : B * rank ≠ 0) (hwrites : WritesTranspose B rank kvLen) : UFits B rank kvLen := by
  have hB : 0 < B := Nat.pos_of_mul_pos_right (Nat.pos_of_ne_zero hrows)
  have hrank : 0 < rank := Nat.pos_of_mul_pos_left (Nat.pos_of_ne_zero hrows)
  have hcells : B * rank * kvLen + 255 < 2 ^ 31 := by
    by_contra hoverflow
    obtain ⟨idx, hidx, -⟩ := hwrites.once 0 hB 0 hcolumns 0 hrank
    rw [activeThreads_launch_eq_nil hcolumns (by omega) hlt] at hidx
    exact not_mem_nil hidx
  refine ⟨hcells, ?_⟩
  by_contra hoverflow
  -- The scale of the last row starts at an offset no `int` holds.
  have hlast : cell rank 2 (B - 1) (rank - 1) 0 = B * rank * 2 - 2 := by
    have hsum : (B - 1) * rank + rank = B * rank := by
      rw [← Nat.succ_mul, Nat.succ_eq_add_one, Nat.sub_add_cancel hB]
    rw [cell]
    omega
  have hidx : cell rank kvLen (B - 1) (rank - 1) 0 < B * rank * kvLen :=
    cell_lt (by omega) (by omega) hcolumns
  have hbounds := (hwrites.inBounds _ ((mem_activeThreads_launch hcolumns hcells).mpr hidx)).scale.1
  rw [uThread_cell (by omega) hcolumns, hlast] at hbounds
  have hrows' : B * rank ≤ B * rank * kvLen := Nat.le_mul_of_pos_right _ hcolumns
  dsimp only at hbounds
  rw [int32, Int.bmod_def] at hbounds
  omega

/-- Rows of codes go through packing and the kernels unchanged, and the u kernel
writes its whole output from the right sources, as long as the `int`s of the
kernel hold its sizes. -/
theorem roundTrips_writesTranspose_iff (codes : List (Fin 16))
    (hrow : 1 ≤ codes.length) (hlt : B * rank * codes.length < 2 ^ 31) :
    RoundTrips codes ∧ WritesTranspose B rank codes.length ↔ UFits B rank codes.length := by
  constructor
  · rintro ⟨-, hwrites⟩
    by_cases hrows : B * rank = 0
    · rw [UFits, hrows, Nat.zero_mul, Nat.zero_mul]
      decide
    · exact fits_of_writesTranspose hrow hlt hrows hwrites
  · intro hfits
    exact ⟨roundTrips codes, writesTranspose_of_fits hrow hfits⟩

end Sizes

/-- Two batches of rank three over a row of five codes. -/
theorem roundTrips_writesTranspose_fiveCodes :
    RoundTrips [3, 14, 1, 5, 9] ∧ WritesTranspose 2 3 5 :=
  (roundTrips_writesTranspose_iff [3, 14, 1, 5, 9] (by decide) (by decide)).mpr (by decide)

/-- With one cell less than 2³¹ the count of blocks overflows and no cell is
written; with one position in each of 2³⁰ + 2 rows the scale of the last row is
read outside `u_meta`. -/
theorem not_writesTranspose_largeTotals : ¬ WritesTranspose 1 1 (2 ^ 31 - 1) ∧
    ¬ WritesTranspose 2 (2 ^ 29 + 1) 1 := by
  constructor
  · intro hwrites
    exact absurd (fits_of_writesTranspose (by decide) (by decide) (by decide) hwrites) (by decide)
  · intro hwrites
    exact absurd (fits_of_writesTranspose (by decide) (by decide) (by decide) hwrites) (by decide)

end Fused
end CatKV
