/-
What `use_largest_rank_key_sv` leaves of every chunk of a call.  The key rows of
all chunks come from one factorization, so the key factors of a chunk are the
first rows of those of any chunk of larger rank.  `Ours.decompress` cuts the
factors back to the rank both halves have, and the kernel overlays residual
rows only below that rank.
-/
import CatKV.FusedDecompression
import CatKV.GroupedSlices

namespace CatKV.Grouped

open Fused List

/-! ### `Ours.decompress` on the entries of a chunk -/

section Decompress

variable {α γ : Type} [Inhabited α]

/-- The memory of the first rows of a key and a value part, one after the
other. -/
def joinedStorage {β : Type} [Inhabited β] (rank width : Nat)
    (key value : List (List β)) (outside : Int → β) : Int → β :=
  let joined : Tensor3 (1 + 1) rank width β :=
    ((Tensor3.ofRows key).takeRows rank).catBatches ((Tensor3.ofRows value).takeRows rank)
  joined.storage outside

/-- The memory of a residual. -/
def residualStorage (hiddenDim : Nat) (rows : List (List α)) (outside : Int → α) : Int → α :=
  (Tensor3.ofRows rows : Tensor3 1 rows.length hiddenDim α).storage outside

def scaleRows (scales : List (α × α)) : List (List α) := scales.map fun scale => [scale.1, scale.2]

/-- `size(2)` of a tensor of packed rows. -/
def packedWidth (rows : List (List Nat)) : Nat := (rows.headD []).length

/-- The entries of a chunk are one batch of keys and one of values.  `matmul`
stands for the product of the two outputs, of the given sizes. -/
def decompress (dequant : Nat → α → α → α) (matmul : Nat → Nat → (Int → α) → (Int → α) → γ)
    (hiddenDim kvLen : Nat) (garbage : Garbage α)
    (dict : GroupDict α (List Nat) (α × α)) : γ :=
  let rank := min dict.keySvQuantized.length dict.valueSvQuantized.length
  let uRank := dict.uQuantized.1.length
  let u := fusedDequantUTransposed dequant 2 (min uRank rank) (packedWidth dict.uQuantized.1) kvLen
    (joinedStorage uRank (packedWidth dict.uQuantized.1) dict.uQuantized.1
      dict.uQuantized.2 garbage.bytes)
    (joinedStorage uRank 2 (scaleRows dict.uMeta.1) (scaleRows dict.uMeta.2)
      garbage.scalars) garbage.uOut
  let sv := fusedDequantVResidual dequant 2 rank (packedWidth dict.valueSvQuantized) hiddenDim
    dict.keyResidualSv.length dict.valueResidualSv.length
    (joinedStorage rank (packedWidth dict.valueSvQuantized)
      dict.keySvQuantized dict.valueSvQuantized garbage.bytes)
    (joinedStorage rank 2 (scaleRows dict.keySvMeta) (scaleRows dict.valueSvMeta) garbage.scalars)
    (residualStorage hiddenDim dict.keyResidualSv garbage.scalars)
    (residualStorage hiddenDim dict.valueResidualSv garbage.scalars)
    garbage.vOut
  matmul (min uRank rank) rank u sv

end Decompress

/-! ### Prefixes of one factorization -/

section Prefixes

variable {α Packed Scale : Type} {compressor : Compressor α Packed Scale}

/-- The key factors of a chunk are the first rows of the call's factors, as
many as its value factors have. -/
structure FromBasis (compressor : Compressor α Packed Scale)
    (basis : KeyBasis α) (dict : GroupDict α Packed Scale) : Prop where
  quantized : dict.keySvQuantized = ((compressor.svRows basis.factors dict.keySvRank).map
      compressor.quantizeRow).map Prod.fst
  scales : dict.keySvMeta = ((compressor.svRows basis.factors dict.keySvRank).map
      compressor.quantizeRow).map Prod.snd
  residual : dict.keyResidualSv =
    (compressor.svRows basis.factors dict.keySvRank).take basis.residualDim
  sameRank : dict.keySvRank = dict.valueSvQuantized.length

theorem take_svRows {factors : Factors α} {rank larger : Nat} (hle : rank ≤ larger) :
    (compressor.svRows factors larger).take rank = compressor.svRows factors rank := by
  rw [Compressor.svRows, take_take, Nat.min_eq_left hle, Compressor.svRows]

theorem fromBasis_of_compressChunk {first groupCount : Nat} {key : List (List α)}
    {uuid : Option Uuid} {keyU valueRows : List (List α)} {range : ChunkRange}
    {dict : GroupDict α Packed Scale} (hchunk : compressor.compressChunk
      (compressor.keyBasis first groupCount key uuid) keyU valueRows range = some dict) :
    FromBasis compressor (compressor.keyBasis first groupCount key uuid) dict := by
  rw [Compressor.compressChunk] at hchunk
  split at hchunk
  next hshapes =>
    obtain ⟨-, hsame, -⟩ := hshapes
    have hdict := (Option.some.inj hchunk).symm
    generalize hbasis : compressor.keyBasis first groupCount key uuid = basis at hdict hsame ⊢
    generalize hvalue : compressor.svd (.value range.position) valueRows
      basis.rank = value at hdict hsame
    have hfactors : basis.factors = compressor.svd (.key first) key basis.rank := by
      rw [← hbasis]
      rfl
    have hrank : compressor.chunkRank basis value (range.stop - range.start) ≤
        (value.s.take (min basis.rank (range.stop - range.start))).length :=
      Nat.min_le_left ..
    have hkeyRank : (compressor.svRows basis.factors (compressor.chunkRank
        basis value (range.stop - range.start))).length =
          compressor.chunkRank basis value (range.stop - range.start) := by
      rw [← hsame, length_take] at hrank
      rw [hfactors] at hrank ⊢
      exact length_svRows (hrank.trans (Nat.min_le_right ..))
    have hvalueRank : (compressor.svRows value (compressor.chunkRank
        basis value (range.stop - range.start))).length =
          compressor.chunkRank basis value (range.stop - range.start) := by
      rw [length_take] at hrank
      rw [← hvalue] at hrank ⊢
      exact length_svRows (hrank.trans (Nat.min_le_right ..))
    have hkeySvRank : dict.keySvRank =
        compressor.chunkRank basis value (range.stop - range.start) := by
      rw [hdict, GroupDict.keySvRank, Compressor.groupDict, length_map, length_map, hkeyRank]
    constructor
    · rw [hkeySvRank, hdict, Compressor.groupDict]
    · rw [hkeySvRank, hdict, Compressor.groupDict]
    · rw [hkeySvRank, hdict, Compressor.groupDict]
    · rw [hkeySvRank, hdict, Compressor.groupDict, length_map, length_map, hvalueRank]
  next => exact absurd hchunk (by simp)

theorem exists_of_mapM {β γ : Type} {f : β → Option γ} {items : List β}
    {results : List γ} (hmap : items.mapM f = some results) {result : γ}
    (hmem : result ∈ results) : ∃ item ∈ items, f item = some result := by
  induction items generalizing results with
  | nil =>
    rw [mapM_nil] at hmap
    cases hmap
    exact absurd hmem not_mem_nil
  | cons item rest ih =>
    rw [mapM_cons] at hmap
    obtain ⟨head, hhead, hrest⟩ := Option.bind_eq_some_iff.mp hmap
    obtain ⟨tail, htail, heq⟩ := Option.bind_eq_some_iff.mp hrest
    cases heq
    cases mem_cons.mp hmem with
    | inl hresult => exact ⟨item, mem_cons_self, hresult ▸ hhead⟩
    | inr hin =>
      obtain ⟨source, hsource, hf⟩ := ih htail hin
      exact ⟨source, mem_cons_of_mem _ hsource, hf⟩

theorem exists_basis {data : KvRows α} {indices : List ChunkRange}
    {uuid : Option Uuid} {payloads : List (GroupDict α Packed Scale)}
    (hcall : compressor.compressMultiImpl data indices uuid = some payloads) :
    ∃ basis, basis.residualDim ≤ 1024 ∧
      ∀ payload ∈ payloads, FromBasis compressor basis payload := by
  cases indices with
  | nil =>
    rw [Compressor.compressMultiImpl] at hcall
    cases hcall
    exact ⟨⟨0, 0, 0, compressor.svd (.key 0) [] 0, 0, []⟩, by simp, by simp⟩
  | cons first rest =>
    refine ⟨compressor.keyBasis first.position (rest.length + 1) data.key uuid, ?_,
      fun payload hpayload => ?_⟩
    · simp only [Compressor.keyBasis, Compressor.residualDim, Compressor.calculateMultiRank]
      omega
    · rw [Compressor.compressMultiImpl] at hcall
      split at hcall
      · cases hcall
      · obtain ⟨range, -, hchunk⟩ := exists_of_mapM hcall hpayload
        exact fromBasis_of_compressChunk hchunk

/-- What a payload keeps of its key factors when it gets those of `source`. -/
structure KeepsKeyFactors (payload shared : GroupDict α Packed Scale) : Prop where
  quantized : shared.keySvQuantized.take payload.valueSvQuantized.length = payload.keySvQuantized
  scales : shared.keySvMeta.take payload.valueSvQuantized.length = payload.keySvMeta
  residual : shared.keyResidualSv.take payload.valueSvQuantized.length = payload.keyResidualSv
  sameRank : payload.keySvRank = payload.valueSvQuantized.length

theorem keepsKeyFactors_of_le {basis : KeyBasis α} {payload source : GroupDict α Packed Scale}
    (hpayload : FromBasis compressor basis payload) (hsource : FromBasis compressor basis source)
    (hle : payload.keySvRank ≤ source.keySvRank) :
    KeepsKeyFactors payload (payload.withKeySv source) := by
  constructor
  · rw [GroupDict.withKeySv, hsource.quantized, ← hpayload.sameRank,
      ← map_take, ← map_take, take_svRows hle, hpayload.quantized]
  · rw [GroupDict.withKeySv, hsource.scales, ← hpayload.sameRank,
      ← map_take, ← map_take, take_svRows hle, hpayload.scales]
  · rw [GroupDict.withKeySv, hsource.residual, ← hpayload.sameRank, take_take, Nat.min_comm,
      ← take_take, take_svRows hle, hpayload.residual]
  · exact hpayload.sameRank

end Prefixes

/-! ### What is reconstructed -/

section Reconstruct

variable {α γ : Type} [Inhabited α]

theorem getD_take {β : Type} {rows : List β} {rank row : Nat} (hrow : row < rank)
    (fallback : β) : (rows.take rank).getD row fallback = rows.getD row fallback := by
  rw [getD_eq_getElem?_getD, getElem?_take_of_lt hrow, getD_eq_getElem?_getD]

theorem joinedStorage_take {β : Type} [Inhabited β] (rank width : Nat)
    (key value : List (List β)) (outside : Int → β) :
    joinedStorage rank width (key.take rank) value outside =
      joinedStorage rank width key value outside := by
  apply Tensor3.storage_congr
  intro i _ j hj k _
  simp only [Tensor3.catBatches, Tensor3.takeRows, Tensor3.ofRows, getD_take hj]

theorem residualStorage_cell {hiddenDim row col : Nat} (rows : List (List α)) (outside : Int → α)
    (hrow : row < rows.length) (hcol : col < hiddenDim) (hlt : row * hiddenDim + col < 2 ^ 31) :
    residualStorage hiddenDim rows outside (int32 ((row : Int) * hiddenDim + col)) =
      (rows.getD row []).getD col default := by
  have hoffset : (row : Int) * hiddenDim + col = (row * hiddenDim + col : Nat) := by push_cast; rfl
  rw [residualStorage, hoffset, int32_of_lt (Int.natCast_nonneg _) (by omega)]
  have hcell : row * hiddenDim + col = cell rows.length hiddenDim 0 row col := by
    rw [cell, Nat.zero_mul, Nat.zero_add]
  rw [hcell, Tensor3.storage_cell _ _ one_pos hrow hcol]
  rfl

theorem fusedDequantVResidual_take (dequant : Nat → α → α → α)
    {rank packedHidden hiddenDim valRows : Nat} (hhidden : 0 < hiddenDim) (quantized : Int → Nat)
    (ends valResidual vOut : Int → α) {rows : List (List α)} (hrows : rows.length < 2 ^ 31)
    (outside : Int → α) : fusedDequantVResidual dequant 2 rank packedHidden hiddenDim
        (rows.take rank).length valRows quantized ends
        (residualStorage hiddenDim (rows.take rank) outside) valResidual vOut =
      fusedDequantVResidual dequant 2 rank packedHidden hiddenDim rows.length valRows quantized ends
        (residualStorage hiddenDim rows outside) valResidual vOut := by
  have hcount (count : Nat) (hcount : count < 2 ^ 31) :
      (if 0 < 2 / 2 * count * hiddenDim then int32 count else 0) = count := by
    rw [int32_of_lt (Int.natCast_nonneg _) (by omega)]
    rcases Nat.eq_zero_or_pos count with rfl | hpos
    · exact ite_self _
    · exact if_pos (Nat.mul_pos (by omega) hhidden)
  have htake : (rows.take rank).length < 2 ^ 31 := (length_take_le' ..).trans_lt hrows
  simp only [fusedDequantVResidual, hcount _ hrows, hcount _ htake]
  apply writeAll_congr
  intro idx hidx
  have hlt : (idx : Int) < launchTotal 2 rank hiddenDim := by
    rw [activeThreads, mem_filter, decide_eq_true_iff] at hidx
    exact hidx.2
  have hint : (idx : Int) < 2 ^ 31 := hlt.trans (int32_lt _)
  have hrank : 0 < rank := by
    apply Nat.pos_of_ne_zero
    rintro rfl
    rw [launchTotal_of_lt hhidden (by omega)] at hlt
    omega
  have hrow : idx / hiddenDim % rank < rank := Nat.mod_lt _ hrank
  have hcol : idx % hiddenDim < hiddenDim := Nat.mod_lt _ hhidden
  have hlength : idx / hiddenDim % rank < (rows.take rank).length ↔
      idx / hiddenDim % rank < rows.length := by
    rw [length_take]
    omega
  simp only [vThreadValue, Nat.cast_lt, hlength, Nat.reduceDiv]
  by_cases hkey : idx / (hiddenDim * rank) < 1 ∧ idx / hiddenDim % rank < rows.length
  · have hbatch : idx / (hiddenDim * rank) = 0 := Nat.lt_one_iff.mp hkey.1
    have hcell := cell_quotients rank hiddenDim idx
    rw [hbatch, cell, Nat.zero_mul, Nat.zero_add] at hcell
    have hoffset : idx / hiddenDim % rank * hiddenDim + idx % hiddenDim < 2 ^ 31 := by omega
    simp only [hkey, hbatch, Nat.zero_lt_one, true_and, if_true, Nat.cast_zero, zero_mul, zero_add]
    rw [residualStorage_cell _ _ (hlength.mpr hkey.2) hcol hoffset,
      residualStorage_cell _ _ hkey.2 hcol hoffset, getD_take hrow]
  · simp only [hkey, if_false]

/-- Decompression does not see whose key factors a payload has, as long as it
keeps its own first rows. -/
theorem decompress_withKeySv (dequant : Nat → α → α → α)
    (matmul : Nat → Nat → (Int → α) → (Int → α) → γ) {hiddenDim : Nat} (hhidden : 0 < hiddenDim)
    (kvLen : Nat) (garbage : Garbage α) {payload source : GroupDict α (List Nat) (α × α)}
    (hkeeps : KeepsKeyFactors payload (payload.withKeySv source))
    (hrows : source.keyResidualSv.length < 2 ^ 31) :
    decompress dequant matmul hiddenDim kvLen garbage (payload.withKeySv source) =
      decompress dequant matmul hiddenDim kvLen garbage payload := by
  obtain ⟨hquantized, hscales, hresidual, hsame⟩ := hkeeps
  rw [GroupDict.keySvRank] at hsame
  dsimp only [GroupDict.withKeySv] at hquantized hscales hresidual
  have hshared : min source.keySvQuantized.length
      payload.valueSvQuantized.length = payload.valueSvQuantized.length := by
    have hlength := congrArg List.length hquantized
    rw [length_take, hsame] at hlength
    omega
  simp only [decompress, GroupDict.withKeySv, hshared, hsame, Nat.min_self]
  rw [← hquantized, ← hscales, ← hresidual, joinedStorage_take,
    fusedDequantVResidual_take _ hhidden _ _ _ _ hrows]
  simp only [scaleRows, map_take, joinedStorage_take]

end Reconstruct

section Sharing

variable {α γ : Type} [Inhabited α]
variable {compressor : Compressor α (List Nat) (α × α)}

/-- What sharing the largest key factors leaves of a payload. -/
structure SharingPreserves (compressor : Compressor α (List Nat) (α × α))
    (payload shared : GroupDict α (List Nat) (α × α)) : Prop where
  keeps : KeepsKeyFactors payload shared
  reconstructs : ∀ (γ : Type) (dequant : Nat → α → α → α)
    (matmul : Nat → Nat → (Int → α) → (Int → α) → γ) (kvLen : Nat)
    (garbage : Garbage α),
    decompress dequant matmul compressor.hiddenDim kvLen garbage shared =
      decompress dequant matmul compressor.hiddenDim kvLen garbage payload

/-- Every payload of a call is reconstructed from the shared key factors as from
its own. -/
theorem sharing_preserves {data : KvRows α} {indices : List ChunkRange} {uuid : Option Uuid}
    {payloads : List (GroupDict α (List Nat) (α × α))}
    (hcall : compressor.compressMultiImpl data indices uuid = some payloads) {index : Nat}
    {payload : GroupDict α (List Nat) (α × α)} (hpayload : payloads[index]? = some payload) :
    ∃ shared, (useLargestRankKeySv payloads)[index]? = some shared ∧
      SharingPreserves compressor payload shared := by
  obtain ⟨basis, hdim, hbasis⟩ := exists_basis hcall
  have hmem := mem_of_getElem? hpayload
  have hne : payloads.map GroupDict.keySvRank ≠ [] := by
    intro hnil
    rw [map_eq_nil_iff] at hnil
    rw [hnil] at hmem
    exact not_mem_nil hmem
  obtain ⟨largest, hlargest, hall⟩ := exists_largestRank hne
  rw [getElem?_map] at hlargest
  obtain ⟨source, hsource, rfl⟩ := Option.map_eq_some_iff.mp hlargest
  have hkeeps : KeepsKeyFactors payload (payload.withKeySv source) :=
    keepsKeyFactors_of_le (hbasis payload hmem) (hbasis source (mem_of_getElem? hsource))
      (hall _ (mem_map_of_mem hmem))
  refine ⟨payload.withKeySv source, ?_, hkeeps, ?_⟩
  · rw [useLargestRankKeySv, hsource, getElem?_map, hpayload]
    rfl
  · intro γ dequant matmul kvLen garbage
    refine decompress_withKeySv dequant matmul compressor.hiddenDim_pos kvLen garbage hkeeps ?_
    rw [(hbasis source (mem_of_getElem? hsource)).residual]
    exact (length_take_le ..).trans_lt (by omega)

end Sharing

/-- A compressor for two columns with the two ends of a row as its scale. -/
def endsCompressor : Compressor Nat (List Nat) (Nat × Nat) :=
  { plainCompressor with quantizeRow := fun row => (row, (0, row.sum)) }

/-- A chunk of one row beside one of three. -/
theorem sharing_preserves_shortChunk : ∃ payloads, endsCompressor.compressMultiImpl
      ⟨[[1, 2], [3, 4], [5, 6], [7, 8]], [[1, 2], [3, 4], [5, 6], [7, 8]], rfl⟩
      [⟨0, 0, 1⟩, ⟨1, 1, 4⟩] none = some payloads ∧
    ∃ payload, payloads[0]? = some payload ∧
      ∃ shared, (useLargestRankKeySv payloads)[0]? = some shared ∧ shared.keySvRank = 2 ∧
        SharingPreserves endsCompressor payload shared := by
  obtain ⟨payloads, hcall⟩ : ∃ payloads, endsCompressor.compressMultiImpl
      ⟨[[1, 2], [3, 4], [5, 6], [7, 8]], [[1, 2], [3, 4], [5, 6], [7, 8]], rfl⟩
      [⟨0, 0, 1⟩, ⟨1, 1, 4⟩] none = some payloads := ⟨_, rfl⟩
  obtain ⟨payload, hpayload⟩ : ∃ payload, payloads[0]? = some payload := by
    cases hcall
    exact ⟨_, rfl⟩
  obtain ⟨shared, hshared, hpreserves⟩ := sharing_preserves hcall hpayload
  refine ⟨payloads, hcall, payload, hpayload, shared, hshared, ?_, hpreserves⟩
  cases hcall
  cases hshared
  rfl

end CatKV.Grouped
