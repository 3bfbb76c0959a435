/-
The native compressor on chunks that share a key basis.  The key rows of all
chunks of a call are factored together and the value rows chunk by chunk;
`compress_multi` makes one such call for each group id and one for each chunk
without a group.  A tensor of one layer is the list of its rows.  The singular
value decomposition, when it throws, the elbow, the budgets and the quantization
of a row are arbitrary functions; only the sizes of the factors are assumed.
-/
import CatKV.Payload
import CatKV.Segments

namespace CatKV.Grouped

/-- What `compute_svd_with_sigma_min` returns, `v` transposed: the rows of `u`
belong to the rows of the matrix, those of `v` to the singular values. -/
structure Factors (α : Type) where
  u : List (List α)
  s : List α
  v : List (List α)
  sMin : α
deriving Repr, DecidableEq

/-- The decompositions start from random matrices, drawn for the key rows of a
call, named after its first chunk, and for the value rows of a chunk. -/
inductive Draw where
  | key (position : Nat)
  | value (position : Nat)
deriving Repr, DecidableEq

/-- The functions of a compressor, for tensors of `hiddenDim` columns. -/
structure Compressor (α Packed Scale : Type) where
  hiddenDim : Nat
  svd : Draw → List (List α) → Nat → Factors α
  /-- `compute_svd_with_sigma_min` throws.  For rows of zeros the shift is zero
  too, so both `linalg_lu_factor` and the `linalg_solve` that follows it fail. -/
  throws : Draw → List (List α) → Nat → Bool
  /-- `calculate_elbow`. -/
  elbow : List α → Nat → α → Nat
  /-- The budget of a call over the cost of a rank, rounded down. -/
  allRank : Nat → Nat → Nat
  /-- `allocate_low_rank_multi`. -/
  allocateLowRank : Nat → Nat → Nat → Int × Int
  /-- A row of `diag(s) * v`, in the output type. -/
  scaleRow : α → List α → List α
  toOutput : α → α
  /-- A row of `sq_compress_exact`: the packed values and the minimum and
  maximum. -/
  quantizeRow : List α → Packed × Scale
  makeUuid : Nat → Uuid
  hiddenDim_pos : 0 < hiddenDim
  u_length : ∀ draw matrix rank, (svd draw matrix rank).u.length = matrix.length
  s_length : ∀ draw matrix rank, (svd draw matrix rank).s.length =
    min rank (min matrix.length hiddenDim)
  v_length : ∀ draw matrix rank, (svd draw matrix rank).v.length =
    min rank (min matrix.length hiddenDim)
  u_width : ∀ draw matrix rank, ∀ row ∈ (svd draw matrix rank).u,
    row.length = min rank (min matrix.length hiddenDim)

/-- Key and value rows of the same tokens. -/
@[ext]
structure KvRows (α : Type) where
  key : List (List α)
  value : List (List α)
  sameLength : value.length = key.length
deriving Repr, DecidableEq

/-- The entries of a compressed chunk; the two rows of `u` are those of key and
value. -/
structure GroupDict (α Packed Scale : Type) where
  uQuantized : List Packed × List Packed
  uMeta : List Scale × List Scale
  keySvQuantized : List Packed
  keySvMeta : List Scale
  valueSvQuantized : List Packed
  valueSvMeta : List Scale
  keyResidualSv : List (List α)
  valueResidualSv : List (List α)
  uuid : Uuid
deriving Repr, DecidableEq

/-- A pair of indices, with the position of its chunk in the caller's list. -/
structure ChunkRange where
  position : Nat
  start : Nat
  stop : Nat
deriving Repr, DecidableEq

section Rows

variable {α : Type}

def KvRows.index (rows : KvRows α) (start stop : Nat) : KvRows α :=
  ⟨segment rows.key start stop, segment rows.value start stop, by
    simp only [segment, List.length_take, List.length_drop, rows.sameLength]⟩

/-- `torch::cat` along the tokens. -/
def KvRows.cat (chunks : List (KvRows α)) : KvRows α :=
  ⟨(chunks.map KvRows.key).flatten, (chunks.map KvRows.value).flatten, by
    simp only [List.length_flatten, List.map_map]
    exact congrArg List.sum (List.map_congr_left fun chunk _ =>
      chunk.sameLength)⟩

/-- The first columns of a matrix as rows. -/
def transposeColumns (count : Nat) (rows : List (List α)) : List (List α) :=
  (List.range count).map fun column =>
    rows.filterMap fun row => row[column]?

end Rows

section Compress

variable {α Packed Scale : Type} (compressor : Compressor α Packed Scale)

/-! `compress_multi_impl`. -/

def maxRank (tokenNum : Nat) : Nat :=
  if tokenNum ≥ 8192 then 256 else if tokenNum ≥ 4096 then 384 else 512

def Compressor.calculateMultiRank (seqLen groupCount : Nat) : Nat :=
  let tokenNum := seqLen / max groupCount 1
  min (compressor.allRank seqLen groupCount) (min (maxRank tokenNum) (min 1024 tokenNum))

def Compressor.residualDim (factors : Factors α) (rank seqLen : Nat) : Nat :=
  min (compressor.elbow factors.s (min compressor.hiddenDim seqLen) factors.sMin) (rank - 1)

/-- What the chunks of one call have in common. -/
structure KeyBasis (α : Type) where
  seqLen : Nat
  groupCount : Nat
  rank : Nat
  factors : Factors α
  residualDim : Nat
  uuid : Uuid

def Compressor.keyBasis (first groupCount : Nat) (key : List (List α))
    (uuid : Option Uuid) : KeyBasis α :=
  let rank := compressor.calculateMultiRank key.length groupCount
  let factors := compressor.svd (.key first) key rank
  ⟨key.length, groupCount, rank, factors, compressor.residualDim factors rank key.length,
    uuid.getD (compressor.makeUuid first)⟩

/-- The rank a chunk is left with by its length, the sizes of its factors and
the budget. -/
def Compressor.chunkRank (basis : KeyBasis α) (value : Factors α) (chunkLen : Nat) : Nat :=
  let initialChunkRank := min basis.rank chunkLen
  let allocated := compressor.allocateLowRank basis.seqLen basis.groupCount ((basis.residualDim +
      compressor.residualDim value basis.rank basis.seqLen) / 2)
  min (value.s.take initialChunkRank).length (allocated.1 + allocated.2).toNat

/-- The scaled rows of `v` up to a rank. -/
def Compressor.svRows (factors : Factors α) (rank : Nat) : List (List α) :=
  (List.zipWith compressor.scaleRow factors.s factors.v).take rank

/-- The columns of `u` up to a rank. -/
def Compressor.uRows (rank : Nat) (u : List (List α)) : List (Packed × Scale) :=
  (transposeColumns rank (u.map (List.map compressor.toOutput))).map compressor.quantizeRow

/-- The entries of a chunk, from the rows of the key factors and the value
factors that belong to it. -/
def Compressor.groupDict (basis : KeyBasis α) (keyU : List (List α))
    (value : Factors α) (chunkLen : Nat) : GroupDict α Packed Scale :=
  let rank := compressor.chunkRank basis value chunkLen
  let keyU := compressor.uRows rank keyU
  let valueU := compressor.uRows rank value.u
  let keySv := compressor.svRows basis.factors rank
  let valueSv := compressor.svRows value rank
  let keyPacked := keySv.map compressor.quantizeRow
  let valuePacked := valueSv.map compressor.quantizeRow
  { uQuantized := (keyU.map Prod.fst, valueU.map Prod.fst)
    uMeta := (keyU.map Prod.snd, valueU.map Prod.snd)
    keySvQuantized := keyPacked.map Prod.fst
    keySvMeta := keyPacked.map Prod.snd
    valueSvQuantized := valuePacked.map Prod.fst
    valueSvMeta := valuePacked.map Prod.snd
    keyResidualSv := keySv.take basis.residualDim
    valueResidualSv := valueSv.take (compressor.residualDim value basis.rank basis.seqLen)
    uuid := basis.uuid }

/-- The body of the loop over the chunks.  `torch::cat` throws if the two parts
have different shapes, and `torch::min` for a chunk without rows. -/
def Compressor.compressChunk (basis : KeyBasis α) (keyU : List (List α))
    (valueRows : List (List α)) (range : ChunkRange) :
    Option (GroupDict α Packed Scale) :=
  let value := compressor.svd (.value range.position) valueRows basis.rank
  let initialChunkRank := min basis.rank (range.stop - range.start)
  if keyU.length = value.u.length ∧ (basis.factors.s.take initialChunkRank).length =
        (value.s.take initialChunkRank).length ∧
      value.u.length ≠ 0 ∧
      compressor.throws (.value range.position) valueRows basis.rank = false then
    some (compressor.groupDict basis keyU value (range.stop - range.start))
  else none

/-- No list means that the call throws; without rows `reshape` does, which cannot
tell the first size. -/
def Compressor.compressMultiImpl (data : KvRows α)
    (indices : List ChunkRange) (uuid : Option Uuid) :
    Option (List (GroupDict α Packed Scale)) :=
  match indices with
  | [] => some []
  | first :: rest =>
    let basis := compressor.keyBasis first.position (rest.length + 1) data.key uuid
    if data.key = [] ∨ compressor.throws (.key first.position) data.key basis.rank then none
    else (first :: rest).mapM fun range =>
      compressor.compressChunk basis (segment basis.factors.u range.start range.stop)
        (segment data.value range.start range.stop) range

/-! `compress_multi`. -/

def GroupDict.keySvRank (payload : GroupDict α Packed Scale) : Nat := payload.keySvQuantized.length

def GroupDict.withKeySv (payload source : GroupDict α Packed Scale) : GroupDict α Packed Scale :=
  { payload with
    keySvQuantized := source.keySvQuantized
    keySvMeta := source.keySvMeta
    keyResidualSv := source.keyResidualSv }

def useLargestRankKeySv (payloads : List (GroupDict α Packed Scale)) :
    List (GroupDict α Packed Scale) :=
  match payloads[largestRankIndex (payloads.map GroupDict.keySvRank)]? with
  | none => payloads
  | some source => payloads.map fun payload => payload.withKeySv source

/-- The positions of the uuids: those of empty ones, the others in the order
they are first met, and the positions of each. -/
structure Grouping where
  standalonePositions : List Nat
  orderedGroupIds : List Bytes
  groupedPositions : Bytes → List Nat

def Grouping.add (grouping : Grouping) (item : Bytes × Nat) : Grouping :=
  if item.1 = [] then
    { grouping with
      standalonePositions := grouping.standalonePositions ++ [item.2] }
  else
    { grouping with
      orderedGroupIds :=
        if grouping.groupedPositions item.1 = [] then grouping.orderedGroupIds ++ [item.1]
        else grouping.orderedGroupIds
      groupedPositions := Function.update grouping.groupedPositions item.1
        (grouping.groupedPositions item.1 ++ [item.2]) }

def groupPositions (uuids : List Bytes) : Grouping :=
  uuids.zipIdx.foldl Grouping.add ⟨[], [], fun _ => []⟩

/-- The chunk at a position of the index list. -/
def chunkAt (data : KvRows α) (indices : List (Nat × Nat)) (position : Nat) : KvRows α :=
  let span := indices.getD position (0, 0)
  data.index span.1 span.2

/-- The new indices of the chunks at some positions, one after the other. -/
def localRanges (indices : List (Nat × Nat)) (positions : List Nat) : List ChunkRange :=
  List.zipWith (fun position span => ⟨position, span.1, span.2⟩) positions
    (spans 0 (positions.map fun position =>
      (indices.getD position (0, 0)).2 - (indices.getD position (0, 0)).1))

/-- One call for a chunk without a group. -/
def Compressor.compressStandalone (data : KvRows α) (indices : List (Nat × Nat)) (position : Nat) :
    Option (List (GroupDict α Packed Scale)) :=
  let span := indices.getD position (0, 0)
  compressor.compressMultiImpl (chunkAt data indices position) [⟨position, 0, span.2 - span.1⟩] none

/-- One call for the chunks of a group. -/
def Compressor.compressGroup (data : KvRows α) (indices : List (Nat × Nat))
    (groupId : Bytes) (positions : List Nat) :
    Option (List (GroupDict α Packed Scale)) :=
  (compressor.compressMultiImpl (KvRows.cat (positions.map (chunkAt data indices)))
    (localRanges indices positions)
    (some (uuidStringToTensor groupId))).map useLargestRankKeySv

/-- Results are put back at the positions of their chunks. -/
def scatter {β : Type} (outputs : List (Option β)) (positions : List Nat)
    (results : List β) : List (Option β) :=
  (positions.zip results).foldl (fun outputs item => outputs.set item.1 (some item.2)) outputs

/-- An output that is not set is an empty dictionary. -/
def Compressor.compressMulti (data : KvRows α) (indices : List (Nat × Nat))
    (uuids : List Bytes) : Option (List (Option (GroupDict α Packed Scale))) :=
  if indices = [] then none
  else if uuids ≠ [] ∧ uuids.length ≠ indices.length then none
  else if uuids = [] then
    (compressor.compressMultiImpl data (indices.zipIdx.map fun item =>
      ⟨item.2, item.1.1, item.1.2⟩) none).map fun results =>
        results.map some
  else
    let grouping := groupPositions uuids
    match grouping.standalonePositions.foldlM (fun outputs position =>
        (compressor.compressStandalone data indices position).map (scatter outputs [position]))
        (List.replicate indices.length none) with
    | none => none
    | some outputs =>
      grouping.orderedGroupIds.foldlM (fun outputs groupId =>
        (compressor.compressGroup data indices groupId (grouping.groupedPositions groupId)).map
            (scatter outputs (grouping.groupedPositions groupId))) outputs

def Compressor.runGroupedCompression (tensorGroups : List (KvRows α))
    (uuids : List Bytes) : Option (List (Option (GroupDict α Packed Scale))) :=
  if tensorGroups = [] then some []
  else if uuids ≠ [] ∧ uuids.length ≠ tensorGroups.length then none
  else
    match compressor.compressMulti (KvRows.cat tensorGroups)
        (spans 0 (tensorGroups.map fun tensors => tensors.key.length))
        uuids with
    | none => none
    | some outputs =>
      if outputs.length ≠ tensorGroups.length then none else some outputs

end Compress

end CatKV.Grouped
