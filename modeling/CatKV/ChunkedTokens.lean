/-
`ChunkedTokenDatabase`: tokens are cut into chunks of one size, and the key of a
chunk is the hash of everything up to its end.
-/
import Mathlib.Order.Nat
import CatKV.Tiling

namespace CatKV

open List

variable {κ : Type}

/-- The configuration of the database and its hash, taken as given. -/
structure ChunkedTokenDatabase (κ : Type) where
  chunkSize : Nat
  saveUnfullChunk : Bool
  initHash : κ
  hashTokens : κ → List Nat → κ
  chunkSize_pos : 0 < chunkSize

/-- One element that `process_tokens` yields. -/
structure TokenChunk (κ : Type) where
  start : Nat
  stop : Nat
  key : κ
deriving Repr, DecidableEq

/-- The key of a chunk, or of one layer of it. -/
inductive EngineKey (κ : Type) where
  | chunk (key : κ)
  | layer (key : κ) (layerId : Nat)
deriving Repr, DecidableEq

def splitLayers (key : κ) (numLayers : Nat) : List (EngineKey κ) :=
  (List.range numLayers).map (EngineKey.layer key)

/-- What the key of a layer and the key of its chunk have in common. -/
def EngineKey.chunkKey : EngineKey κ → κ
  | .chunk key => key
  | .layer key _ => key

namespace ChunkedTokenDatabase

variable (database : ChunkedTokenDatabase κ)

/-- The end of the tokens that are cut into chunks. -/
def tokensEnd (length : Nat) : Nat :=
  if database.saveUnfullChunk then length
  else length - length % database.chunkSize

/-- The length of `range(0, end, chunk_size)`. -/
def chunkCount (length : Nat) : Nat :=
  (database.tokensEnd length + database.chunkSize - 1) / database.chunkSize

def chunkTokens (tokens : List Nat) : List (List Nat) :=
  (List.range (database.chunkCount tokens.length)).map fun chunkId =>
    (tokens.drop (chunkId * database.chunkSize)).take database.chunkSize

/-- `_prefix_hash`, going on from a hash. -/
def prefixHash : κ → List (List Nat) → List κ
  | _, [] => []
  | hash, chunk :: rest =>
    database.hashTokens hash chunk :: prefixHash (database.hashTokens hash chunk) rest

/-- The chunk with the given number in tokens of the given length. -/
def chunkAt (length : Nat) (entry : κ × Nat) : TokenChunk κ where
  start := entry.2 * database.chunkSize
  stop := min (entry.2 * database.chunkSize + database.chunkSize) length
  key := entry.1

/-- All chunks of the tokens. -/
def chunks (tokens : List Nat) : List (TokenChunk κ) :=
  (database.prefixHash database.initHash
    (database.chunkTokens tokens)).zipIdx.map (database.chunkAt tokens.length)

/-- `process_tokens`; no result when the number of Falses in the mask is not a
multiple of the chunk size. -/
def processTokens (tokens : List Nat) (numFalses : Nat) : Option (List (TokenChunk κ)) :=
  if numFalses % database.chunkSize ≠ 0 then none
  else some ((database.chunks tokens).filter fun chunk =>
    !decide (chunk.start < numFalses))

end ChunkedTokenDatabase

/-- The Falses of a mask; without a mask there are none. -/
def numFalses : Option (List Bool) → Nat
  | none => 0
  | some mask => mask.count false

/-- A mask for so many tokens with its Falses in front. -/
def IsPrefixMask (length falses : Nat) : Option (List Bool) → Prop
  | none => falses = 0
  | some mask => falses ≤ length ∧ mask = List.replicate falses false ++
        List.replicate (length - falses) true

theorem IsPrefixMask.numFalses_eq {length falses : Nat} {mask : Option (List Bool)}
    (hmask : IsPrefixMask length falses mask) : numFalses mask = falses := by
  cases mask with
  | none => exact hmask.symm
  | some mask =>
    rw [hmask.2]
    simp [numFalses, count_replicate]

namespace ChunkedTokenDatabase

variable (database : ChunkedTokenDatabase κ)

@[simp]
theorem length_prefixHash (hash : κ) (chunks : List (List Nat)) :
    (database.prefixHash hash chunks).length = chunks.length := by
  induction chunks generalizing hash with
  | nil => rfl
  | cons chunk rest ih => simp [prefixHash, ih]

theorem prefixHash_take (hash : κ) (chunks : List (List Nat)) (count : Nat) :
    database.prefixHash hash (chunks.take count) =
      (database.prefixHash hash chunks).take count := by
  induction chunks generalizing hash count with
  | nil => simp [prefixHash]
  | cons chunk rest ih =>
    cases count with
    | zero => rfl
    | succ count => simp [prefixHash, ih]

@[simp]
theorem length_chunks (tokens : List Nat) :
    (database.chunks tokens).length = database.chunkCount tokens.length := by
  simp [chunks, chunkTokens]

theorem tokensEnd_le (length : Nat) : database.tokensEnd length ≤ length := by
  unfold tokensEnd
  split <;> omega

theorem lt_chunkCount_iff (length chunkId : Nat) : chunkId < database.chunkCount length ↔
    chunkId * database.chunkSize < database.tokensEnd length := by
  have hpos := database.chunkSize_pos
  rw [chunkCount, Nat.lt_div_iff_mul_lt hpos]
  omega

theorem drop_zipIdx (hashes : List κ) (first count : Nat) : (hashes.zipIdx first).drop count =
    (hashes.drop count).zipIdx (first + count) := by
  induction hashes generalizing first count with
  | nil => simp
  | cons hash rest ih =>
    cases count with
    | zero => rfl
    | succ count =>
      rw [zipIdx_cons, drop_succ_cons, drop_succ_cons, ih, Nat.add_right_comm, Nat.add_assoc]

theorem filter_zipIdx (hashes : List κ) (first masked : Nat) :
    (hashes.zipIdx first).filter (fun entry => decide (masked ≤ entry.2)) =
      (hashes.zipIdx first).drop (masked - first) := by
  induction hashes generalizing first with
  | nil => simp
  | cons hash rest ih =>
    rw [zipIdx_cons, filter_cons, ih]
    by_cases hmasked : masked ≤ first
    · simp [hmasked, Nat.sub_eq_zero_of_le hmasked,
        Nat.sub_eq_zero_of_le (Nat.le_succ_of_le hmasked)]
    · have hsub : masked - first = masked - (first + 1) + 1 := by omega
      simp [hmasked, hsub]

theorem processTokens_eq (tokens : List Nat) (masked : Nat) :
    database.processTokens tokens (masked * database.chunkSize) =
      some ((database.chunks tokens).drop masked) := by
  have hpos := database.chunkSize_pos
  rw [processTokens, if_neg (by simp), chunks, filter_map, ← map_drop]
  have hstart : ((fun chunk : TokenChunk κ => !decide (chunk.start <
      masked * database.chunkSize)) ∘ database.chunkAt tokens.length) =
        fun entry => decide (masked ≤ entry.2) := by
    funext entry
    rw [Bool.eq_iff_iff]
    simp [chunkAt, Nat.mul_lt_mul_right hpos]
  rw [hstart, filter_zipIdx, Nat.sub_zero]

theorem tiles_chunkAt (length : Nat) (hashes : List κ) (first : Nat) (hlast : hashes = [] ∨
      (first + (hashes.length - 1)) * database.chunkSize < length) :
    Tiles TokenChunk.start TokenChunk.stop (min (first * database.chunkSize) length)
      ((hashes.zipIdx first).map (database.chunkAt length))
      (min ((first + hashes.length) * database.chunkSize) length) := by
  induction hashes generalizing first with
  | nil => rfl
  | cons hash rest ih =>
    have hpos := database.chunkSize_pos
    have hlast' := hlast.resolve_left (cons_ne_nil _ _)
    have hfirst : first * database.chunkSize < length :=
      Nat.lt_of_le_of_lt (Nat.mul_le_mul_right _ (Nat.le_add_right _ _)) hlast'
    have hnext : (first + 1) * database.chunkSize =
        first * database.chunkSize + database.chunkSize := Nat.succ_mul _ _
    have hrest := ih (first + 1) <| by
      cases rest with
      | nil => exact Or.inl rfl
      | cons _ tail =>
        refine Or.inr ?_
        rwa [show first + 1 + ((_ :: tail).length - 1) =
          first + ((hash :: _ :: tail).length - 1) by simp; omega]
    rw [zipIdx_cons, map_cons, length_cons,
      show first + (rest.length + 1) = first + 1 + rest.length by omega]
    refine ⟨?_, ?_, ?_⟩
    · exact (Nat.min_eq_left (Nat.le_of_lt hfirst)).symm
    · simp only [chunkAt]
      omega
    · simpa only [chunkAt, hnext] using hrest

theorem tiles_drop_chunks (tokens : List Nat) (masked : Nat) :
    ∃ upper, Tiles TokenChunk.start TokenChunk.stop
        (masked * database.chunkSize) ((database.chunks tokens).drop masked)
        upper ∧
      ∀ chunk ∈ (database.chunks tokens).drop masked, chunk.stop ≤ tokens.length := by
  set hashes := (database.prefixHash database.initHash
    (database.chunkTokens tokens)).drop masked with hhashes
  have hchunks : (database.chunks tokens).drop masked =
      (hashes.zipIdx masked).map (database.chunkAt tokens.length) := by
    rw [chunks, ← map_drop, drop_zipIdx, Nat.zero_add]
  rw [hchunks]
  by_cases hnil : hashes = []
  · refine ⟨masked * database.chunkSize, ?_, ?_⟩ <;> simp [hnil, Tiles]
  · have hlength : hashes.length = database.chunkCount tokens.length - masked := by
      simp [hhashes, chunkTokens]
    have hpos : 0 < hashes.length := length_pos_of_ne_nil hnil
    have hlast : (masked + (hashes.length - 1)) * database.chunkSize < tokens.length := by
      refine Nat.lt_of_lt_of_le ?_ (database.tokensEnd_le tokens.length)
      exact (database.lt_chunkCount_iff _ _).mp (by omega)
    have hfirst : masked * database.chunkSize ≤ tokens.length :=
      Nat.le_of_lt (Nat.lt_of_le_of_lt (Nat.mul_le_mul_right _ (Nat.le_add_right _ _)) hlast)
    have htiles := database.tiles_chunkAt tokens.length hashes masked (Or.inr hlast)
    rw [Nat.min_eq_left hfirst] at htiles
    refine ⟨_, htiles, fun chunk hchunk => ?_⟩
    exact Nat.le_trans (htiles.bounds hchunk).2.2 (Nat.min_le_right _ _)

/-! The tokens up to the end of a chunk. -/

theorem take_zipIdx (hashes : List κ) (first count : Nat) :
    (hashes.zipIdx first).take count = (hashes.take count).zipIdx first := by
  induction hashes generalizing first count with
  | nil => simp
  | cons hash rest ih =>
    cases count with
    | zero => rfl
    | succ count => simp [zipIdx_cons, ih]

variable {count : Nat}

theorem succ_mul_le {chunkId : Nat} (hlt : chunkId < count) (size : Nat) :
    chunkId * size + size ≤ count * size := by
  rw [← Nat.succ_mul]
  exact Nat.mul_le_mul_right _ hlt

theorem mul_chunkSize_le {length : Nat} (hunfull : database.saveUnfullChunk = false)
    (hcount : count ≤ database.chunkCount length) : count * database.chunkSize ≤ length := by
  cases count with
  | zero => simp
  | succ count =>
    have hstart := (database.lt_chunkCount_iff length count).mp hcount
    rw [tokensEnd, if_neg (by simp [hunfull])] at hstart
    have hdiv := Nat.div_add_mod length database.chunkSize
    have hwhole : count < length / database.chunkSize := by
      refine Nat.lt_of_mul_lt_mul_left (a := database.chunkSize) ?_
      rw [Nat.mul_comm database.chunkSize count]
      omega
    exact Nat.le_trans (Nat.mul_le_mul_right _ hwhole) (Nat.div_mul_le_self ..)

theorem length_le_of_chunkCount_lt {length : Nat}
    (hcount : database.chunkCount length < count) :
    length ≤ count * database.chunkSize := by
  have hend := (database.lt_chunkCount_iff length _).not.mp (Nat.lt_irrefl _)
  have hmul := succ_mul_le hcount database.chunkSize
  have hmod := Nat.mod_lt length database.chunkSize_pos
  unfold tokensEnd at hend
  split at hend <;> omega

theorem chunkCount_cut {length : Nat} (hcount : count ≤ database.chunkCount length) :
    database.chunkCount (min (count * database.chunkSize) length) = count := by
  refine eq_of_forall_lt_iff fun chunkId => ?_
  have hmul : chunkId * database.chunkSize < count * database.chunkSize ↔
      chunkId < count := Nat.mul_lt_mul_right database.chunkSize_pos
  rw [lt_chunkCount_iff]
  cases hunfull : database.saveUnfullChunk with
  | true =>
    have hinside : chunkId < count → chunkId * database.chunkSize < length := by
      intro hlt
      have := (database.lt_chunkCount_iff length chunkId).mp (Nat.lt_of_lt_of_le hlt hcount)
      rwa [tokensEnd, if_pos hunfull] at this
    rw [tokensEnd, if_pos hunfull]
    omega
  | false =>
    have hle := database.mul_chunkSize_le hunfull hcount
    rw [Nat.min_eq_left hle, tokensEnd, if_neg (by simp [hunfull]), Nat.mul_mod_left, Nat.sub_zero]
    exact hmul

variable {tokens : List Nat}

section

variable (hcount : count ≤ database.chunkCount tokens.length)

include hcount

theorem chunkTokens_cut : database.chunkTokens
      (tokens.take (min (count * database.chunkSize) tokens.length)) =
    (database.chunkTokens tokens).take count := by
  unfold chunkTokens
  rw [length_take, Nat.min_eq_left (Nat.min_le_right _ _), database.chunkCount_cut hcount,
    ← map_take, take_range, Nat.min_eq_left hcount]
  refine map_congr_left fun chunkId hchunk => ?_
  have hle := succ_mul_le (mem_range.mp hchunk) database.chunkSize
  rw [drop_take, take_take, take_eq_take_iff, length_drop]
  omega

theorem chunks_cut : database.chunks
      (tokens.take (min (count * database.chunkSize) tokens.length)) =
    (database.chunks tokens).take count := by
  unfold chunks
  rw [database.chunkTokens_cut hcount, prefixHash_take, ← map_take,
    take_zipIdx, length_take, Nat.min_eq_left (Nat.min_le_right _ _)]
  refine map_congr_left fun entry hentry => ?_
  have hlt : entry.2 < count := by
    have := snd_lt_of_mem_zipIdx hentry
    simp only [length_take, length_prefixHash] at this
    omega
  have hle := succ_mul_le hlt database.chunkSize
  simp only [chunkAt, TokenChunk.mk.injEq, true_and, and_true]
  omega

omit hcount in
theorem stop_getElem?_chunks {chunkId : Nat}
    (hchunk : chunkId < database.chunkCount tokens.length) :
    (database.chunks tokens)[chunkId]?.map (·.stop) =
      some (min ((chunkId + 1) * database.chunkSize) tokens.length) := by
  have hlength : chunkId < (database.prefixHash database.initHash
      (database.chunkTokens tokens)).length := by
    simpa [chunkTokens] using hchunk
  simp [chunks, chunkAt, Nat.succ_mul, getElem?_eq_getElem hlength]

theorem cumChunkLengths_get : (0 :: (database.chunks tokens).map (·.stop))[count]? =
    some (min (count * database.chunkSize) tokens.length) := by
  cases count with
  | zero => simp
  | succ count => simpa using database.stop_getElem?_chunks hcount

theorem stop_getLast?_chunks :
    (((database.chunks tokens).take count).getLast?.map (·.stop)).getD 0 =
      min (count * database.chunkSize) tokens.length := by
  cases count with
  | zero => simp
  | succ count =>
    have hstop := database.stop_getElem?_chunks hcount
    obtain ⟨chunk, hchunk, heq⟩ := Option.map_eq_some_iff.mp hstop
    simp [getLast?_take, hchunk, heq]

end

end ChunkedTokenDatabase

/-- Chunks of one token; the key of a chunk is everything up to its end. -/
def tokenwise : ChunkedTokenDatabase (List Nat) := ⟨1, true, [], (· ++ ·), Nat.zero_lt_one⟩

end CatKV
