/-
The keys of chunks identify prefixes.  A key is a chain of hashes, so with a
hash that is injective and never the initial one a key stands for the chunks
it was made of, and these for the tokens up to their end.
-/
import Mathlib.Algebra.Order.Ring.Nat
import Mathlib.Logic.Equiv.List
import CatKV.KeyIdentity
import CatKV.LookupPrefix

namespace CatKV

open List

variable {ω : Type}

/-- What the keys of one engine have in common. -/
structure EngineMetadata where
  fmt : Text
  modelName : Text
  worldSize : Int
  workerId : Int

/-- `_make_key_by_hash`. -/
def makeKeyByHash (metadata : EngineMetadata)
    (requestConfigs : Option (RequestConfigs ω)) (chunkHash : Int) :
    CacheEngineKey ω where
  fmt := metadata.fmt
  modelName := metadata.modelName
  worldSize := metadata.worldSize
  workerId := metadata.workerId
  chunkHash := chunkHash
  requestConfigs := requestConfigs

/-- The elements that are yielded with `make_key`. -/
def makeKeys (metadata : EngineMetadata) (requestConfigs : Option (RequestConfigs ω))
    (chunks : List (TokenChunk Int)) : List (TokenChunk (CacheEngineKey ω)) :=
  chunks.map fun chunk => ⟨chunk.start, chunk.stop, makeKeyByHash metadata requestConfigs chunk.key⟩

theorem isEq_makeKeyByHash {methods : ValueMethods ω} {metadata : EngineMetadata}
    {requestConfigs : Option (RequestConfigs ω)} {hash other : Int} :
    (makeKeyByHash metadata requestConfigs hash).isEq methods
      (makeKeyByHash metadata requestConfigs other) = true ↔ hash = other := by
  rw [CacheEngineKey.isEq_iff]
  constructor
  · exact fun hfields => hfields.2.2.2.2.1
  · intro heq
    exact ⟨rfl, rfl, rfl, rfl, heq, ValueMethods.sameTags_self _⟩

namespace ChunkedTokenDatabase

variable {κ : Type} (database : ChunkedTokenDatabase κ)

/-- The hash of tokens tells the hash before them and the tokens, and is never
the initial one. -/
structure HashInjective : Prop where
  injective : ∀ hash tokens other others,
    database.hashTokens hash tokens = database.hashTokens other others →
      hash = other ∧ tokens = others
  ne_init : ∀ hash tokens, database.hashTokens hash tokens ≠ database.initHash

/-- The hash after several chunks. -/
def chainHash (chunks : List (List Nat)) : κ := chunks.foldl database.hashTokens database.initHash

theorem getElem?_prefixHash (hash : κ) (chunks : List (List Nat))
    {index : Nat} (hindex : index < chunks.length) :
    (database.prefixHash hash chunks)[index]? =
      some ((chunks.take (index + 1)).foldl database.hashTokens hash) := by
  induction chunks generalizing hash index with
  | nil => cases hindex
  | cons chunk rest ih =>
    cases index with
    | zero => rfl
    | succ index =>
      rw [prefixHash, getElem?_cons_succ, ih _ (Nat.lt_of_succ_lt_succ hindex), take_succ_cons,
        foldl_cons]

variable {database}

theorem HashInjective.chainHash_injective (hhash : database.HashInjective)
    {chunks others : List (List Nat)}
    (heq : database.chainHash chunks = database.chainHash others) : chunks = others := by
  induction chunks using List.reverseRecOn generalizing others with
  | nil =>
    cases others using List.reverseRecOn with
    | nil => rfl
    | append_singleton init last =>
      rw [chainHash, chainHash, foldl_append] at heq
      exact absurd heq.symm (hhash.ne_init _ _)
  | append_singleton first chunk ih =>
    cases others using List.reverseRecOn with
    | nil =>
      rw [chainHash, chainHash, foldl_append] at heq
      exact absurd heq (hhash.ne_init _ _)
    | append_singleton init last =>
      rw [chainHash, chainHash, foldl_append, foldl_append] at heq
      obtain ⟨hinit, hlast⟩ := hhash.injective _ _ _ _ heq
      rw [ih hinit, hlast]

variable (database)

theorem flatten_take_chunkTokens (tokens : List Nat) {count : Nat}
    (hcount : count ≤ database.chunkCount tokens.length) :
    ((database.chunkTokens tokens).take count).flatten =
      tokens.take (count * database.chunkSize) := by
  unfold chunkTokens
  rw [← map_take, take_range, Nat.min_eq_left hcount]
  clear hcount
  induction count with
  | zero => simp
  | succ count ih =>
    rw [range_succ, map_append, flatten_append, ih, map_singleton, flatten_singleton, Nat.succ_mul,
      take_add]

theorem chunkCount_mul (length : Nat) :
    min (database.chunkCount length * database.chunkSize) length = database.tokensEnd length := by
  have hnot := mt (database.lt_chunkCount_iff length
    (database.chunkCount length)).mpr (Nat.lt_irrefl _)
  cases hunfull : database.saveUnfullChunk with
  | true =>
    rw [tokensEnd, if_pos hunfull] at *
    omega
  | false =>
    have hle := database.mul_chunkSize_le hunfull (Nat.le_refl (database.chunkCount length))
    rw [tokensEnd, if_neg (by simp [hunfull])] at *
    have hquotient := (Nat.le_div_iff_mul_le database.chunkSize_pos).mpr hle
    have hmul := Nat.mul_le_mul_right database.chunkSize hquotient
    have hdiv := Nat.div_add_mod length database.chunkSize
    rw [Nat.mul_comm] at hdiv
    omega

theorem tiles_chunks_tokensEnd (tokens : List Nat) :
    Tiles TokenChunk.start TokenChunk.stop 0 (database.chunks tokens)
      (database.tokensEnd tokens.length) := by
  have hlength : (database.prefixHash database.initHash (database.chunkTokens tokens)).length =
        database.chunkCount tokens.length := by
    rw [length_prefixHash, chunkTokens, length_map, length_range]
  have htiles := database.tiles_chunkAt tokens.length
    (database.prefixHash database.initHash (database.chunkTokens tokens)) 0 (by
      by_cases hnil : database.prefixHash database.initHash (database.chunkTokens tokens) = []
      · exact Or.inl hnil
      · right
        have hpos := length_pos_of_ne_nil hnil
        have hlast := (database.lt_chunkCount_iff tokens.length
          (database.chunkCount tokens.length - 1)).mp (by omega)
        rw [hlength, Nat.zero_add]
        exact Nat.lt_of_lt_of_le hlast (database.tokensEnd_le _))
  rw [Nat.zero_mul, Nat.zero_min, Nat.zero_add, hlength, database.chunkCount_mul] at htiles
  exact htiles

theorem getElem?_chunks {tokens : List Nat} {index : Nat} {chunk : TokenChunk κ}
    (hchunk : (database.chunks tokens)[index]? = some chunk) :
    index < database.chunkCount tokens.length ∧ chunk.start = index * database.chunkSize ∧
      chunk.stop = min ((index + 1) * database.chunkSize) tokens.length ∧
      chunk.key = database.chainHash ((database.chunkTokens tokens).take (index + 1)) := by
  have hlt : index < database.chunkCount tokens.length := by
    rw [← database.length_chunks]
    exact (List.getElem?_eq_some_iff.mp hchunk).1
  have hlength : index < (database.chunkTokens tokens).length := by
    rw [chunkTokens, length_map, length_range]
    exact hlt
  rw [chunks, getElem?_map, getElem?_zipIdx, database.getElem?_prefixHash _ _ hlength] at hchunk
  cases hchunk
  refine ⟨hlt, ?_, ?_, rfl⟩
  · simp [chunkAt]
  · simp [chunkAt, Nat.succ_mul]

theorem key_eq_iff (hhash : database.HashInjective) {tokens others : List Nat}
    {index position : Nat} {chunk other : TokenChunk κ}
    (hchunk : (database.chunks tokens)[index]? = some chunk)
    (hother : (database.chunks others)[position]? = some other) :
    chunk.key = other.key ↔ index = position ∧ tokens.take chunk.stop = others.take other.stop := by
  obtain ⟨hlt, -, hstop, hkey⟩ := database.getElem?_chunks hchunk
  obtain ⟨hlt', -, hstop', hkey'⟩ := database.getElem?_chunks hother
  have hcut : ∀ (items : List Nat) (size : Nat),
      items.take (min size items.length) = items.take size := by
    intro items size
    rw [take_eq_take_iff]
    omega
  rw [hkey, hkey', hstop, hstop', hcut, hcut]
  constructor
  · intro heq
    have hchunks := hhash.chainHash_injective heq
    have hlengths := congrArg List.length hchunks
    simp only [length_take, chunkTokens, length_map, length_range] at hlengths
    refine ⟨by omega, ?_⟩
    rw [← database.flatten_take_chunkTokens tokens hlt, hchunks,
      database.flatten_take_chunkTokens others hlt']
  · rintro ⟨rfl, htokens⟩
    have hcuts : tokens.take (min ((index + 1) * database.chunkSize)
        tokens.length) = others.take (min ((index + 1) * database.chunkSize) others.length) := by
      rw [hcut, hcut, htokens]
    rw [← database.chunkTokens_cut hlt, hcuts, database.chunkTokens_cut hlt']

end ChunkedTokenDatabase

/-! The keys of the engine. -/

section Keys

variable (methods : ValueMethods ω) (metadata : EngineMetadata)
  (requestConfigs : Option (RequestConfigs ω))
  (database : ChunkedTokenDatabase Int)

/-- `process_tokens` with keys. -/
def processKeys (tokens : List Nat) (numFalses : Nat) :
    Option (List (TokenChunk (CacheEngineKey ω))) :=
  (database.processTokens tokens numFalses).map (makeKeys metadata requestConfigs)

/-- The ranges cover the tokens in order, their keys tell the tokens before
their ends, a mask leaves out ranges and changes nothing else, and hashes stand
for tokens. -/
structure KeysIdentify (tokens others : List Nat) : Prop where
  ranges : ∃ chunks, processKeys metadata requestConfigs database tokens 0 = some chunks ∧
      Tiles TokenChunk.start TokenChunk.stop 0 chunks (if database.saveUnfullChunk then
        tokens.length else tokens.length / database.chunkSize * database.chunkSize) ∧
      ∀ index chunk, chunks[index]? = some chunk → chunk.stop ≤ chunk.start + database.chunkSize ∧
          (index + 1 < chunks.length → chunk.stop = chunk.start + database.chunkSize)
  identify : ∀ chunks found : List (TokenChunk (CacheEngineKey ω)),
    processKeys metadata requestConfigs database tokens 0 = some chunks →
    processKeys metadata requestConfigs database others 0 = some found →
    ∀ (index position : Nat) (chunk other : TokenChunk (CacheEngineKey ω)),
      chunks[index]? = some chunk → found[position]? = some other →
      (chunk.key.isEq methods other.key = true ↔ index = position ∧
        tokens.take chunk.stop = others.take other.stop)
  masked : ∀ count mask, IsPrefixMask tokens.length (count * database.chunkSize) mask →
      processKeys metadata requestConfigs database tokens (numFalses mask) =
        (processKeys metadata requestConfigs database tokens 0).map
          fun chunks => chunks.filter fun chunk =>
            decide (count * database.chunkSize ≤ chunk.start)
  hashes : ∀ chunks, database.processTokens tokens 0 = some chunks →
    processHashes 0 ((chunks.map (·.key)).zip
        (chunks.map fun chunk => chunk.stop - chunk.start)) = chunks ∧
      some (makeKeys metadata requestConfigs (processHashes 0 ((chunks.map (·.key)).zip
          (chunks.map fun chunk => chunk.stop - chunk.start)))) =
        processKeys metadata requestConfigs database tokens 0

variable {methods metadata requestConfigs database}

theorem tiles_makeKeys {lower upper : Nat} {chunks : List (TokenChunk Int)}
    (htiles : Tiles TokenChunk.start TokenChunk.stop lower chunks upper) :
    Tiles TokenChunk.start TokenChunk.stop lower
      (makeKeys metadata requestConfigs chunks) upper := by
  induction chunks generalizing lower with
  | nil => exact htiles
  | cons chunk rest ih =>
    obtain ⟨hstart, hlt, hrest⟩ := htiles
    exact ⟨hstart, hlt, ih hrest⟩

theorem processKeys_zero (tokens : List Nat) :
    processKeys metadata requestConfigs database tokens 0 =
      some (makeKeys metadata requestConfigs (database.chunks tokens)) := by
  have hall := database.processTokens_eq tokens 0
  rw [Nat.zero_mul, drop_zero] at hall
  rw [processKeys, hall]
  rfl

theorem getElem?_makeKeys {chunks : List (TokenChunk Int)} {index : Nat}
    {chunk : TokenChunk (CacheEngineKey ω)}
    (hchunk : (makeKeys metadata requestConfigs chunks)[index]? = some chunk) :
    ∃ source, chunks[index]? = some source ∧ chunk.start = source.start ∧ chunk.stop = source.stop ∧
      chunk.key = makeKeyByHash metadata requestConfigs source.key := by
  rw [makeKeys, getElem?_map] at hchunk
  obtain ⟨source, hsource, rfl⟩ := Option.map_eq_some_iff.mp hchunk
  exact ⟨source, hsource, rfl, rfl, rfl⟩

theorem length_getElem?_chunks {tokens : List Nat} {index : Nat} {chunk : TokenChunk Int}
    (hchunk : (database.chunks tokens)[index]? = some chunk) :
    chunk.stop ≤ chunk.start + database.chunkSize ∧ (index + 1 < (database.chunks tokens).length →
        chunk.stop = chunk.start + database.chunkSize) := by
  obtain ⟨-, hstart, hstop, -⟩ := database.getElem?_chunks hchunk
  have hnext : (index + 1) * database.chunkSize =
      index * database.chunkSize + database.chunkSize := Nat.succ_mul _ _
  constructor
  · omega
  · intro hmore
    rw [database.length_chunks, database.lt_chunkCount_iff] at hmore
    have hle := database.tokensEnd_le tokens.length
    omega

end Keys

/-- The keys of chunks identify prefixes, for all tokens, chunk sizes and
settings. -/
theorem keysIdentify_of_hashInjective (methods : ValueMethods ω) (metadata : EngineMetadata)
    (requestConfigs : Option (RequestConfigs ω)) {database : ChunkedTokenDatabase Int}
    (hhash : database.HashInjective) (tokens others : List Nat) :
    KeysIdentify methods metadata requestConfigs database tokens others := by
  constructor
  · have htiles := database.tiles_chunks_tokensEnd tokens
    rw [ChunkedTokenDatabase.tokensEnd, ← Nat.div_mul_self_eq_mod_sub_self] at htiles
    refine ⟨_, processKeys_zero tokens, tiles_makeKeys htiles, ?_⟩
    intro index chunk hchunk
    obtain ⟨source, hsource, hstart, hstop, -⟩ := getElem?_makeKeys hchunk
    rw [hstart, hstop, makeKeys, length_map]
    exact length_getElem?_chunks hsource
  · intro chunks found hchunks hfound index position chunk other hchunk hother
    rw [processKeys_zero] at hchunks hfound
    cases hchunks
    cases hfound
    obtain ⟨source, hsource, -, hstop, hkey⟩ := getElem?_makeKeys hchunk
    obtain ⟨source', hsource', -, hstop', hkey'⟩ := getElem?_makeKeys hother
    rw [hkey, hkey', hstop, hstop', isEq_makeKeyByHash]
    exact database.key_eq_iff hhash hsource hsource'
  · intro count mask hmask
    rw [hmask.numFalses_eq, processKeys_zero, processKeys, ChunkedTokenDatabase.processTokens,
      if_neg (by simp), Option.map_some, Option.map_some, makeKeys, makeKeys, filter_map]
    apply congrArg
    apply congrArg
    apply filter_congr
    intro chunk _
    rw [Function.comp_apply, Bool.eq_iff_iff]
    simp
  · intro chunks hchunks
    have hall := database.processTokens_eq tokens 0
    rw [Nat.zero_mul, drop_zero, hchunks] at hall
    cases hall
    have hback := processHashes_of_tiles (database.tiles_chunks_tokensEnd tokens)
    rw [hback, processKeys_zero]
    exact ⟨rfl, rfl⟩

/-- A hash that numbers its arguments, for chunks of two tokens. -/
def numberedDatabase : ChunkedTokenDatabase Int where
  chunkSize := 2
  saveUnfullChunk := true
  initHash := 0
  hashTokens hash tokens := Encodable.encode (hash, tokens) + 1
  chunkSize_pos := Nat.two_pos

theorem hashInjective_numberedDatabase : numberedDatabase.HashInjective where
  injective hash tokens other others heq := by
    have hnumbers : (Encodable.encode (hash, tokens) : Int) + 1 =
        Encodable.encode (other, others) + 1 := heq
    have hcodes : Encodable.encode (hash, tokens) = Encodable.encode (other, others) := by omega
    exact Prod.mk.inj (Encodable.encode_injective hcodes)
  ne_init hash tokens heq := by
    have hpos : (Encodable.encode (hash, tokens) : Int) + 1 = 0 := heq
    omega

theorem keysIdentify_threeTokens :
    KeysIdentify integerMethods ⟨"vllm".toList, "org/model".toList, 1, 0⟩
      (some userConfigs) numberedDatabase [7, 8, 9] [7, 8, 10] :=
  keysIdentify_of_hashInjective integerMethods _ _ hashInjective_numberedDatabase _ _

end CatKV
