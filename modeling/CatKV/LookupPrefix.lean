/-
`LMCacheEngine.lookup`: how many leading tokens are found in the backends of a
search range.  Layer by layer a chunk counts as found when one of its layers
is.
-/
import CatKV.AsyncRetrieve

namespace CatKV

open List

variable {ν κ μ : Type}

/-- `contains` with a search range; the name of the first backend with the
key. -/
def StorageManager.containsIn [DecidableEq ν] (storage : StorageManager ν κ μ)
    (searchRange : Option (List ν)) (key : κ) : Option ν :=
  (storage.find? fun entry =>
    inSearchRange searchRange entry.1 && entry.2.contains key).map Prod.fst

/-- What `lookup` is asked about. -/
inductive LookupInput (κ : Type) where
  | tokens (tokens : List Nat)
  | hashes (hashes : List κ) (offsets : List Nat)

/-- `process_tokens` given hashes, from a start on. -/
def processHashes : Nat → List (κ × Nat) → List (TokenChunk κ)
  | _, [] => []
  | startIdx, (hash, offset) :: rest =>
    ⟨startIdx, startIdx + offset, hash⟩ :: processHashes (startIdx + offset) rest

/-- The engine as far as lookups go. -/
structure LookupEngine (ν κ μ : Type) where
  database : ChunkedTokenDatabase κ
  storage : StorageManager ν (EngineKey κ) μ
  useLayerwise : Bool
  numLayers : Nat
  numLayers_pos : 0 < numLayers

/-- The loop over the chunks, with `end` and `prev_end`. -/
def lookupFrom (found : κ → Bool) : Nat → Nat → List (TokenChunk κ) → Nat
  | stop, _, [] => stop
  | _, prevEnd, chunk :: rest =>
    if found chunk.key then lookupFrom found chunk.stop chunk.stop rest
    else prevEnd

namespace LookupEngine

variable [DecidableEq ν] (engine : LookupEngine ν κ μ) (searchRange : Option (List ν))

/-- The chunks that `process_tokens` yields without a mask. -/
def chunksOf : LookupInput κ → List (TokenChunk κ)
  | .tokens tokens => engine.database.chunks tokens
  | .hashes hashes offsets => processHashes 0 (hashes.zip offsets)

def isFound (key : κ) : Bool :=
  if engine.useLayerwise then
    (splitLayers key engine.numLayers).any fun layerKey =>
      (engine.storage.containsIn searchRange layerKey).isSome
  else (engine.storage.containsIn searchRange (.chunk key)).isSome

/-- `lookup` without p2p. -/
def lookup (input : LookupInput κ) : Nat :=
  lookupFrom (engine.isFound searchRange) 0 0 (engine.chunksOf input)

/-- The whole chunk is in backends of the range: every layer of it, layer by
layer. -/
def Holds (key : κ) : Prop :=
  if engine.useLayerwise then
    ∀ layerId < engine.numLayers, ∃ entry ∈ engine.storage,
      inSearchRange searchRange entry.1 = true ∧ entry.2.contains (.layer key layerId) = true
  else ∃ entry ∈ engine.storage, inSearchRange searchRange entry.1 = true ∧
    entry.2.contains (.chunk key) = true

/-- The hashes and offsets of the chunks of some tokens. -/
def hashesOf (tokens : List Nat) : LookupInput κ :=
  .hashes ((engine.database.chunks tokens).map (·.key))
    ((engine.database.chunks tokens).map fun chunk => chunk.stop - chunk.start)

/-- The result ends a chunk, the chunks up to it are there, no further chunk
could be counted, and hashes give the same. -/
structure LookupExact (tokens : List Nat) : Prop where
  boundary : engine.lookup searchRange (.tokens tokens) = 0 ∨
    ∃ chunk ∈ engine.database.chunks tokens, chunk.stop = engine.lookup searchRange (.tokens tokens)
  sound : ∀ chunk ∈ engine.database.chunks tokens,
    chunk.stop ≤ engine.lookup searchRange (.tokens tokens) → engine.Holds searchRange chunk.key
  maximal : ∀ chunk ∈ engine.database.chunks tokens,
    (∀ other ∈ engine.database.chunks tokens, other.stop ≤ chunk.stop →
      engine.Holds searchRange other.key) →
    chunk.stop ≤ engine.lookup searchRange (.tokens tokens)
  hashes : engine.lookup searchRange (engine.hashesOf tokens) =
    engine.lookup searchRange (.tokens tokens)

/-- The first chunk that is not there as a whole is not there at all. -/
def FirstMissingIsAbsent (tokens : List Nat) : Prop :=
  ∀ before chunk after, engine.database.chunks tokens = before ++ chunk :: after →
    (∀ earlier ∈ before, engine.Holds searchRange earlier.key) →
    ¬engine.Holds searchRange chunk.key →
    ∀ layerId < engine.numLayers, ∀ entry ∈ engine.storage,
      inSearchRange searchRange entry.1 = true →
      engine.useLayerwise = true →
      entry.2.contains (.layer chunk.key layerId) = false

end LookupEngine

/-! The loop. -/

section Loop

variable {found : κ → Bool} {lower upper : Nat} {chunks : List (TokenChunk κ)}

section

variable (htiles : Tiles TokenChunk.start TokenChunk.stop lower chunks upper)

include htiles

theorem le_lookupFrom : lower ≤ lookupFrom found lower lower chunks := by
  induction chunks generalizing lower with
  | nil => exact Nat.le_refl _
  | cons chunk rest ih =>
    rw [lookupFrom]
    split
    · exact Nat.le_trans (Nat.le_of_lt htiles.2.1) (ih htiles.2.2)
    · exact Nat.le_refl _

omit htiles in
theorem lookupFrom_boundary : lookupFrom found lower lower chunks = lower ∨
    ∃ chunk ∈ chunks, chunk.stop = lookupFrom found lower lower chunks := by
  induction chunks generalizing lower with
  | nil => exact Or.inl rfl
  | cons chunk rest ih =>
    rw [lookupFrom]
    split
    · right
      rcases ih with hlast | ⟨last, hlast, hstop⟩
      · exact ⟨chunk, mem_cons_self, hlast.symm⟩
      · exact ⟨last, mem_cons_of_mem _ hlast, hstop⟩
    · exact Or.inl rfl

theorem found_of_stop_le {chunk : TokenChunk κ} (hchunk : chunk ∈ chunks)
    (hstop : chunk.stop ≤ lookupFrom found lower lower chunks) : found chunk.key = true := by
  induction chunks generalizing lower with
  | nil => cases hchunk
  | cons head rest ih =>
    have hbounds := htiles.bounds hchunk
    rw [lookupFrom] at hstop
    split at hstop
    · next hfound =>
      rcases mem_cons.mp hchunk with rfl | hrest
      · exact hfound
      · exact ih htiles.2.2 hrest hstop
    · omega

theorem stop_le_lookupFrom {chunk : TokenChunk κ} (hchunk : chunk ∈ chunks)
    (hfound : ∀ other ∈ chunks, other.stop ≤ chunk.stop →
      found other.key = true) : chunk.stop ≤ lookupFrom found lower lower chunks := by
  induction chunks generalizing lower with
  | nil => cases hchunk
  | cons head rest ih =>
    obtain ⟨hstart, hlt, hrest⟩ := htiles
    rcases mem_cons.mp hchunk with rfl | hmem
    · rw [lookupFrom, if_pos (hfound _ hchunk (Nat.le_refl _))]
      exact le_lookupFrom hrest
    · have hhead := hfound head mem_cons_self
        (Nat.le_of_lt (Nat.lt_of_le_of_lt (hrest.bounds hmem).1 (hrest.bounds hmem).2.1))
      rw [lookupFrom, if_pos hhead]
      apply ih hrest hmem
      exact fun other hother => hfound other (mem_cons_of_mem _ hother)

end

theorem lookupFrom_of_append {middle : Nat} {first rest : List (TokenChunk κ)}
    (hfirst : Tiles TokenChunk.start TokenChunk.stop lower first middle)
    (hrest : Tiles TokenChunk.start TokenChunk.stop middle rest upper) :
    lookupFrom found lower lower first =
      min (lookupFrom found lower lower (first ++ rest)) middle := by
  induction first generalizing lower with
  | nil =>
    obtain rfl : lower = middle := hfirst
    exact (Nat.min_eq_right (le_lookupFrom hrest)).symm
  | cons chunk first ih =>
    obtain ⟨-, hlt, hfirst⟩ := hfirst
    rw [cons_append, lookupFrom, lookupFrom]
    split
    · exact ih hfirst
    · exact (Nat.min_eq_left (Nat.le_trans (Nat.le_of_lt hlt) hfirst.le)).symm

end Loop

/-- Two tests give the same count when they agree up to the first chunk that
fails the second one. -/
theorem lookupFrom_congr {found held : κ → Bool} {lower : Nat} {chunks : List (TokenChunk κ)}
    (hagree : ∀ before chunk after, chunks = before ++ chunk :: after →
      (∀ earlier ∈ before, held earlier.key = true) →
      found chunk.key = held chunk.key) :
    lookupFrom found lower lower chunks = lookupFrom held lower lower chunks := by
  induction chunks generalizing lower with
  | nil => rfl
  | cons chunk rest ih =>
    rw [lookupFrom, lookupFrom, hagree [] chunk rest rfl (by simp)]
    split
    · next hheld =>
      apply ih
      intro before other after hrest hbefore
      apply hagree (chunk :: before) other after (by rw [hrest]; rfl)
      intro earlier hearlier
      rcases mem_cons.mp hearlier with rfl | htail
      · exact hheld
      · exact hbefore earlier htail
    · rfl

theorem processHashes_of_tiles {lower upper : Nat} {chunks : List (TokenChunk κ)}
    (htiles : Tiles TokenChunk.start TokenChunk.stop lower chunks upper) :
    processHashes lower ((chunks.map (·.key)).zip
      (chunks.map fun chunk => chunk.stop - chunk.start)) = chunks := by
  induction chunks generalizing lower with
  | nil => rfl
  | cons chunk rest ih =>
    obtain ⟨hstart, hlt, hrest⟩ := htiles
    have hstop : lower + (chunk.stop - chunk.start) = chunk.stop := by
      omega
    rw [map_cons, map_cons, zip_cons_cons, processHashes, hstop, ih hrest, ← hstart]

theorem ChunkedTokenDatabase.tiles_chunks (database : ChunkedTokenDatabase κ) (tokens : List Nat) :
    ∃ upper, Tiles TokenChunk.start TokenChunk.stop 0 (database.chunks tokens) upper := by
  obtain ⟨upper, htiles, -⟩ := database.tiles_drop_chunks tokens 0
  rw [Nat.zero_mul, drop_zero] at htiles
  exact ⟨upper, htiles⟩

theorem isSome_containsIn [DecidableEq ν] (storage : StorageManager ν κ μ)
    (searchRange : Option (List ν)) (key : κ) :
    (storage.containsIn searchRange key).isSome = true ↔
      ∃ entry ∈ storage, inSearchRange searchRange entry.1 = true ∧
        entry.2.contains key = true := by
  simp [StorageManager.containsIn, find?_isSome]

namespace LookupEngine

variable [DecidableEq ν] {engine : LookupEngine ν κ μ} {searchRange : Option (List ν)}

theorem isFound_of_holds {key : κ} (hholds : engine.Holds searchRange key) :
    engine.isFound searchRange key = true := by
  unfold Holds at hholds
  unfold isFound
  split_ifs at hholds ⊢ with hlayerwise
  · rw [any_eq_true]
    refine ⟨.layer key 0, ?_, ?_⟩
    · exact mem_map_of_mem (mem_range.mpr engine.numLayers_pos)
    · exact (isSome_containsIn ..).mpr (hholds 0 engine.numLayers_pos)
  · exact (isSome_containsIn ..).mpr hholds

theorem isFound_iff_of_not_holds {key : κ} (hholds : ¬engine.Holds searchRange key) :
    engine.isFound searchRange key = true ↔ ∃ layerId < engine.numLayers, ∃ entry ∈ engine.storage,
        inSearchRange searchRange entry.1 = true ∧ engine.useLayerwise = true ∧
          entry.2.contains (.layer key layerId) = true := by
  unfold Holds at hholds
  unfold isFound
  split_ifs at hholds ⊢ with hlayerwise
  · simp [splitLayers, hlayerwise, isSome_containsIn]
  · simp [hlayerwise, isSome_containsIn] at hholds ⊢
    exact hholds

theorem stop_le_lookup {tokens : List Nat} {before after : List (TokenChunk κ)}
    {chunk : TokenChunk κ} (hchunks : engine.database.chunks tokens = before ++ chunk :: after)
    (hbefore : ∀ earlier ∈ before, engine.Holds searchRange earlier.key)
    (hfound : engine.isFound searchRange chunk.key = true) :
    chunk.stop ≤ engine.lookup searchRange (.tokens tokens) := by
  obtain ⟨upper, htiles⟩ := engine.database.tiles_chunks tokens
  have hmem : chunk ∈ engine.database.chunks tokens := by
    rw [hchunks]
    exact mem_append_right _ mem_cons_self
  apply stop_le_lookupFrom htiles hmem
  intro other hother hstop
  rw [hchunks] at hother htiles
  obtain ⟨middle, -, -, -, hafter⟩ := tiles_append.mp htiles
  rcases mem_append.mp hother with hearlier | hrest
  · exact isFound_of_holds (hbefore other hearlier)
  · rcases mem_cons.mp hrest with rfl | hlater
    · exact hfound
    · have hbounds := hafter.bounds hlater
      omega

theorem lookup_eq_of_firstMissingIsAbsent {tokens : List Nat} {held : κ → Bool}
    (hheld : ∀ key, held key = true ↔ engine.Holds searchRange key)
    (habsent : engine.FirstMissingIsAbsent searchRange tokens) :
    engine.lookup searchRange (.tokens tokens) =
      lookupFrom held 0 0 (engine.database.chunks tokens) := by
  apply lookupFrom_congr
  intro before chunk after hchunks hbefore
  rw [Bool.eq_iff_iff, hheld]
  constructor
  · intro hfound
    by_contra hholds
    obtain ⟨layerId, hlayer, entry, hentry, hrange, hlayerwise, hcontains⟩ :=
      (isFound_iff_of_not_holds hholds).mp hfound
    have hmissing := habsent before chunk after hchunks
      (fun earlier hearlier => (hheld _).mp (hbefore earlier hearlier))
      hholds layerId hlayer entry hentry hrange hlayerwise
    rw [hcontains] at hmissing
    cases hmissing
  · exact isFound_of_holds

end LookupEngine

/-- A lookup is exact exactly when the first chunk that is not there as a
whole is not there at all. -/
theorem lookupExact_iff_firstMissingIsAbsent [DecidableEq ν] (engine : LookupEngine ν κ μ)
    (searchRange : Option (List ν)) (tokens : List Nat) :
    engine.LookupExact searchRange tokens ↔ engine.FirstMissingIsAbsent searchRange tokens := by
  constructor
  · intro hexact before chunk after hchunks hbefore hholds layerId hlayer
      entry hentry hrange hlayerwise
    rw [← Bool.not_eq_true]
    intro hcontains
    have hfound := (LookupEngine.isFound_iff_of_not_holds hholds).mpr
      ⟨layerId, hlayer, entry, hentry, hrange, hlayerwise, hcontains⟩
    apply hholds
    apply hexact.sound chunk
    · rw [hchunks]
      exact mem_append_right _ mem_cons_self
    · exact LookupEngine.stop_le_lookup hchunks hbefore hfound
  · intro habsent
    classical
    have hheld : ∀ key, decide (engine.Holds searchRange key) = true ↔
        engine.Holds searchRange key := fun key => decide_eq_true_iff
    have hlookup := LookupEngine.lookup_eq_of_firstMissingIsAbsent hheld habsent
    obtain ⟨upper, htiles⟩ := engine.database.tiles_chunks tokens
    constructor
    · exact lookupFrom_boundary
    · intro chunk hchunk hstop
      rw [hlookup] at hstop
      exact (hheld _).mp (found_of_stop_le htiles hchunk hstop)
    · intro chunk hchunk hholds
      rw [hlookup]
      apply stop_le_lookupFrom htiles hchunk
      exact fun other hother hle => (hheld _).mpr (hholds other hother hle)
    · rw [LookupEngine.lookup, LookupEngine.hashesOf, LookupEngine.chunksOf,
        processHashes_of_tiles htiles]
      rfl

/-- Two layers, chunks of one token, and one backend with one layer of the
only chunk. -/
def halfStored : LookupEngine Unit (List Nat) Unit where
  database := ⟨1, true, [], fun hash chunk => hash ++ chunk, by decide⟩
  storage := [((), ⟨fun key => key == .layer [7] 0,
    fun keys => keys.map fun _ => some (), fun _ => List.length_map _⟩)]
  useLayerwise := true
  numLayers := 2
  numLayers_pos := by decide

/-- The token is counted although its second layer is nowhere. -/
theorem not_lookupExact_halfStored : halfStored.lookup none (.tokens [7]) = 1 ∧
    ¬halfStored.LookupExact none [7] := by
  refine ⟨by decide, ?_⟩
  intro hexact
  have hholds := hexact.sound ⟨0, 1, [7]⟩ (by decide) (by decide)
  rw [LookupEngine.Holds, if_pos (show halfStored.useLayerwise = true from rfl)] at hholds
  obtain ⟨entry, hentry, -, hcontains⟩ := hholds 1 (by decide)
  rw [mem_singleton.mp hentry] at hcontains
  exact absurd hcontains (by decide)

/-! Lookups of a part of the tokens. -/

theorem LookupEngine.lookup_le_length [DecidableEq ν] (engine : LookupEngine ν κ μ)
    (searchRange : Option (List ν)) (tokens : List Nat) :
    engine.lookup searchRange (.tokens tokens) ≤ tokens.length := by
  obtain ⟨-, -, hstops⟩ := engine.database.tiles_drop_chunks tokens 0
  rcases lookupFrom_boundary with hnone | ⟨chunk, hchunk, hstop⟩
  · exact Nat.le_trans (Nat.le_of_eq hnone) (Nat.zero_le _)
  · exact Nat.le_trans (Nat.le_of_eq hstop.symm) (hstops chunk hchunk)

/-- A lookup of the tokens up to the end of a chunk finds what a lookup of all
tokens finds, as far as these tokens go. -/
theorem lookup_take_eq_min [DecidableEq ν] (engine : LookupEngine ν κ μ)
    (searchRange : Option (List ν)) (tokens : List Nat) (count : Nat) :
    engine.lookup searchRange (.tokens (tokens.take (count * engine.database.chunkSize))) =
      min (engine.lookup searchRange (.tokens tokens)) (count * engine.database.chunkSize) := by
  have hle := engine.lookup_le_length searchRange tokens
  by_cases hcount : count ≤ engine.database.chunkCount tokens.length
  · obtain ⟨upper, htiles⟩ := engine.database.tiles_chunks tokens
    rw [← take_append_drop count (engine.database.chunks tokens)] at htiles
    obtain ⟨middle, hfirst, hrest⟩ := tiles_append.mp htiles
    have hmiddle : min (count * engine.database.chunkSize) tokens.length = middle :=
      (engine.database.stop_getLast?_chunks hcount).symm.trans hfirst.getLast?_stop
    have hcut : lookupFrom (engine.isFound searchRange) 0 0 (take count _) = min _ middle :=
      lookupFrom_of_append hfirst hrest
    rw [take_append_drop, ← engine.database.chunks_cut hcount, ← take_eq_take_min,
      ← hmiddle] at hcut
    simp only [LookupEngine.lookup, LookupEngine.chunksOf] at hle ⊢
    omega
  · have hlength := engine.database.length_le_of_chunkCount_lt (Nat.lt_of_not_le hcount)
    rw [take_of_length_le hlength]
    omega

end CatKV
