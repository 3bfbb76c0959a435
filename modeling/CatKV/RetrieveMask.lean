/-
The mask that `retrieve` returns should say exactly which chunks went to the
GPU.  It does when no fetch fails, or when already the first chunk fails and no
other backend does; otherwise the chunk in front of the last failure is in the
mask and was dropped.
-/
import CatKV.FetchBlocks

namespace CatKV

open List

variable {ν κ μ : Type} [DecidableEq ν]

/-! What the mask should say. -/

/-- The results of the batch in which a chunk at this location is fetched. -/
def batchResults (storage : StorageManager ν κ μ)
    (located : List (ν × TokenChunk κ)) (location : ν) :
    List (TokenChunk κ × Option μ) :=
  let blocks := (located.filter fun entry => entry.1 = location).map Prod.snd
  blocks.zip ((storage.batchedGet (blocks.map (·.key)) location).getD [])

/-- The batch has a memory object for the chunk. -/
def Fetchable (storage : StorageManager ν κ μ)
    (located : List (ν × TokenChunk κ)) (entry : ν × TokenChunk κ) : Prop :=
  (entry.2, none) ∉ batchResults storage located entry.1

instance [DecidableEq κ] [DecidableEq μ] (storage : StorageManager ν κ μ)
    (located : List (ν × TokenChunk κ)) (entry : ν × TokenChunk κ) :
    Decidable (Fetchable storage located entry) :=
  inferInstanceAs (Decidable (¬ _))

/-- Some backend has the chunk and gives it. -/
def Available (storage : StorageManager ν κ μ)
    (located : List (ν × TokenChunk κ)) (chunk : TokenChunk κ) : Prop :=
  ∃ location, storage.contains chunk.key = some location ∧
    Fetchable storage located (location, chunk)

/-- The mask is the union of the chunks given to the GPU, and it is the run of
available chunks from the first unmasked position on. -/
def MaskExact (storage : StorageManager ν κ μ) (chunks : List (TokenChunk κ))
    (firstUnmasked : Nat) (retrieved : Retrieved κ μ) : Prop :=
  (∀ position : Nat, retrieved.retMask[position]? = some true ↔ ∃ entry ∈ retrieved.reorderedChunks,
      entry.1.start ≤ position ∧ position < entry.1.stop) ∧
  ∃ stop, EndsAt (Available storage (locateChunks storage chunks)) firstUnmasked chunks stop ∧
    ∀ position : Nat, retrieved.retMask[position]? = some true ↔
      firstUnmasked ≤ position ∧ position < stop

/-- Every located chunk is fetched, or already the first one is not and no
backend but its own fails. -/
def FailsFirstOrNever (storage : StorageManager ν κ μ) (located : List (ν × TokenChunk κ)) : Prop :=
  (∀ entry ∈ located, Fetchable storage located entry) ∨ ∃ first rest, located = first :: rest ∧
      ¬ Fetchable storage located first ∧
      ∀ entry ∈ located, entry.1 ≠ first.1 → Fetchable storage located entry

/-! The result. -/

section Result

variable {storage : StorageManager ν κ μ} {chunks : List (TokenChunk κ)}

variable {located : List (ν × TokenChunk κ)}

theorem entryResults_eq {entry : ν × List (TokenChunk κ)} (hentry : entry ∈ blockMapping located) :
    entryResults storage entry = batchResults storage located entry.1 := by
  unfold entryResults batchResults
  rw [← (mapped_blockMapping located).blocks entry hentry]

theorem mem_located_of_mem_batchResults {location : ν} {result : TokenChunk κ × Option μ}
    (hresult : result ∈ batchResults storage located location) :
    (location, result.1) ∈ located := by
  have hblock := (of_mem_zip (a := result.1) (b := result.2) hresult).1
  obtain ⟨entry, hentry, hchunk⟩ := mem_map.mp hblock
  obtain ⟨hmem, hname⟩ := mem_filter.mp hentry
  obtain rfl : entry.1 = location := by simpa using hname
  rwa [← hchunk]

variable {entry : ν × TokenChunk κ}

theorem exists_mem_blockMapping (hentry : entry ∈ located) :
    ∃ blocks, (entry.1, blocks) ∈ blockMapping located := by
  have hname := ((mapped_blockMapping located).found entry.1).mpr (mem_map.mpr ⟨entry, hentry, rfl⟩)
  obtain ⟨⟨name, blocks⟩, hblocks, rfl⟩ := mem_map.mp hname
  exact ⟨blocks, hblocks⟩

theorem batchedGet_of_mem_blockMapping {entry : ν × List (TokenChunk κ)}
    (hentry : entry ∈ blockMapping (locateChunks storage chunks)) :
    ∃ memoryObjs, storage.batchedGet (entry.2.map (·.key)) entry.1 =
      some memoryObjs ∧ memoryObjs.length = entry.2.length := by
  have hmapped := mapped_blockMapping (locateChunks storage chunks)
  obtain ⟨located, hlocated, hname⟩ := mem_map.mp
    ((hmapped.found entry.1).mp (mem_map.mpr ⟨entry, hentry, rfl⟩))
  have hne : entry.2.map (·.key) ≠ [] := by
    rw [hmapped.blocks entry hentry]
    refine ne_nil_of_mem (mem_map.mpr ⟨located.2,
      mem_map.mpr ⟨located, mem_filter.mpr ⟨hlocated, ?_⟩, rfl⟩, rfl⟩)
    simp [hname]
  obtain ⟨memoryObjs, hget, hlength⟩ := batchedGet_of_contains
    (hname ▸ contains_of_mem_locateChunks hlocated) hne
  exact ⟨memoryObjs, hget, by simpa using hlength⟩

theorem exists_mem_batchResults (hentry : entry ∈ locateChunks storage chunks) :
    ∃ memoryObj, (entry.2, memoryObj) ∈
      batchResults storage (locateChunks storage chunks) entry.1 := by
  obtain ⟨blocks, hblocks⟩ := exists_mem_blockMapping hentry
  obtain ⟨memoryObjs, hget, hlength⟩ := batchedGet_of_mem_blockMapping hblocks
  have hmem : entry.2 ∈ (entry.1, blocks).2 := by
    rw [(mapped_blockMapping _).blocks _ hblocks]
    exact mem_map.mpr ⟨entry, mem_filter.mpr ⟨hentry, by simp⟩, rfl⟩
  obtain ⟨idx, hidx⟩ := mem_iff_getElem?.mp hmem
  have hlt : idx < memoryObjs.length := by
    rw [hlength]
    exact (List.getElem?_eq_some_iff.mp hidx).1
  refine ⟨memoryObjs[idx], ?_⟩
  rw [← entryResults_eq hblocks, entryResults, hget, Option.getD_some]
  refine mem_of_getElem? (i := idx) ?_
  rw [getElem?_zip_eq_some]
  exact ⟨hidx, getElem?_eq_getElem hlt⟩

theorem fetched_processTokensInternal (storage : StorageManager ν κ μ)
    (chunks : List (TokenChunk κ)) (retMask : List Bool) :
    ∃ fetched, processTokensInternal storage chunks retMask =
        some (cutBack (markLocated (locateChunks storage chunks) retMask) fetched) ∧
      FetchedFrom storage (blockMapping (locateChunks storage chunks)) fetched := by
  have hstart : FetchedFrom storage [] (⟨[], none⟩ : Fetched κ μ) := ⟨by simp, by simp, by simp⟩
  obtain ⟨fetched, hfold, hfetched⟩ := hstart.foldlM
    (blockMapping (locateChunks storage chunks)) fun entry hentry => by
      obtain ⟨memoryObjs, hget, -⟩ := batchedGet_of_mem_blockMapping hentry
      exact ⟨memoryObjs, hget⟩
  refine ⟨fetched, ?_, hfetched⟩
  rw [processTokensInternal, hfold]
  rfl

variable {fetched : Fetched κ μ}

section

variable (hfetched : FetchedFrom storage (blockMapping located) fetched)

include hfetched

theorem FetchedFrom.mem_located {item : TokenChunk κ × μ} (hitem : item ∈ fetched.reorderedChunks) :
    ∃ location, (location, item.1) ∈ located := by
  obtain ⟨entry, hentry, hcollected⟩ := (hfetched.chunks item).mp hitem
  have hresult := mem_of_mem_collectBlocks hcollected
  rw [entryResults_eq hentry] at hresult
  exact ⟨entry.1, mem_located_of_mem_batchResults hresult⟩

theorem FetchedFrom.failed_located {last : Nat} (hlast : fetched.lastFailedBlockStart = some last) :
    ∃ entry ∈ located, ¬ Fetchable storage located entry ∧ entry.2.start = last := by
  obtain ⟨⟨location, blocks⟩, hentry, hfailed⟩ := hfetched.failed last hlast
  obtain ⟨chunk, hchunk, hstart⟩ := collectBlocks_of_failed hfailed
  rw [entryResults_eq hentry] at hchunk
  exact ⟨(location, chunk), mem_located_of_mem_batchResults hchunk, not_not.mpr hchunk, hstart⟩

theorem FetchedFrom.start_le (hentry : entry ∈ located)
    (hfails : ¬ Fetchable storage located entry) :
    ∃ last other, fetched.lastFailedBlockStart = some last ∧
      (entry.1, other) ∈ located ∧ other.start ≤ last := by
  obtain ⟨blocks, hblocks⟩ := exists_mem_blockMapping hentry
  cases hcollect : (collectBlocks (entryResults storage (entry.1, blocks))).2 with
  | none =>
    refine absurd (not_not.mp hfails) ?_
    rw [← entryResults_eq hblocks]
    exact (collectBlocks_of_some hcollect).1 entry.2
  | some start =>
    obtain ⟨last, hlast, hle⟩ := hfetched.largest _ hblocks start hcollect
    obtain ⟨other, hother, rfl⟩ := collectBlocks_of_failed hcollect
    rw [entryResults_eq hblocks] at hother
    exact ⟨last, other, hlast, mem_located_of_mem_batchResults hother, hle⟩

end

theorem FetchedFrom.cover_iff (hfetched : FetchedFrom storage
      (blockMapping (locateChunks storage chunks)) fetched)
    (hall : ∀ entry ∈ locateChunks storage chunks,
      Fetchable storage (locateChunks storage chunks) entry) (position : Nat) :
    (∃ item ∈ fetched.reorderedChunks, item.1.start ≤ position ∧ position < item.1.stop) ↔
    ∃ entry ∈ locateChunks storage chunks, entry.2.start ≤ position ∧ position < entry.2.stop := by
  constructor
  · rintro ⟨item, hitem, hcover⟩
    obtain ⟨location, hlocated⟩ := hfetched.mem_located hitem
    exact ⟨_, hlocated, hcover⟩
  · rintro ⟨entry, hentry, hcover⟩
    obtain ⟨blocks, hblocks⟩ := exists_mem_blockMapping hentry
    have hnone : (collectBlocks (entryResults storage (entry.1, blocks))).2 = none := by
      by_contra hsome
      obtain ⟨start, hstart⟩ := Option.ne_none_iff_exists'.mp hsome
      obtain ⟨chunk, hchunk, -⟩ := collectBlocks_of_failed hstart
      rw [entryResults_eq hblocks] at hchunk
      exact hall _ (mem_located_of_mem_batchResults hchunk) hchunk
    obtain ⟨memoryObj, hresult⟩ := exists_mem_batchResults hentry
    rw [← entryResults_eq hblocks] at hresult
    have hfirst : entry.2 ∈ (collectBlocks (entryResults storage
        (entry.1, blocks))).1.map Prod.fst := by
      rw [(collectBlocks_of_some hnone).2]
      exact mem_map.mpr ⟨_, hresult, rfl⟩
    obtain ⟨item, hitem, hchunk⟩ := mem_map.mp hfirst
    exact ⟨item, (hfetched.chunks item).mpr ⟨_, hblocks, hitem⟩, hchunk ▸ hcover⟩

theorem not_available_of_absent {chunk : TokenChunk κ}
    (habsent : storage.contains chunk.key = none) : ¬ Available storage located chunk := by
  rintro ⟨location, hlocation, -⟩
  rw [habsent] at hlocation
  cases hlocation

theorem not_available_of_failed (hentry : entry ∈ locateChunks storage chunks)
    (hfails : ¬ Fetchable storage (locateChunks storage chunks) entry) :
    ¬ Available storage (locateChunks storage chunks) entry.2 := by
  rintro ⟨location, hlocation, hfetchable⟩
  obtain rfl : entry.1 = location := Option.some.inj
    ((contains_of_mem_locateChunks hentry).symm.trans hlocation)
  exact hfails hfetchable

section FirstFailed

variable {first : ν × TokenChunk κ} {rest : List (ν × TokenChunk κ)}

theorem batchResults_first (hfirst : locateChunks storage chunks = first :: rest) :
    ∃ memoryObj more, batchResults storage (locateChunks storage chunks)
        first.1 = (first.2, memoryObj) :: more ∧
      ∀ result ∈ more, (first.1, result.1) ∈ rest := by
  have hcontains : storage.contains first.2.key = some first.1 :=
    contains_of_mem_locateChunks (hfirst ▸ mem_cons_self)
  set blocks := (rest.filter fun entry => entry.1 = first.1).map Prod.snd with hblocks
  obtain ⟨memoryObjs, hget, hlength⟩ := batchedGet_of_contains hcontains
    (cons_ne_nil first.2.key (blocks.map (·.key)))
  match memoryObjs, hlength with
  | memoryObj :: memoryObjs, _ =>
    refine ⟨memoryObj, blocks.zip memoryObjs, ?_, fun result hresult => ?_⟩
    · rw [batchResults, hfirst]
      simp only [filter_cons, decide_true, if_true, map_cons,
        ← hblocks, hget, Option.getD_some, zip_cons_cons]
    · have hblock := (of_mem_zip (a := result.1) (b := result.2) hresult).1
      obtain ⟨entry, hentry, hchunk⟩ := mem_map.mp hblock
      obtain ⟨hmem, hname⟩ := mem_filter.mp hentry
      have hname' : entry.1 = first.1 := by simpa using hname
      rwa [← hchunk, ← hname']

variable {lower stop : Nat} (htiles : Tiles (fun entry => entry.2.start) (fun entry => entry.2.stop)
    lower (locateChunks storage chunks) stop)
  (hfirst : locateChunks storage chunks = first :: rest)
  (hfails : ¬ Fetchable storage (locateChunks storage chunks) first)

include htiles hfirst hfails

theorem collectBlocks_first_failed :
    (collectBlocks (batchResults storage (locateChunks storage chunks)
      first.1)).2 = some lower := by
  obtain ⟨memoryObj, more, hresults, hmore⟩ := batchResults_first hfirst
  rw [hfirst] at htiles
  obtain ⟨hstart, hnonempty, hrest⟩ := htiles
  have hnone := not_not.mp hfails
  rw [hresults] at hnone ⊢
  rcases mem_cons.mp hnone with heq | htail
  · cases heq
    exact congrArg some hstart
  · have hafter := (hrest.bounds (hmore _ htail)).1
    dsimp only at hstart hafter hnonempty
    omega

/-- When only the backend of the first chunk fails, the recorded start is that
of the first chunk. -/
theorem FetchedFrom.last_eq_lower (hfetched : FetchedFrom storage
      (blockMapping (locateChunks storage chunks)) fetched)
    (hothers : ∀ entry ∈ locateChunks storage chunks, entry.1 ≠ first.1 →
      Fetchable storage (locateChunks storage chunks) entry) :
    fetched.lastFailedBlockStart = some lower := by
  obtain ⟨last, -, hlast, -, -⟩ := hfetched.start_le (hfirst ▸ mem_cons_self) hfails
  obtain ⟨⟨location, blocks⟩, hentry, hfailed⟩ := hfetched.failed last hlast
  rw [entryResults_eq hentry] at hfailed
  have hlocation : location = first.1 := by
    by_contra hne
    obtain ⟨chunk, hchunk, -⟩ := collectBlocks_of_failed hfailed
    exact hothers _ (mem_located_of_mem_batchResults hchunk) hne hchunk
  rw [hlocation, collectBlocks_first_failed htiles hfirst hfails] at hfailed
  rw [hlast, hfailed]

end FirstFailed

section Tiled

variable {lower upper length : Nat}
  (htiles : Tiles TokenChunk.start TokenChunk.stop lower chunks upper)
  (hlength : ∀ chunk ∈ chunks, chunk.stop ≤ length)
  (hfetched : FetchedFrom storage (blockMapping (locateChunks storage chunks)) fetched)

include htiles hlength hfetched

theorem maskExact_of_fetchable (hall : ∀ entry ∈ locateChunks storage chunks,
      Fetchable storage (locateChunks storage chunks) entry) :
    MaskExact storage chunks lower (cutBack (markLocated
      (locateChunks storage chunks) (List.replicate length false)) fetched) := by
  have hnone : fetched.lastFailedBlockStart = none := by
    by_contra hsome
    obtain ⟨last, hlast⟩ := Option.ne_none_iff_exists'.mp hsome
    obtain ⟨entry, hentry, hfails, -⟩ := hfetched.failed_located hlast
    exact hfails (hall entry hentry)
  obtain ⟨stop, hstop⟩ := tiles_locateChunks storage htiles
  have hmarked := marked_iff storage hlength
  unfold cutBack MaskExact
  rw [hnone]
  refine ⟨fun position => ?_, stop, ?_, fun position => ?_⟩
  · rw [hmarked, hfetched.cover_iff hall]
  · refine endsAt_of_located htiles hstop (fun entry hentry => ?_)
      fun chunk habsent => not_available_of_absent habsent
    exact ⟨entry.1, contains_of_mem_locateChunks hentry, hall entry hentry⟩
  · rw [hmarked]
    exact hstop.cover_iff position

theorem maskExact_of_first_failed {first : ν × TokenChunk κ} {rest : List (ν × TokenChunk κ)}
    (hfirst : locateChunks storage chunks = first :: rest)
    (hfails : ¬ Fetchable storage (locateChunks storage chunks) first)
    (hothers : ∀ entry ∈ locateChunks storage chunks, entry.1 ≠ first.1 →
      Fetchable storage (locateChunks storage chunks) entry) :
    MaskExact storage chunks lower (cutBack (markLocated
      (locateChunks storage chunks) (List.replicate length false)) fetched) := by
  have hmem : first ∈ locateChunks storage chunks := hfirst ▸ mem_cons_self
  obtain ⟨stop, hstop⟩ := tiles_locateChunks storage htiles
  have hstart : first.2.start = lower := (hfirst ▸ hstop).1
  have hlast := FetchedFrom.last_eq_lower hstop hfirst hfails hfetched hothers
  have hfalse : ∀ position : Nat, (cutBack (markLocated (locateChunks storage chunks)
      (List.replicate length false)) fetched).retMask[position]? ≠ some true := by
    intro position htrue
    obtain ⟨hlt, hcover⟩ := (cutBack_iff hlength hlast position).mp htrue
    have hge := ((hstop.cover_iff position).mp hcover).1
    omega
  refine ⟨fun position => ?_, lower, ?_, fun position => ?_⟩
  · refine ⟨fun htrue => absurd htrue (hfalse position), ?_⟩
    rintro ⟨item, hitem, hcover⟩
    simp only [cutBack, hlast, mem_filter, decide_eq_true_eq] at hitem
    obtain ⟨location, hlocated⟩ := hfetched.mem_located hitem.1
    have hge := (hstop.bounds hlocated).1
    dsimp only at hge
    omega
  · obtain ⟨more, hchunks⟩ := chunks_of_located hfirst
    have hends : EndsAt (Available storage (locateChunks storage chunks)) lower
        (first.2 :: more) lower :=
      Or.inr ⟨not_available_of_failed hmem hfails, hstart.symm⟩
    rwa [← hchunks] at hends
  · refine ⟨fun htrue => absurd htrue (hfalse position), ?_⟩
    omega

theorem maskExact_of_failsFirstOrNever
    (hfails : FailsFirstOrNever storage (locateChunks storage chunks)) :
    MaskExact storage chunks lower (cutBack (markLocated
      (locateChunks storage chunks) (List.replicate length false)) fetched) := by
  rcases hfails with hall | ⟨first, rest, hfirst, hfails, hothers⟩
  · exact maskExact_of_fetchable htiles hlength hfetched hall
  · exact maskExact_of_first_failed htiles hlength hfetched hfirst hfails hothers

/-- The chunk in front of the recorded start is in the mask and not among the
chunks for the GPU. -/
theorem failsFirstOrNever_of_covered {retrieved : Retrieved κ μ}
    (hcut : cutBack (markLocated (locateChunks storage chunks)
      (List.replicate length false)) fetched = retrieved)
    (hcovered : ∀ position : Nat, retrieved.retMask[position]? = some true →
      ∃ entry ∈ retrieved.reorderedChunks, entry.1.start ≤ position ∧ position < entry.1.stop) :
    FailsFirstOrNever storage (locateChunks storage chunks) := by
  by_cases hall : ∀ entry ∈ locateChunks storage chunks,
      Fetchable storage (locateChunks storage chunks) entry
  · exact Or.inl hall
  · simp only [not_forall] at hall
    obtain ⟨entry, hentry, hfails⟩ := hall
    obtain ⟨last, -, hlast, -, -⟩ := hfetched.start_le hentry hfails
    obtain ⟨failed, hfailed, hfails, hstart⟩ := hfetched.failed_located hlast
    obtain ⟨stop, hstop⟩ := tiles_locateChunks storage htiles
    have hbounds := hstop.bounds hfailed
    have hlower : last = lower := by
      by_contra hne
      have hcovered := (hstop.cover_iff (last - 1)).mpr (by omega)
      have hmask := (cutBack_iff hlength hlast (last - 1)).mpr ⟨by omega, hcovered⟩
      subst hcut
      obtain ⟨item, hitem, -, hend⟩ := hcovered (last - 1) hmask
      simp only [cutBack, hlast, mem_filter, decide_eq_true_eq] at hitem
      omega
    obtain ⟨first, rest, hlocated⟩ := exists_cons_of_ne_nil (ne_nil_of_mem hfailed)
    have hhead : ∀ other ∈ locateChunks storage chunks, other.2.start ≤ lower → other = first := by
      intro other hother hle
      have hge := (hstop.bounds hother).1
      rw [hlocated] at hstop hother
      exact hstop.eq_head hother (Nat.le_antisymm hle hge)
    refine Or.inr ⟨first, rest, hlocated, ?_, fun other hother hne => ?_⟩
    · rwa [← hhead failed hfailed (by omega)]
    · by_contra hother'
      obtain ⟨last', chunk, hlast', hchunk, hle⟩ := hfetched.start_le hother hother'
      obtain rfl : last = last' := Option.some.inj (hlast.symm.trans hlast')
      have hsame := hhead _ hchunk (by simpa [hlower] using hle)
      exact hne (by rw [← hsame])

end Tiled

theorem fetched_retrieve {database : ChunkedTokenDatabase κ} (storage : StorageManager ν κ μ)
    (tokens : List Nat) {mask : Option (List Bool)} {masked : Nat}
    (hfalses : numFalses mask = masked * database.chunkSize) :
    ∃ fetched, LMCacheEngine.retrieve database storage tokens mask = some (cutBack (markLocated
        (locateChunks storage ((database.chunks tokens).drop masked))
        (List.replicate tokens.length false)) fetched) ∧
      FetchedFrom storage (blockMapping (locateChunks storage
        ((database.chunks tokens).drop masked))) fetched := by
  rw [LMCacheEngine.retrieve, hfalses, database.processTokens_eq]
  exact fetched_processTokensInternal storage _ _

end Result

/-- For every token list, mask, distribution of the chunks over the backends and
pattern of failed fetches. -/
theorem maskExact_iff (database : ChunkedTokenDatabase κ) (storage : StorageManager ν κ μ)
    (tokens : List Nat) (mask : Option (List Bool)) (masked : Nat)
    (hmask : IsPrefixMask tokens.length (masked * database.chunkSize) mask) :
    ∃ retrieved, LMCacheEngine.retrieve database storage tokens mask = some retrieved ∧
      (MaskExact storage ((database.chunks tokens).drop masked)
          (masked * database.chunkSize) retrieved ↔
        FailsFirstOrNever storage (locateChunks storage
          ((database.chunks tokens).drop masked))) := by
  obtain ⟨upper, htiles, hlength⟩ := database.tiles_drop_chunks tokens masked
  obtain ⟨fetched, hretrieve, hfetched⟩ := fetched_retrieve storage tokens hmask.numFalses_eq
  refine ⟨_, hretrieve, fun hexact => ?_, maskExact_of_failsFirstOrNever htiles hlength hfetched⟩
  exact failsFirstOrNever_of_covered htiles hlength hfetched rfl
    fun position => (hexact.1 position).mp

/-- A backend that has the keys of some lengths and gives those of others. -/
def backendOf (has gives : List Nat) : SyncBackend (List Nat) Unit where
  contains key := has.contains key.length
  batchedGetBlocking keys := keys.map fun key =>
    if gives.contains key.length then some () else none
  length_batchedGetBlocking _ := List.length_map _

/-- Two backends by turns after a masked chunk, and a last chunk that none has. -/
theorem maskExact_byTurns : ∃ retrieved, LMCacheEngine.retrieve tokenwise
      [(0, backendOf [2, 4] [2, 4]), (1, backendOf [3] [3])] [5, 6, 7, 8, 9]
      (some [false, true, true, true, true]) = some retrieved ∧
    retrieved.retMask = [false, true, true, true, false] ∧
    MaskExact [(0, backendOf [2, 4] [2, 4]), (1, backendOf [3] [3])]
      ((tokenwise.chunks [5, 6, 7, 8, 9]).drop 1) 1 retrieved := by
  obtain ⟨retrieved, hretrieve, hexact⟩ := maskExact_iff tokenwise
    [(0, backendOf [2, 4] [2, 4]), (1, backendOf [3] [3])] [5, 6, 7, 8, 9]
    (some [false, true, true, true, true]) 1 ⟨by decide, rfl⟩
  refine ⟨retrieved, hretrieve, ?_, hexact.mpr (Or.inl (by decide +kernel))⟩
  cases hretrieve
  decide +kernel

/-- The second of two chunks cannot be fetched.  The first one is in the mask
and does not go to the GPU. -/
theorem not_maskExact_of_second_failed : ∃ retrieved, LMCacheEngine.retrieve tokenwise
      [((), backendOf [1, 2] [1])] [5, 6] none = some retrieved ∧
    retrieved.retMask = [true, false] ∧ retrieved.reorderedChunks = [] ∧
    ¬ MaskExact [((), backendOf [1, 2] [1])] (tokenwise.chunks [5, 6]) 0 retrieved := by
  obtain ⟨retrieved, hretrieve⟩ : ∃ retrieved, LMCacheEngine.retrieve tokenwise
      [((), backendOf [1, 2] [1])] [5, 6] none = some retrieved := ⟨_, rfl⟩
  have hfields : retrieved.retMask = [true, false] ∧ retrieved.reorderedChunks = [] := by
    cases hretrieve
    decide +kernel
  refine ⟨retrieved, hretrieve, hfields.1, hfields.2, fun hexact => ?_⟩
  obtain ⟨item, hitem, -⟩ := (hexact.1 0).mp (by rw [hfields.1]; rfl)
  rw [hfields.2] at hitem
  cases hitem

end CatKV
