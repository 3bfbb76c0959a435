/-
`retrieve` when only the first rank loads.  It broadcasts its chunks, and the
other ranks build their chunks and their mask from what they receive; they agree
when the mask of the first rank is the union of its chunks.
-/
import CatKV.AsyncPairing
import CatKV.RetrieveMask
import CatKV.WireMessages
import Mathlib.Data.Set.List

namespace CatKV

/-! The metadata of a memory object. -/

structure MemoryObjMetadata where
  shape : List Nat
  dtype : Option TorchDtype
  address : Nat
  phySize : Nat
  refCount : Int
  pinCount : Int := 0
  fmt : MemoryFormat := .undefined
  cachedPositions : Option (List Nat) := none
deriving Repr, DecidableEq

/-- The text of a dtype stands for the attribute of `torch` it names. -/
structure MetadataDict where
  shape : List Nat
  dtype : Option TorchDtype
  address : Nat
  phySize : Nat
  refCount : Int
  fmt : Int
deriving Repr, DecidableEq

def MemoryObjMetadata.toDict (metadata : MemoryObjMetadata) : MetadataDict where
  shape := metadata.shape
  dtype := metadata.dtype
  address := metadata.address
  phySize := metadata.phySize
  refCount := metadata.refCount
  fmt := metadata.fmt.value

def MemoryObjMetadata.fromDict (dict : MetadataDict) : Option MemoryObjMetadata :=
  (MemoryFormat.ofValue dict.fmt).map fun fmt =>
    { shape := dict.shape
      dtype := dict.dtype
      address := dict.address
      phySize := dict.phySize
      refCount := dict.refCount
      fmt := fmt }

/-- What the dictionary does not keep has its default. -/
def MemoryObjMetadata.received (metadata : MemoryObjMetadata) : MemoryObjMetadata :=
  { metadata with pinCount := 0, cachedPositions := none }

theorem MemoryObjMetadata.fromDict_toDict (metadata : MemoryObjMetadata) :
    fromDict metadata.toDict = some metadata.received := by
  have hfmt : MemoryFormat.ofValue metadata.fmt.value = some metadata.fmt := by
    cases metadata.fmt <;> rfl
  simp only [fromDict, toDict, hfmt, Option.map_some, received]

/-! `_broadcast_or_receive_memory_objs`. -/

/-- An object with its tensor, which cannot be had of an object that is
invalidated, has no dtype or is a buffer of bytes. -/
structure TensorContent (τ : Type) where
  metadata : MemoryObjMetadata
  tensor : Option τ

inductive BroadcastKind where
  | object
  | tensor
deriving Repr, DecidableEq

/-- What one call of `broadcast_object_fn` or `broadcast_fn` sends. -/
inductive Broadcast (τ : Type) where
  | chunkCount (count : Option Nat)
  | combinedMetadata (combined : Option (Nat × Nat × MetadataDict))
  | tensor (data : τ)

def Broadcast.kind {τ : Type} : Broadcast τ → BroadcastKind
  | .chunkCount _ => .object
  | .combinedMetadata _ => .object
  | .tensor _ => .tensor

/-- An entry of `reordered_chunks`, without its key. -/
structure RankChunk (τ : Type) where
  start : Nat
  stop : Nat
  metadata : MemoryObjMetadata
  data : τ

/-- A rank in `retrieve`: the broadcasts it has entered, the last of which it
may wait in, and whether it gets through. -/
structure RankRun (τ : Type) where
  entered : List BroadcastKind
  retMask : List Bool
  reorderedChunks : List (RankChunk τ)
  returned : Bool

variable {ν κ μ τ : Type}

/-- What the first rank sends for its chunks, the chunks it has sent, and
whether all tensors could be had. -/
def broadcastChunks (content : μ → TensorContent τ) :
    List (TokenChunk κ × μ) → List (Broadcast τ) × List (RankChunk τ) × Bool
  | [] => ([], [], true)
  | (chunk, memoryObj) :: rest =>
    let metadata := (content memoryObj).metadata
    let combined := .combinedMetadata (some (chunk.start, chunk.stop, metadata.toDict))
    match (content memoryObj).tensor with
    | none => ([combined], [], false)
    | some data =>
      let later := broadcastChunks content rest
      (combined :: .tensor data :: later.1, ⟨chunk.start, chunk.stop, metadata, data⟩ :: later.2.1,
        later.2.2)

/-- The broadcasts of the first rank; it makes none when `retrieve` has raised
before. -/
def firstRankBroadcasts (content : μ → TensorContent τ) :
    Option (Retrieved κ μ) → List (Broadcast τ)
  | none => []
  | some retrieved =>
    .chunkCount (some retrieved.reorderedChunks.length) ::
      (broadcastChunks content retrieved.reorderedChunks).1

def firstRank (content : μ → TensorContent τ) (length : Nat)
    (processed : Option (Retrieved κ μ)) : RankRun τ :=
  let entered := (firstRankBroadcasts content processed).map Broadcast.kind
  match processed with
  | none => ⟨entered, List.replicate length false, [], false⟩
  | some retrieved =>
    let sent := broadcastChunks content retrieved.reorderedChunks
    ⟨entered, retrieved.retMask, sent.2.1, sent.2.2⟩

namespace RankRun

def enter (run : RankRun τ) (kind : BroadcastKind) : RankRun τ :=
  { run with entered := run.entered ++ [kind] }

/-- The loop of a rank that receives so many chunks. -/
def receiveChunks : Nat → List (Broadcast τ) → RankRun τ → RankRun τ
  | 0, _, run => { run with returned := true }
  | count + 1, .combinedMetadata combined :: rest, run =>
    let run := run.enter .object
    match combined with
    | none => { run with returned := true }
    | some (start, stop, dict) =>
      let run := { run with retMask := setRange run.retMask start stop true }
      match MemoryObjMetadata.fromDict dict, rest with
      | none, _ => run
      | some metadata, .tensor data :: rest =>
        let run := run.enter .tensor
        receiveChunks count rest { run with
          reorderedChunks := run.reorderedChunks ++ [⟨start, stop, metadata, data⟩] }
      | some _, _ => run.enter .tensor
  | _ + 1, _, run => run.enter .object

/-- A rank that is not the first, with what the first one sends. -/
def receive (length : Nat) (broadcasts : List (Broadcast τ)) : RankRun τ :=
  let run : RankRun τ := ⟨[.object], List.replicate length false, [], false⟩
  match broadcasts with
  | .chunkCount none :: _ => { run with returned := true }
  | .chunkCount (some count) :: rest => receiveChunks count rest run
  | _ => run

end RankRun

/-- Rank 0 is the first one. -/
def retrieveOn (content : μ → TensorContent τ) (length : Nat)
    (processed : Option (Retrieved κ μ)) : Nat → RankRun τ
  | 0 => firstRank content length processed
  | _ + 1 => .receive length (firstRankBroadcasts content processed)

/-! Agreement. -/

/-- What is handed to the GPU connector. -/
def RankChunk.view (chunk : RankChunk τ) :
    Nat × Nat × List Nat × Option TorchDtype × MemoryFormat × τ :=
  (chunk.start, chunk.stop, chunk.metadata.shape, chunk.metadata.dtype, chunk.metadata.fmt,
    chunk.data)

def RankChunk.received (chunk : RankChunk τ) : RankChunk τ :=
  { chunk with metadata := chunk.metadata.received }

/-- Every rank returns, after the same broadcasts as the first one and with its
chunks and its mask. -/
def RanksAgree (ranks : Nat) (run : Nat → RankRun τ) : Prop :=
  ∀ rank < ranks, (run rank).returned = true ∧ (run rank).entered = (run 0).entered ∧
    (run rank).reorderedChunks.map RankChunk.view = (run 0).reorderedChunks.map RankChunk.view ∧
    (run rank).retMask = (run 0).retMask

section Broadcast

variable {content : μ → TensorContent τ} {chunks : List (TokenChunk κ × μ)}

theorem broadcastChunks_returned_iff : (broadcastChunks content chunks).2.2 = true ↔
    ∀ entry ∈ chunks, (content entry.2).tensor.isSome := by
  induction chunks with
  | nil => simp [broadcastChunks]
  | cons entry rest ih =>
    rw [List.forall_mem_cons, broadcastChunks]
    cases htensor : (content entry.2).tensor with
    | none => simp
    | some data => simpa using ih

theorem receiveChunks_broadcastChunks
    (htensors : ∀ entry ∈ chunks, (content entry.2).tensor.isSome) (run : RankRun τ) :
    RankRun.receiveChunks chunks.length (broadcastChunks content chunks).1 run =
      ⟨run.entered ++ (broadcastChunks content chunks).1.map Broadcast.kind,
        markLocated (chunks.map Prod.swap) run.retMask,
        run.reorderedChunks ++ (broadcastChunks content chunks).2.1.map RankChunk.received,
        true⟩ := by
  induction chunks generalizing run with
  | nil => simp [RankRun.receiveChunks, broadcastChunks, markLocated]
  | cons entry rest ih =>
    rw [List.forall_mem_cons] at htensors
    obtain ⟨data, hdata⟩ := Option.isSome_iff_exists.mp htensors.1
    simp only [broadcastChunks, hdata, List.length_cons, RankRun.receiveChunks,
      MemoryObjMetadata.fromDict_toDict, RankRun.enter, ih htensors.2]
    simp [Broadcast.kind, markLocated, RankChunk.received]

theorem retrieveOn_succ {retrieved : Retrieved κ μ}
    (htensors : ∀ entry ∈ retrieved.reorderedChunks, (content entry.2).tensor.isSome)
    (length rank : Nat) : retrieveOn content length (some retrieved) (rank + 1) =
      ⟨(firstRankBroadcasts content (some retrieved)).map Broadcast.kind,
        markLocated (retrieved.reorderedChunks.map Prod.swap) (List.replicate length false),
        (broadcastChunks content retrieved.reorderedChunks).2.1.map RankChunk.received, true⟩ :=
  receiveChunks_broadcastChunks htensors _

/-- The ranks agree when the first one gets through and, if there is another,
its mask is what its chunks mark. -/
theorem ranksAgree_iff (length others : Nat) (processed : Option (Retrieved κ μ)) :
    RanksAgree (others + 1) (retrieveOn content length processed) ↔
      ∃ retrieved, processed = some retrieved ∧
        (∀ entry ∈ retrieved.reorderedChunks, (content entry.2).tensor.isSome) ∧
        (others = 0 ∨ retrieved.retMask = markLocated (retrieved.reorderedChunks.map Prod.swap)
          (List.replicate length false)) := by
  cases processed with
  | none =>
    constructor
    · intro hagree
      cases (hagree 0 (Nat.succ_pos _)).1
    · rintro ⟨_, ⟨⟩, -⟩
  | some retrieved =>
    simp only [Option.some.injEq, exists_eq_left', ← broadcastChunks_returned_iff]
    constructor
    · intro hagree
      have hreturned := (hagree 0 (Nat.succ_pos _)).1
      refine ⟨hreturned, ?_⟩
      rcases Nat.eq_zero_or_pos others with hzero | hpos
      · exact Or.inl hzero
      · have hmask := (hagree 1 (Nat.succ_lt_succ hpos)).2.2.2
        rw [retrieveOn_succ (broadcastChunks_returned_iff.mp hreturned)] at hmask
        exact Or.inr hmask.symm
    · rintro ⟨hreturned, hmask⟩ rank hrank
      cases rank with
      | zero => exact ⟨hreturned, rfl, rfl, rfl⟩
      | succ rank =>
        have hothers : others ≠ 0 := by omega
        rw [retrieveOn_succ (broadcastChunks_returned_iff.mp hreturned)]
        refine ⟨rfl, rfl, ?_, (hmask.resolve_left hothers).symm⟩
        rw [List.map_map]
        rfl

end Broadcast

/-! The two ways of loading. -/

theorem mask_eq_iff {left right : List Bool} (hlength : left.length = right.length) : left = right ↔
    ∀ position : Nat, left[position]? = some true ↔ right[position]? = some true := by
  constructor
  · rintro rfl
    exact fun _ => Iff.rfl
  · intro hsame
    refine List.ext_getElem hlength fun position hleft hright => ?_
    have hposition := hsame position
    rw [List.getElem?_eq_getElem hleft, List.getElem?_eq_getElem hright] at hposition
    simpa using hposition

/-- The chunks that the first rank keeps: those a location gives before its
failure and, if one fails, that end before the last of the failed starts. -/
def KeptChunk [DecidableEq ν] (storage : StorageManager ν κ μ) (located : List (ν × TokenChunk κ))
    (item : TokenChunk κ × μ) : Prop :=
  (∃ entry ∈ blockMapping located, item ∈ (collectBlocks (entryResults storage entry)).1) ∧
    ((∀ entry ∈ blockMapping located, (collectBlocks (entryResults storage entry)).2 = none) ∨
      ∃ entry ∈ blockMapping located, ∃ start,
        (collectBlocks (entryResults storage entry)).2 = some start ∧ item.1.stop < start)

/-- The objects of the event are enough for the chunks, none is missing, and
those for the chunks have tensors. -/
structure LoadsTensors (loaded : LoadedObj κ → TensorContent τ) (chunkCount : Nat)
    (objects : List (Option (LoadedObj κ))) : Prop where
  enough : chunkCount ≤ objects.length
  present : none ∉ objects
  tensors : ∀ obj, some obj ∈ objects.take chunkCount → (loaded obj).tensor.isSome

theorem exists_masked {database : ChunkedTokenDatabase κ} {tokens : List Nat} {falses : Nat}
    {yielded : List (TokenChunk κ)} (hyielded : database.processTokens tokens falses =
      some yielded) :
    ∃ masked, falses = masked * database.chunkSize ∧
      yielded = (database.chunks tokens).drop masked := by
  have hmultiple : falses % database.chunkSize = 0 := by
    by_contra hnot
    rw [ChunkedTokenDatabase.processTokens, if_pos hnot] at hyielded
    cases hyielded
  obtain ⟨masked, rfl⟩ := exists_eq_mul_left_of_dvd (Nat.dvd_of_mod_eq_zero hmultiple)
  rw [database.processTokens_eq] at hyielded
  cases hyielded
  exact ⟨masked, rfl, rfl⟩

section Retrieve

variable [DecidableEq ν] {database : ChunkedTokenDatabase κ} {storage : StorageManager ν κ μ}
  {tokens : List Nat} {mask : Option (List Bool)} {retrieved : Retrieved κ μ}
  (hretrieve : LMCacheEngine.retrieve database storage tokens mask = some retrieved)

include hretrieve

theorem mem_reorderedChunks_iff {masked : Nat}
    (hfalses : numFalses mask = masked * database.chunkSize) (item : TokenChunk κ × μ) :
    item ∈ retrieved.reorderedChunks ↔
      KeptChunk storage (locateChunks storage ((database.chunks tokens).drop masked)) item := by
  obtain ⟨fetched, hfetch, hfetched⟩ := fetched_retrieve storage tokens hfalses
  rw [← Option.some.inj (hfetch.symm.trans hretrieve), cutBack, KeptChunk, ← hfetched.chunks]
  cases hlast : fetched.lastFailedBlockStart with
  | none =>
    refine (and_iff_left (Or.inl fun entry hentry => ?_)).symm
    refine Option.eq_none_iff_forall_ne_some.mpr fun start hstart => ?_
    obtain ⟨last, hsome, -⟩ := hfetched.largest entry hentry start hstart
    cases hlast.symm.trans hsome
  | some last =>
    rw [List.mem_filter, decide_eq_true_eq]
    refine and_congr_right fun _ => ⟨fun hlt => ?_, ?_⟩
    · obtain ⟨entry, hentry, hfailed⟩ := hfetched.failed last hlast
      exact Or.inr ⟨entry, hentry, last, hfailed, hlt⟩
    · rintro (hnone | ⟨entry, hentry, start, hstart, hlt⟩)
      · obtain ⟨entry, hentry, hfailed⟩ := hfetched.failed last hlast
        cases (hnone entry hentry).symm.trans hfailed
      · obtain ⟨other, hother, hle⟩ := hfetched.largest entry hentry start hstart
        cases hlast.symm.trans hother
        omega

theorem retMask_eq_marked_iff {masked : Nat}
    (hfalses : numFalses mask = masked * database.chunkSize) :
    retrieved.retMask = markLocated (retrieved.reorderedChunks.map Prod.swap)
        (List.replicate tokens.length false) ↔
      FailsFirstOrNever storage (locateChunks storage ((database.chunks tokens).drop masked)) := by
  obtain ⟨upper, htiles, hlength⟩ := database.tiles_drop_chunks tokens masked
  obtain ⟨fetched, hfetch, hfetched⟩ := fetched_retrieve storage tokens hfalses
  have hcut := Option.some.inj (hfetch.symm.trans hretrieve)
  have hlengths : retrieved.retMask.length = (markLocated
      (retrieved.reorderedChunks.map Prod.swap) (List.replicate tokens.length false)).length := by
    rw [← hcut, cutBack]
    split <;> simp
  rw [mask_eq_iff hlengths]
  have hcovered : ∀ position : Nat, (∃ entry ∈ retrieved.reorderedChunks.map Prod.swap,
          entry.2.start ≤ position ∧ position < entry.2.stop) ↔
        ∃ entry ∈ retrieved.reorderedChunks,
          entry.1.start ≤ position ∧ position < entry.1.stop := by
    intro position
    constructor
    · rintro ⟨_, hswapped, hcover⟩
      obtain ⟨entry, hentry, rfl⟩ := List.mem_map.mp hswapped
      exact ⟨entry, hentry, hcover⟩
    · rintro ⟨entry, hentry, hcover⟩
      exact ⟨_, List.mem_map_of_mem hentry, hcover⟩
  simp only [getElem?_markLocated_replicate, hcovered]
  constructor
  · exact fun hsame => failsFirstOrNever_of_covered htiles hlength hfetched hcut
      fun position htrue => ((hsame position).mp htrue).2
  · intro hfails position
    have hexact := maskExact_of_failsFirstOrNever htiles hlength hfetched hfails
    rw [hcut] at hexact
    rw [hexact.1 position]
    refine ⟨fun hcover => ⟨?_, hcover⟩, And.right⟩
    have hlt := (List.getElem?_eq_some_iff.mp ((hexact.1 position).mpr hcover)).1
    simpa [hlengths] using hlt

end Retrieve

theorem retMask_of_asyncProcess {database : ChunkedTokenDatabase κ}
    {event : Option (Option (List (List (Option (LoadedObj κ)))))} {tokens : List Nat}
    {mask : Option (List Bool)} {retrieved : Retrieved κ (LoadedObj κ)}
    (hprocess : asyncProcessTokensInternal database event tokens mask = some retrieved) :
    retrieved.retMask = markLocated (retrieved.reorderedChunks.map Prod.swap)
      (List.replicate tokens.length false) := by
  simp only [asyncProcessTokensInternal, Option.bind_eq_some_iff] at hprocess
  obtain ⟨loaded, -, yielded, -, chunks, -, hchunks⟩ := hprocess
  split at hchunks
  · cases hchunks
  · cases hchunks
    rw [markChunks, markLocated, List.foldl_map]
    rfl

/-- Loading asynchronously gets through with tensors when the event has them. -/
theorem asyncProcess_tensors_iff (database : ChunkedTokenDatabase κ)
    (event : Option (Option (List (List (Option (LoadedObj κ))))))
    (loaded : LoadedObj κ → TensorContent τ) (tokens : List Nat) (mask : Option (List Bool)) :
    (∃ retrieved, asyncProcessTokensInternal database event tokens mask = some retrieved ∧
        ∀ entry ∈ retrieved.reorderedChunks, (loaded entry.2).tensor.isSome) ↔
      ∃ objects masked, event = some (some objects) ∧
        numFalses mask = masked * database.chunkSize ∧
        LoadsTensors loaded ((database.chunks tokens).drop masked).length objects.flatten := by
  constructor
  · rintro ⟨retrieved, hprocess, htensors⟩
    have hprocessed := hprocess
    simp only [asyncProcessTokensInternal, Option.bind_eq_some_iff] at hprocess
    obtain ⟨objects, hevent, yielded, hyielded, -⟩ := hprocess
    obtain ⟨masked, hfalses, rfl⟩ := exists_masked hyielded
    have hevent := Option.join_eq_some_iff.mp hevent
    subst hevent
    obtain ⟨hfst, hsnd, hnone⟩ := (asyncProcessTokensInternal_eq_some_iff hyielded objects _).mp
      ⟨retrieved, hprocessed, rfl⟩
    refine ⟨objects, masked, rfl, hfalses, ?_, hnone, fun obj hobj => ?_⟩
    · have hlength := congrArg List.length hsnd
      rw [← hfst, List.length_map, List.length_map, List.length_take] at *
      omega
    · rw [← hsnd] at hobj
      obtain ⟨entry, hentry, hobj⟩ := List.mem_map.mp hobj
      cases hobj
      exact htensors entry hentry
  · rintro ⟨objects, masked, rfl, hfalses, henough, hnone, htensors⟩
    have hyielded := database.processTokens_eq tokens masked
    rw [← hfalses] at hyielded
    obtain ⟨keys, hkeys⟩ : objects.flatten ∈
        Set.range (List.map fun key : κ => some (LoadedObj.mk key)) := by
      rw [Set.range_list_map]
      rintro (_ | obj) hobj
      · exact absurd hobj hnone
      · exact ⟨obj.key, rfl⟩
    rw [← hkeys, List.length_map] at henough
    obtain ⟨chunks, hfst, hsnd⟩ := exists_pairs henough
    rw [← map_objs_eq_iff, List.map_take, hkeys] at hsnd
    obtain ⟨retrieved, hretrieved, rfl⟩ := (asyncProcessTokensInternal_eq_some_iff hyielded
      objects chunks).mpr ⟨hfst, hsnd, hnone⟩
    refine ⟨retrieved, hretrieved, fun entry hentry => htensors entry.2 ?_⟩
    rw [← hsnd]
    exact List.mem_map_of_mem hentry

/-- For every number of ranks, token list, mask, storage and event.  With
asynchronous loading the mask is that of the chunks; without it is so when no
fetch fails, or already the first one and no other backend's. -/
theorem ranksAgree_retrieve_iff [DecidableEq ν] (database : ChunkedTokenDatabase κ)
    (storage : StorageManager ν κ μ) (content : μ → TensorContent τ)
    (event : Option (Option (List (List (Option (LoadedObj κ))))))
    (loaded : LoadedObj κ → TensorContent τ) (tokens : List Nat) (mask : Option (List Bool))
    (others : Nat) :
    (RanksAgree (others + 1) (retrieveOn content tokens.length
        (LMCacheEngine.retrieve database storage tokens mask)) ↔
      ∃ masked, numFalses mask = masked * database.chunkSize ∧
        (∀ item, KeptChunk storage (locateChunks storage ((database.chunks tokens).drop masked))
          item → (content item.2).tensor.isSome) ∧
        (others = 0 ∨ FailsFirstOrNever storage
          (locateChunks storage ((database.chunks tokens).drop masked)))) ∧
    (RanksAgree (others + 1) (retrieveOn loaded tokens.length
        (asyncProcessTokensInternal database event tokens mask)) ↔
      ∃ objects masked, event = some (some objects) ∧
        numFalses mask = masked * database.chunkSize ∧
        LoadsTensors loaded ((database.chunks tokens).drop masked).length objects.flatten) := by
  rw [ranksAgree_iff, ranksAgree_iff, ← asyncProcess_tensors_iff]
  constructor
  · constructor
    · rintro ⟨retrieved, hretrieve, htensors, hmask⟩
      obtain ⟨chunks, hchunks, -⟩ := Option.bind_eq_some_iff.mp hretrieve
      obtain ⟨masked, hfalses, -⟩ := exists_masked hchunks
      exact ⟨masked, hfalses, fun item hitem =>
          htensors item ((mem_reorderedChunks_iff hretrieve hfalses item).mpr hitem),
        hmask.imp_right (retMask_eq_marked_iff hretrieve hfalses).mp⟩
    · rintro ⟨masked, hfalses, htensors, hfails⟩
      obtain ⟨fetched, hretrieve, -⟩ := fetched_retrieve storage tokens hfalses
      exact ⟨_, hretrieve, fun item hitem =>
          htensors item ((mem_reorderedChunks_iff hretrieve hfalses item).mp hitem),
        hfails.imp_right (retMask_eq_marked_iff hretrieve hfalses).mpr⟩
  · refine exists_congr fun retrieved => and_congr_right fun hprocess => ?_
    exact and_iff_left (Or.inr (retMask_of_asyncProcess hprocess))

/-- The second of two chunks cannot be fetched: the first rank has the first
position in its mask, the second rank received no chunk and has none. -/
theorem not_ranksAgree_of_second_failed : ¬ RanksAgree 2 (retrieveOn
    (fun _ : Unit => ⟨⟨[1], some .float16, 0, 2, 1, 0, .kvMlaFmt, none⟩, some 7⟩) 2
    (LMCacheEngine.retrieve tokenwise [((), backendOf [1, 2] [1])] [5, 6] none)) := by
  intro hagree
  have hmask := (hagree 1 (by decide)).2.2.2
  revert hmask
  decide +kernel

end CatKV
