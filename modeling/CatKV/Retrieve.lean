/-
`LMCacheEngine.retrieve` on the synchronous path.  Chunks are located one after
the other up to the first absent one, fetched backend by backend, and cut back
when a fetch fails.
-/
import CatKV.ChunkedTokens

namespace CatKV

open List

/-! The storage manager. -/

/-- What a storage backend answers; a batch has one result per key. -/
structure SyncBackend (κ μ : Type) where
  contains : κ → Bool
  batchedGetBlocking : List κ → List (Option μ)
  length_batchedGetBlocking : ∀ keys, (batchedGetBlocking keys).length = keys.length

/-- The backends by name, in the order they are searched. -/
abbrev StorageManager (ν κ μ : Type) := List (ν × SyncBackend κ μ)

variable {ν κ μ : Type}

def StorageManager.contains (storage : StorageManager ν κ μ) (key : κ) : Option ν :=
  (storage.find? fun entry => entry.2.contains key).map Prod.fst

/-! `_process_tokens_internal`. -/

/-- `mask[start:stop] = value`. -/
def setRange (mask : List Bool) (start stop : Nat) (value : Bool) : List Bool :=
  mask.mapIdx fun position bit =>
    if start ≤ position ∧ position < stop then value else bit

/-- The chunks up to the first one that no backend has. -/
def locateChunks (storage : StorageManager ν κ μ) : List (TokenChunk κ) → List (ν × TokenChunk κ)
  | [] => []
  | chunk :: rest =>
    match storage.contains chunk.key with
    | none => []
    | some location => (location, chunk) :: locateChunks storage rest

/-- The chunks of one backend up to its first failure, and where that one
starts. -/
def collectBlocks : List (TokenChunk κ × Option μ) → List (TokenChunk κ × μ) × Option Nat
  | [] => ([], none)
  | (chunk, none) :: _ => ([], some chunk.start)
  | (chunk, some memoryObj) :: rest =>
    ((chunk, memoryObj) :: (collectBlocks rest).1, (collectBlocks rest).2)

structure Fetched (κ μ : Type) where
  reorderedChunks : List (TokenChunk κ × μ)
  lastFailedBlockStart : Option Nat

/-- The larger start replaces the one that was kept. -/
def laterStart (kept failed : Option Nat) : Option Nat :=
  match kept, failed with
  | none, failed => failed
  | some start, none => some start
  | some start, some other =>
    if start < other then some other else some start

/-- The mask and the chunks for the GPU. -/
structure Retrieved (κ μ : Type) where
  retMask : List Bool
  reorderedChunks : List (TokenChunk κ × μ)

def cutBack (retMask : List Bool) (fetched : Fetched κ μ) : Retrieved κ μ :=
  match fetched.lastFailedBlockStart with
  | none => ⟨retMask, fetched.reorderedChunks⟩
  | some failed =>
    ⟨setRange retMask failed retMask.length false, fetched.reorderedChunks.filter fun entry =>
        decide (entry.1.stop < failed)⟩

def markLocated (located : List (ν × TokenChunk κ)) (retMask : List Bool) : List Bool :=
  located.foldl (fun mask entry =>
    setRange mask entry.2.start entry.2.stop true) retMask

section Locations

variable [DecidableEq ν]

def StorageManager.batchedGet (storage : StorageManager ν κ μ) (keys : List κ)
    (location : ν) : Option (List (Option μ)) :=
  storage.findSome? fun entry =>
    if entry.1 ≠ location then none
    else if (entry.2.batchedGetBlocking keys).isEmpty then none
    else some (entry.2.batchedGetBlocking keys)

/-- One entry more in `block_mapping`. -/
def appendBlock (location : ν) (chunk : TokenChunk κ) :
    List (ν × List (TokenChunk κ)) → List (ν × List (TokenChunk κ))
  | [] => [(location, [chunk])]
  | (name, blocks) :: rest =>
    if name = location then (name, blocks ++ [chunk]) :: rest
    else (name, blocks) :: appendBlock location chunk rest

def blockMapping (located : List (ν × TokenChunk κ)) : List (ν × List (TokenChunk κ)) :=
  located.foldl (fun mapping entry => appendBlock entry.1 entry.2 mapping) []

/-- One round of the loop over the locations; it raises when the backend has
nothing. -/
def fetchBlocks (storage : StorageManager ν κ μ) (fetched : Fetched κ μ)
    (entry : ν × List (TokenChunk κ)) : Option (Fetched κ μ) :=
  (storage.batchedGet (entry.2.map (·.key)) entry.1).map fun memoryObjs =>
    let collected := collectBlocks (entry.2.zip memoryObjs)
    ⟨fetched.reorderedChunks ++ collected.1, laterStart fetched.lastFailedBlockStart collected.2⟩

def processTokensInternal (storage : StorageManager ν κ μ)
    (chunks : List (TokenChunk κ)) (retMask : List Bool) :
    Option (Retrieved κ μ) :=
  let located := locateChunks storage chunks
  ((blockMapping located).foldlM (fetchBlocks storage) ⟨[], none⟩).map
    (cutBack (markLocated located retMask))

/-- `retrieve`: the returned mask, and the chunks given to `batched_to_gpu`. -/
def LMCacheEngine.retrieve (database : ChunkedTokenDatabase κ)
    (storage : StorageManager ν κ μ) (tokens : List Nat)
    (mask : Option (List Bool)) : Option (Retrieved κ μ) :=
  (database.processTokens tokens (numFalses mask)).bind fun chunks =>
    processTokensInternal storage chunks (List.replicate tokens.length false)

end Locations

/-! Locating. -/

/-- The run of available chunks from a position on ends there: at the start of
the first one that is not available, or at the end of the last. -/
def EndsAt (available : TokenChunk κ → Prop) : Nat → List (TokenChunk κ) → Nat → Prop
  | position, [], stop => stop = position
  | _, chunk :: rest, stop =>
    (available chunk ∧ EndsAt available chunk.stop rest stop) ∨
      (¬ available chunk ∧ stop = chunk.start)

variable {storage : StorageManager ν κ μ} {chunks : List (TokenChunk κ)}

theorem contains_of_mem_locateChunks {entry : ν × TokenChunk κ}
    (hentry : entry ∈ locateChunks storage chunks) :
    storage.contains entry.2.key = some entry.1 := by
  induction chunks with
  | nil => cases hentry
  | cons chunk rest ih =>
    unfold locateChunks at hentry
    split at hentry
    · cases hentry
    · next location hlocation =>
      rcases mem_cons.mp hentry with rfl | htail
      · exact hlocation
      · exact ih htail

theorem tiles_locateChunks (storage : StorageManager ν κ μ) {lower upper : Nat}
    (htiles : Tiles TokenChunk.start TokenChunk.stop lower chunks upper) :
    ∃ stop, Tiles (fun entry => entry.2.start) (fun entry => entry.2.stop)
      lower (locateChunks storage chunks) stop := by
  induction chunks generalizing lower with
  | nil => exact ⟨lower, rfl⟩
  | cons chunk rest ih =>
    obtain ⟨hstart, hlt, hrest⟩ := htiles
    unfold locateChunks
    split
    · exact ⟨lower, rfl⟩
    · obtain ⟨stop, hstop⟩ := ih hrest
      exact ⟨stop, hstart, hlt, hstop⟩

theorem mem_of_mem_locateChunks {entry : ν × TokenChunk κ}
    (hentry : entry ∈ locateChunks storage chunks) : entry.2 ∈ chunks := by
  induction chunks with
  | nil => cases hentry
  | cons chunk rest ih =>
    unfold locateChunks at hentry
    split at hentry
    · cases hentry
    · rcases mem_cons.mp hentry with rfl | htail
      · exact mem_cons_self
      · exact mem_cons_of_mem _ (ih htail)

theorem chunks_of_located {first : ν × TokenChunk κ} {rest : List (ν × TokenChunk κ)}
    (hfirst : locateChunks storage chunks = first :: rest) : ∃ more, chunks = first.2 :: more := by
  cases chunks with
  | nil => cases hfirst
  | cons chunk more =>
    unfold locateChunks at hfirst
    split at hfirst
    · cases hfirst
    · cases hfirst
      exact ⟨more, rfl⟩

theorem endsAt_of_located {available : TokenChunk κ → Prop} {lower upper stop : Nat}
    (htiles : Tiles TokenChunk.start TokenChunk.stop lower chunks upper)
    (hlocated : Tiles (fun entry => entry.2.start) (fun entry => entry.2.stop)
      lower (locateChunks storage chunks) stop)
    (hall : ∀ entry ∈ locateChunks storage chunks, available entry.2)
    (habsent : ∀ chunk, storage.contains chunk.key = none →
      ¬ available chunk) : EndsAt available lower chunks stop := by
  induction chunks generalizing lower with
  | nil => exact hlocated.symm
  | cons chunk rest ih =>
    obtain ⟨hstart, hlt, hrest⟩ := htiles
    unfold locateChunks at hlocated hall
    split at hlocated
    · next hnone =>
      exact Or.inr ⟨habsent chunk hnone, (hstart.trans (show lower = stop from hlocated)).symm⟩
    · next location hlocation =>
      simp only [hlocation] at hall
      refine Or.inl ⟨hall _ mem_cons_self, ?_⟩
      exact ih hrest hlocated.2.2 fun entry hentry =>
        hall entry (mem_cons_of_mem _ hentry)

/-! The mask. -/

@[simp]
theorem length_setRange (mask : List Bool) (start stop : Nat) (value : Bool) :
    (setRange mask start stop value).length = mask.length := by
  simp [setRange]

theorem getElem?_setRange (mask : List Bool) (start stop : Nat) (value : Bool) (position : Nat) :
    (setRange mask start stop value)[position]? = mask[position]?.map fun bit =>
      if start ≤ position ∧ position < stop then value else bit := by
  rw [setRange, getElem?_mapIdx]

@[simp]
theorem length_markLocated (located : List (ν × TokenChunk κ))
    (mask : List Bool) : (markLocated located mask).length = mask.length := by
  induction located generalizing mask with
  | nil => rfl
  | cons entry rest ih =>
    rw [markLocated, foldl_cons]
    exact (ih _).trans (length_setRange ..)

theorem getElem?_markLocated (located : List (ν × TokenChunk κ))
    (mask : List Bool) (position : Nat) :
    (markLocated located mask)[position]? = some true ↔
      mask[position]? = some true ∨ position < mask.length ∧
        ∃ entry ∈ located, entry.2.start ≤ position ∧ position < entry.2.stop := by
  induction located generalizing mask with
  | nil => simp [markLocated]
  | cons entry rest ih =>
    rw [markLocated, foldl_cons]
    refine (ih _).trans ?_
    rw [getElem?_setRange, length_setRange]
    by_cases hlt : position < mask.length
    · by_cases hcover : entry.2.start ≤ position ∧ position < entry.2.stop
      · simp [hlt, hcover]
      · simp [hlt, hcover]
    · simp [hlt]

theorem getElem?_markLocated_replicate (located : List (ν × TokenChunk κ)) (length position : Nat) :
    (markLocated located (List.replicate length false))[position]? = some true ↔
      position < length ∧ ∃ entry ∈ located, entry.2.start ≤ position ∧ position < entry.2.stop := by
  have hfalse : (List.replicate length false)[position]? ≠ some true := by
    rw [getElem?_replicate]
    split <;> simp
  rw [getElem?_markLocated, length_replicate]
  simp only [hfalse, false_or]

theorem marked_iff (storage : StorageManager ν κ μ) {length : Nat}
    (hlength : ∀ chunk ∈ chunks, chunk.stop ≤ length) (position : Nat) :
    (markLocated (locateChunks storage chunks)
      (List.replicate length false))[position]? = some true ↔
    ∃ entry ∈ locateChunks storage chunks, entry.2.start ≤ position ∧ position < entry.2.stop := by
  rw [getElem?_markLocated_replicate]
  refine ⟨And.right, fun hcover => ⟨?_, hcover⟩⟩
  obtain ⟨entry, hentry, -, hlt⟩ := hcover
  exact hlt.trans_le (hlength entry.2 (mem_of_mem_locateChunks hentry))

theorem cutBack_iff {length : Nat} {fetched : Fetched κ μ}
    (hlength : ∀ chunk ∈ chunks, chunk.stop ≤ length) {last : Nat}
    (hlast : fetched.lastFailedBlockStart = some last) (position : Nat) :
    (cutBack (markLocated (locateChunks storage chunks)
      (List.replicate length false)) fetched).retMask[position]? = some true ↔
    position < last ∧ ∃ entry ∈ locateChunks storage chunks,
      entry.2.start ≤ position ∧ position < entry.2.stop := by
  have hmarked := marked_iff storage hlength position
  simp only [cutBack, hlast, getElem?_setRange, Option.map_eq_some_iff,
    length_markLocated, length_replicate]
  rw [← hmarked]
  constructor
  · rintro ⟨bit, hbit, hset⟩
    have hlt : position < length := by
      simpa using (List.getElem?_eq_some_iff.mp hbit).1
    split at hset
    · cases hset
    · exact ⟨by omega, hset ▸ hbit⟩
  · rintro ⟨hlt, hbit⟩
    exact ⟨true, hbit, if_neg (by omega)⟩

end CatKV
