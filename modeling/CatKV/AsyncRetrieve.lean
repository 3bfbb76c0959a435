/-
Retrieving with `async_loading`.  A lookup asks the backends in turn for a
prefix of the keys and starts a load of it; `retrieve` later takes the loaded
objects one by one along the chunks of its own tokens and mask.
-/
import CatKV.Retrieve

namespace CatKV

variable {ν κ : Type}

/-- What the load of a backend does about a chunk that is gone. -/
inductive MissingChunk where
  /-- `LocalCPUBackend`, `LocalDiskBackend`. -/
  | raises
  /-- `MockConnector`. -/
  | keptNone
  /-- `RedisConnector`, and a remote backend that has lost its connection. -/
  | dropped
deriving Repr, DecidableEq

/-- A backend as one lookup finds it: the keys it has when it is asked, and
those that are gone when their load runs. -/
structure AsyncBackend (κ : Type) where
  missing : MissingChunk
  contains : κ → Bool
  lost : κ → Bool

/-- A memory object, by the key it was loaded for. -/
structure LoadedObj (κ : Type) where
  key : κ
deriving Repr, DecidableEq

namespace AsyncBackend

/-- `batched_async_contains` counts the keys up to the first absent one. -/
def batchedAsyncContains (backend : AsyncBackend κ) (keys : List κ) : Nat :=
  (keys.takeWhile backend.contains).length

def get (backend : AsyncBackend κ) (key : κ) : Option (LoadedObj κ) :=
  if backend.lost key then none else some ⟨key⟩

def batchedGetNonBlocking (backend : AsyncBackend κ) (keys : List κ) :
    Option (List (Option (LoadedObj κ))) :=
  match backend.missing with
  | .raises =>
    if keys.any backend.lost then none else some (keys.map backend.get)
  | .keptNone => some (keys.map backend.get)
  | .dropped => some ((keys.map backend.get).filter (·.isSome))

end AsyncBackend

/-! `async_lookup_and_prefetch`. -/

/-- An empty search range is no range. -/
def inSearchRange [DecidableEq ν] (searchRange : Option (List ν)) (name : ν) : Bool :=
  match searchRange with
  | none => true
  | some range => range.isEmpty || range.contains name

/-- The number of hits after the loop over the backends, and the loads that it
starts. -/
def lookupLoop [DecidableEq ν] (searchRange : Option (List ν))
    (numTotalChunks : Nat) : List (ν × AsyncBackend κ) → Nat → List κ →
      Nat × List (AsyncBackend κ × List κ)
  | [], numTotalHitChunks, _ => (numTotalHitChunks, [])
  | (name, backend) :: rest, numTotalHitChunks, keys =>
    if !inSearchRange searchRange name then
      lookupLoop searchRange numTotalChunks rest numTotalHitChunks keys
    else
      let numHitChunks := backend.batchedAsyncContains keys
      if numHitChunks = 0 then lookupLoop searchRange numTotalChunks rest numTotalHitChunks keys
      else
        let task := (backend, keys.take numHitChunks)
        if numTotalHitChunks + numHitChunks = numTotalChunks then
          (numTotalHitChunks + numHitChunks, [task])
        else
          let later := lookupLoop searchRange numTotalChunks rest
            (numTotalHitChunks + numHitChunks) (keys.drop numHitChunks)
          (later.1, task :: later.2)

/-- `asyncio.gather` over the loads: it raises when one of them does. -/
def gather (loadingTasks : List (AsyncBackend κ × List κ)) :
    Option (List (List (Option (LoadedObj κ)))) :=
  loadingTasks.mapM fun task => task.1.batchedGetNonBlocking task.2

/-- The length that is sent to the scheduler, and the result of the event, if
one is added at all. -/
structure Lookup (κ : Type) where
  retrievedLength : Nat
  event : Option (Option (List (List (Option (LoadedObj κ)))))

def StorageManager.asyncLookupAndPrefetch [DecidableEq ν]
    (storage : List (ν × AsyncBackend κ)) (keys : List κ)
    (cumChunkLengths : List Nat) (searchRange : Option (List ν)) :
    Option (Lookup κ) :=
  let looked := lookupLoop searchRange keys.length storage 0 keys
  if looked.1 = 0 then some ⟨0, none⟩
  else cumChunkLengths[looked.1]?.map fun retrievedLength =>
    ⟨retrievedLength, some (gather looked.2)⟩

def LMCacheEngine.asyncLookupAndPrefetch [DecidableEq ν]
    (database : ChunkedTokenDatabase κ) (storage : List (ν × AsyncBackend κ))
    (searchRange : Option (List ν)) (tokens : List Nat) : Option (Lookup κ) :=
  (database.processTokens tokens 0).bind fun chunks =>
    StorageManager.asyncLookupAndPrefetch storage (chunks.map (·.key))
      (0 :: chunks.map (·.stop)) searchRange

/-! `_async_process_tokens_internal`. -/

/-- The loop over the chunks from an index on.  It raises past the end of the
objects, and on a `None` among them. -/
def pairChunks (memoryObjs : List (Option (LoadedObj κ))) :
    Nat → List (TokenChunk κ) → Option (List (TokenChunk κ × LoadedObj κ))
  | _, [] => some []
  | idx, chunk :: rest =>
    match memoryObjs[idx]? with
    | some (some memoryObj) =>
      (pairChunks memoryObjs (idx + 1) rest).map ((chunk, memoryObj) :: ·)
    | _ => none

/-- `ret_mask[start:end] = True` for every chunk. -/
def markChunks (chunks : List (TokenChunk κ × LoadedObj κ)) (retMask : List Bool) : List Bool :=
  chunks.foldl (fun mask entry =>
    setRange mask entry.1.start entry.1.stop true) retMask

/-- The objects that are left are freed, which raises on a `None`. -/
def asyncProcessTokensInternal (database : ChunkedTokenDatabase κ)
    (event : Option (Option (List (List (Option (LoadedObj κ))))))
    (tokens : List Nat) (mask : Option (List Bool)) :
    Option (Retrieved κ (LoadedObj κ)) :=
  event.join.bind fun loaded =>
    (database.processTokens tokens (numFalses mask)).bind fun yielded =>
      (pairChunks loaded.flatten 0 yielded).bind fun chunks =>
        if (loaded.flatten.drop chunks.length).any (·.isNone) then none
        else some ⟨markChunks chunks (List.replicate tokens.length false), chunks⟩

end CatKV
