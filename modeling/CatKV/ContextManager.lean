/-
One retrieve-mode request through `ContextManager` of `context_manager.py`, as
`compute_layer` of `t_llama.py` drives it: prefetch of the next layer, the two
halves of `get_reuse_kv`, and the attention call that selects or rewrites the
recomputed positions and offloads the missing chunks.

What the storage returns is an input of the request.  A step that raises gives
no state.
-/
import Mathlib.Data.List.Sort
import CatKV.ObjectName
import CatKV.Transition

namespace CatKV

inductive CompressType where
  | none
  | ours
deriving Repr, DecidableEq

/-- One entry of `hash_text` with its entry of `indices`. -/
structure Chunk where
  hash : Bytes
  start : Nat
  stop : Nat
deriving Repr, DecidableEq

/-- What a retrieval finds for one path: nothing, a `key`/`value` pair of that
many tokens, or the factors of a compressed chunk. -/
inductive Found where
  | absent
  | raw (length : Nat)
  | split (uuid : Option Uuid) (complete : Bool)
deriving Repr, DecidableEq

/-- The KV of one chunk at one layer. -/
structure ChunkKv where
  hash : Bytes
  layer : Nat
deriving Repr, DecidableEq

structure ReusePayload where
  kv : ChunkKv
  found : Found
deriving Repr, DecidableEq

def Found.isEmpty : Found → Bool
  | .absent => true
  | .raw _ => false
  | .split _ _ => false

def ReusePayload.isEmptyReusePayload (payload : ReusePayload) : Bool := payload.found.isEmpty

def Found.isComplete : Found → Bool
  | .absent => false
  | .raw _ => true
  | .split _ complete => complete

def ReusePayload.hasCompleteOursPayload (payload : ReusePayload) : Bool := payload.found.isComplete

def allOursPayloadsComplete (payloads : List ReusePayload) : Bool :=
  payloads.all ReusePayload.hasCompleteOursPayload

def Found.uuid : Found → Option Uuid
  | .split uuid _ => uuid
  | _ => none

/-- A request and all it meets: `found` is the first retrieval of a layer and
`retries` the later ones until the deadline, each by position in the active
list; `picked` are the positions `topk` returns.  `catkvOps` is
`_supports_catkv_ops_prefetch`: without it payloads come through `DataCenter`. -/
structure ReuseRequest where
  layerNum : Nat
  compressType : CompressType
  catkvOps : Bool
  blendFlag : Bool
  inputLen : Nat
  chunks : List Chunk
  found : Nat → Nat → Found
  retries : Nat → List (Nat → Found)
  picked : List Nat

/-- The groups of chunks whose layer-1 payloads carry one uuid. -/
structure KeySvGroups where
  keySvIdx : List Int
  keySvFilterIdx : List Nat
  keySvUuidPathIds : List Bytes
  uuidList : List (Option Uuid)
deriving Repr, DecidableEq

def KeySvGroups.addGroup (groups : KeySvGroups) (idx : Nat) (pathId : Bytes)
    (uuid : Option Uuid) : KeySvGroups :=
  ⟨groups.keySvIdx ++ [(groups.uuidList.length : Int)], groups.keySvFilterIdx ++ [idx],
    groups.keySvUuidPathIds ++ [pathId], groups.uuidList ++ [uuid]⟩

/-- The loop body of `_build_key_sv_dedup_groups`. -/
def KeySvGroups.addPayload (groups : KeySvGroups) (idx : Nat)
    (payload : ReusePayload) : KeySvGroups :=
  if payload.isEmptyReusePayload then { groups with keySvIdx := groups.keySvIdx ++ [-1] }
  else
    match payload.found.uuid with
    | none => groups.addGroup idx (decimal idx) none
    | some uuid =>
      match groups.uuidList.idxOf? (some uuid) with
      | none => groups.addGroup idx (uuidTensorToPathId uuid) (some uuid)
      | some existing =>
        { groups with keySvIdx := groups.keySvIdx ++ [(existing : Int)] }

def buildKeySvDedupGroups (payloads : List ReusePayload) : KeySvGroups :=
  payloads.zipIdx.foldl (fun groups item => groups.addPayload item.2 item.1) ⟨[], [], [], []⟩

/-- What one token position of a reuse buffer holds. -/
inductive Cell where
  | zero
  | reused (kv : ChunkKv) (token : Nat)
  | recomputed (layer : Nat)
deriving Repr, DecidableEq

inductive CompressData where
  | none
  | task
  | payloads (payloads : List ReusePayload)
deriving Repr, DecidableEq

/-- `useRuntimeReuse` and `recomputedIdx` are locals of `compute_layer`;
`offloaded` lists the calls of `offload_layer_data`. -/
structure ContextManager where
  requested : List Chunk
  active : List Chunk
  missing : List Chunk
  compressData : Nat → CompressData
  pingPongCache : Option (Nat → Nat → Cell)
  reuseKvFinished : Nat → Bool
  keySv : Option KeySvGroups
  useRuntimeReuse : Bool
  recomputedIdx : Option (List Nat)
  offloaded : List (Nat × Chunk)

def ContextManager.initial : ContextManager :=
  ⟨[], [], [], fun _ => .none, none, fun _ => false, none, false, none, []⟩

/-- `reset` leaves the groups of the previous request in place. -/
def ContextManager.reset (manager : ContextManager) : ContextManager :=
  { ContextManager.initial with keySv := manager.keySv }

def ContextManager.hasValidReuse (manager : ContextManager) : Bool := !manager.active.isEmpty

def ContextManager.setCompressData (manager : ContextManager) (layer : Nat)
    (data : CompressData) : ContextManager :=
  { manager with
    compressData := Function.update manager.compressData layer data }

def ContextManager.initializeReuseRequest (manager : ContextManager)
    (request : ReuseRequest) : ContextManager :=
  { manager with
    active := request.chunks
    requested := request.chunks
    missing := []
    compressData := fun _ => .none
    pingPongCache := some fun _ _ => .zero }

/-- The payloads of the active chunks, by position. -/
def retrieve (active : List Chunk) (layer : Nat) (found : Nat → Found) : List ReusePayload :=
  active.mapIdx fun position chunk => ⟨⟨chunk.hash, layer⟩, found position⟩

structure SplitHits where
  kept : List Chunk
  keptPayloads : List ReusePayload
  missing : List Chunk

/-- The loop of `_compact_reuse_hits`; chunks beyond the payloads are missing
too. -/
def splitHits : List Chunk → List ReusePayload → SplitHits
  | [], _ => ⟨[], [], []⟩
  | chunk :: chunks, [] => ⟨[], [], chunk :: chunks⟩
  | chunk :: chunks, payload :: payloads =>
    let rest := splitHits chunks payloads
    if payload.isEmptyReusePayload then { rest with missing := chunk :: rest.missing }
    else
      { rest with
        kept := chunk :: rest.kept
        keptPayloads := payload :: rest.keptPayloads }

/-- The missing list is replaced, not extended. -/
def ContextManager.compactReuseHits (manager : ContextManager)
    (payloads : List ReusePayload) : ContextManager × List ReusePayload :=
  if manager.hasValidReuse then
    let hits := splitHits manager.active payloads
    let manager := { manager with active := hits.kept, missing := hits.missing }
    if manager.hasValidReuse then (manager, hits.keptPayloads)
    else ({ manager with compressData := fun _ => .none, pingPongCache := none }, hits.keptPayloads)
  else (manager, [])

/-- Retrieval at layer 1: the hits of the first attempt become the active
list. -/
def ContextManager.prefetchFirst (manager : ContextManager)
    (request : ReuseRequest) : ContextManager :=
  let compacted := manager.compactReuseHits (retrieve manager.active 1 (request.found 1))
  let manager := compacted.1.setCompressData 1 (.payloads compacted.2)
  match request.compressType with
  | .none => manager
  | .ours =>
    if manager.hasValidReuse then { manager with keySv := some (buildKeySvDedupGroups compacted.2) }
    else manager

/-- What a prefetch of a later layer leaves in `compress_data`: the payloads
themselves, or the id of the task that loads them. -/
def ContextManager.retrieveKeys (manager : ContextManager)
    (request : ReuseRequest) (layer : Nat) : CompressData :=
  match request.compressType with
  | .none => .payloads (retrieve manager.active layer (request.found layer))
  | .ours => .task

def ContextManager.prefetchChunkKv (manager : ContextManager)
    (request : ReuseRequest) (layer : Nat) : ContextManager :=
  if request.layerNum ≤ layer then manager
  else
    let manager :=
      if layer = 1 then manager.initializeReuseRequest request else manager
    if manager.hasValidReuse then
      if layer = 1 then manager.prefetchFirst request
      else manager.setCompressData layer (manager.retrieveKeys request layer)
    else manager

/-- `_materialize_ours_with_retry`: retrieve again until every payload is
complete; running out of attempts is the timeout. -/
def firstComplete : List (List ReusePayload) → Option (List ReusePayload)
  | [] => none
  | payloads :: rest =>
    if allOursPayloadsComplete payloads then some payloads
    else firstComplete rest

/-- The payloads that `get_reuse_kv` works on.  A payload list is not a task id:
retrying one raises in the adapter of `catkv_ops`, and `DataCenter` loads nothing
for it, which counts as complete. -/
def ContextManager.materializeCompressData (manager : ContextManager)
    (request : ReuseRequest) (layer : Nat) : Option (List ReusePayload) :=
  match request.compressType, manager.compressData layer with
  | .none, .payloads payloads => some payloads
  | .ours, .payloads payloads =>
    if allOursPayloadsComplete payloads then some payloads
    else if request.catkvOps then none
    else some []
  | .ours, .task =>
    firstComplete ((request.found layer :: request.retries layer).map
      (retrieve manager.active layer))
  | .none, .task => none
  | _, .none => none

/-- `get_reuse_kv` up to and including its compaction. -/
def ContextManager.materializeReuse (manager : ContextManager)
    (request : ReuseRequest) (layer : Nat) : Option ContextManager :=
  if manager.reuseKvFinished layer then some manager
  else
    match manager.materializeCompressData request layer with
    | none => none
    | some payloads =>
      if layer = 1 then
        let compacted := manager.compactReuseHits payloads
        some (compacted.1.setCompressData layer (.payloads compacted.2))
      else some (manager.setCompressData layer (.payloads payloads))

def Chunk.Covers (chunk : Chunk) (position : Nat) : Prop :=
  chunk.start ≤ position ∧ position < chunk.stop

instance (chunk : Chunk) (position : Nat) : Decidable (chunk.Covers position) :=
  inferInstanceAs (Decidable (_ ∧ _))

/-- Length of `buffer[start:stop]` for a buffer of `inputLen` tokens. -/
def Chunk.sliceLength (chunk : Chunk) (inputLen : Nat) : Nat :=
  min chunk.stop inputLen - min chunk.start inputLen

/-- Whether the payload, decompressed for the range of `chunk`, has the shape of
that slice. -/
def Found.Fits (found : Found) (request : ReuseRequest) (chunk : Chunk) : Prop :=
  match found with
  | .absent => False
  | .raw length => length = chunk.sliceLength request.inputLen
  | .split _ complete =>
    request.compressType = .ours ∧ complete = true ∧
      chunk.stop - chunk.start = chunk.sliceLength request.inputLen

instance (found : Found) (request : ReuseRequest) (chunk : Chunk) :
    Decidable (found.Fits request chunk) :=
  match found with
  | .absent => inferInstanceAs (Decidable False)
  | .raw _ => inferInstanceAs (Decidable (_ = _))
  | .split _ _ => inferInstanceAs (Decidable (_ ∧ _ ∧ _))

def copyRange (inputLen : Nat) (chunk : Chunk) (kv : ChunkKv)
    (buffer : Nat → Cell) : Nat → Cell := fun position =>
  if chunk.Covers position ∧ position < inputLen then .reused kv (position - chunk.start)
  else buffer position

/-- The copy loop of `get_reuse_kv`.  `idx` counts the payloads copied so far,
not the position in the list. -/
def copyPayloads (request : ReuseRequest) (active : List Chunk) :
    List ReusePayload → Nat → (Nat → Cell) → Option (Nat → Cell)
  | [], _, buffer => some buffer
  | payload :: rest, idx, buffer =>
    if payload.isEmptyReusePayload then copyPayloads request active rest idx buffer
    else
      match active[idx]? with
      | none => none
      | some chunk =>
        if payload.found.Fits request chunk then
          copyPayloads request active rest (idx + 1)
            (copyRange request.inputLen chunk payload.kv buffer)
        else none

/-- `get_reuse_kv` from its copy loop on. -/
def ContextManager.copyReuse (manager : ContextManager)
    (request : ReuseRequest) (layer : Nat) : Option ContextManager :=
  if manager.reuseKvFinished layer then some manager
  else
    match manager.compressData layer, manager.pingPongCache with
    | .payloads payloads, some cache =>
      match copyPayloads request manager.active payloads 0 (cache (layer % 2)) with
      | none => none
      | some buffer =>
        some { manager with
          pingPongCache := some (Function.update cache (layer % 2) buffer)
          compressData := Function.update manager.compressData layer .none
          reuseKvFinished := Function.update manager.reuseKvFinished layer true }
    | _, _ => none

/-- `blend_forward`: the picked positions and all positions outside the active
ranges. -/
def blendForward (request : ReuseRequest) (active : List Chunk) : List Nat :=
  (request.picked ++ (List.range request.inputLen).filter fun position =>
    !active.any fun chunk => decide (chunk.Covers position)).insertionSort (· ≤ ·)

def ContextManager.offloadMissingChunks (manager : ContextManager) (layer : Nat) : ContextManager :=
  { manager with
    offloaded := manager.offloaded ++ manager.missing.map fun chunk => (layer, chunk) }

/-- The rest of `prefill_select_token`. -/
def ContextManager.selectTokens (manager : ContextManager)
    (request : ReuseRequest) : ContextManager :=
  { manager with recomputedIdx := some (blendForward request manager.active) }

/-- The rest of `prefill_blend`: the recomputed positions are overwritten. -/
def ContextManager.blendLayer (manager : ContextManager) (layer : Nat) : Option ContextManager :=
  match manager.recomputedIdx, manager.pingPongCache with
  | some positions, some cache =>
    some { manager with
      pingPongCache := some (Function.update cache (layer % 2) fun position =>
        if position ∈ positions then .recomputed layer
        else cache (layer % 2) position) }
  | _, _ => none

inductive RequestStep where
  | prefetch (layer : Nat)
  | materialize (layer : Nat)
  | copy (layer : Nat)
  | attend (layer : Nat)
deriving Repr, DecidableEq

/-- The attention call of one layer after its reuse buffer is prepared. -/
def ContextManager.attend (manager : ContextManager) (request : ReuseRequest)
    (layer : Nat) : Option ContextManager :=
  if manager.useRuntimeReuse then
    if layer = 1 then some ((manager.selectTokens request).offloadMissingChunks layer)
    else (manager.blendLayer layer).map fun next =>
      next.offloadMissingChunks layer
  else some (manager.offloadMissingChunks layer)

/-- `prefetch` of a layer belongs to the iteration before it, which then decides
whether it reuses. -/
def ContextManager.step (request : ReuseRequest) (manager : ContextManager) :
    RequestStep → Option ContextManager
  | .prefetch layer =>
    let manager := manager.prefetchChunkKv request layer
    some { manager with
      useRuntimeReuse := request.blendFlag && decide (layer ≠ 1) && manager.hasValidReuse }
  | .materialize layer =>
    if manager.useRuntimeReuse then manager.materializeReuse request layer
    else some manager
  | .copy layer =>
    if manager.useRuntimeReuse then manager.copyReuse request layer
    else some manager
  | .attend layer => manager.attend request layer

/-- One iteration of the loop in `compute_layer`. -/
def layerSteps (idx : Nat) : List RequestStep :=
  [.prefetch (idx + 1), .materialize idx, .copy idx, .attend idx]

def computeLayer (layerNum : Nat) : List RequestStep := (List.range layerNum).flatMap layerSteps

end CatKV
