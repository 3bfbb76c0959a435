/-
The vLLM connector on the scheduler's side.  A lookup promises the scheduler a
number of tokens; a tracker per request then follows the tokens that are
scheduled and decides, step by step, what is sent to the workers to be loaded
and saved.  One list of tokens serves both.
-/
import Mathlib.Algebra.Order.Floor.Div
import CatKV.Retrieve

namespace CatKV

variable {ρ : Type} [DecidableEq ρ]

inductive KvRole where
  | kvProducer
  | kvConsumer
  | kvBoth
deriving Repr, DecidableEq

structure LoadSpec where
  vllmCachedTokens : Nat
  lmcacheCachedTokens : Nat
  canLoad : Bool
deriving Repr, DecidableEq

structure SaveSpec where
  skipLeadingTokens : Nat
  canSave : Bool
deriving Repr, DecidableEq

structure DisaggSpec where
  isLastPrefill : Bool
  numTransferredTokens : Nat
deriving Repr, DecidableEq

/-- A multimodal hash, as the 16-bit integer made of it, and the placeholder it
is written over. -/
structure MmFeature where
  identifier : Nat
  offset : Nat
  length : Nat
deriving Repr, DecidableEq

/-- The settings of the connector that decide what is loaded and saved.
`cachedReqsList` is the older form of the scheduler's output, in which the
cached requests are a list. -/
structure ConnectorConfig where
  kvRole : KvRole
  useLayerwise : Bool
  blockSize : Nat
  chunkSize : Nat
  discardPartialChunks : Bool
  saveDecodeCache : Bool
  forceSkipSave : Bool
  priorityLimit : Option Int
  supportsProducerReuse : Bool
  cachedReqsList : Bool
  chunkSize_pos : 0 < chunkSize

/-- The `save_decode_cache` that reaches the steps after the first: the list
form of the output does not hand it on. -/
def ConnectorConfig.savesDecode (config : ConnectorConfig) : Bool :=
  !config.cachedReqsList && config.saveDecodeCache

structure RequestTracker where
  promptLen : Nat
  tokenIds : List Nat
  allocatedBlockIds : List Nat
  numSavedTokens : Nat
  disaggSpec : Option DisaggSpec
  mmFeatures : List MmFeature
  isDecodePhase : Bool
  skipSave : Bool
deriving Repr, DecidableEq

structure ReqMeta where
  tokenIds : List Nat
  slotMapping : List Nat
  isLastPrefill : Bool
  saveSpec : SaveSpec
  loadSpec : Option LoadSpec
  disaggSpec : Option DisaggSpec
deriving Repr, DecidableEq

/-- `apply_mm_hashes_to_token_ids`. -/
def applyMmHashesToTokenIds (tokenIds : List Nat) (mmFeatures : List MmFeature) : List Nat :=
  mmFeatures.foldl (fun ids feature => ids.mapIdx fun position id =>
    if feature.offset ≤ position ∧ position < feature.offset + feature.length
    then feature.identifier else id) tokenIds

@[simp]
theorem length_applyMmHashesToTokenIds (tokenIds : List Nat) (mmFeatures : List MmFeature) :
    (applyMmHashesToTokenIds tokenIds mmFeatures).length = tokenIds.length := by
  induction mmFeatures generalizing tokenIds with
  | nil => rfl
  | cons feature rest ih =>
    rw [applyMmHashesToTokenIds, List.foldl_cons]
    exact (ih _).trans (List.length_mapIdx ..)

/-- The slots of the allocated blocks, one after the other. -/
def blockSlots (blockSize : Nat) (blockIds : List Nat) : List Nat :=
  blockIds.flatMap fun blockId =>
    (List.range blockSize).map fun blockOffset =>
      blockOffset + blockId * blockSize

@[simp]
theorem length_blockSlots (blockSize : Nat) (blockIds : List Nat) :
    (blockSlots blockSize blockIds).length = blockIds.length * blockSize := by
  simp [blockSlots]

namespace RequestTracker

/-- `RequestTracker.update`; no new blocks are an empty list. -/
def update (tracker : RequestTracker) (newTokenIds newBlockIds : List Nat) : RequestTracker :=
  { tracker with
    tokenIds := tracker.tokenIds ++ newTokenIds
    allocatedBlockIds := tracker.allocatedBlockIds ++ newBlockIds
    isDecodePhase := tracker.isDecodePhase || newTokenIds.length == 1 }

def isLastPrefill (tracker : RequestTracker) : Bool := tracker.tokenIds.length == tracker.promptLen

def chunkBoundary (tracker : RequestTracker) (chunkSize : Nat) : Nat :=
  (tracker.numSavedTokens + 1) ⌈/⌉ chunkSize * chunkSize

/-- Whether this step saves nothing. -/
def skipsSave (tracker : RequestTracker) (chunkSize : Nat) (saveDecodeCache : Bool) : Bool :=
  tracker.disaggSpec.isNone && (tracker.skipSave || (decide (0 < tracker.numSavedTokens) &&
        decide (tracker.tokenIds.length < tracker.chunkBoundary chunkSize)) ||
      (tracker.isDecodePhase && !saveDecodeCache))

def numTokensToSave (tracker : RequestTracker) (chunkSize : Nat)
    (discardPartialChunks : Bool) : Nat :=
  if !tracker.isLastPrefill || discardPartialChunks then
    tracker.tokenIds.length / chunkSize * chunkSize
  else tracker.tokenIds.length

end RequestTracker

/-- `ReqMeta.from_request_tracker`, with the tracker it leaves behind. -/
def ReqMeta.fromRequestTracker (tracker : RequestTracker)
    (blockSize chunkSize : Nat) (loadSpec : Option LoadSpec)
    (discardPartialChunks saveDecodeCache : Bool) :
    RequestTracker × Option ReqMeta :=
  let skipSave := tracker.skipsSave chunkSize saveDecodeCache
  if skipSave && loadSpec.isNone then (tracker, none)
  else
    let numTokensToSave := tracker.numTokensToSave chunkSize discardPartialChunks
    let tokenIds := applyMmHashesToTokenIds
      (tracker.tokenIds.take numTokensToSave) tracker.mmFeatures
    (if skipSave then tracker else { tracker with numSavedTokens := numTokensToSave }, some
        { tokenIds := tokenIds
          slotMapping := (blockSlots blockSize tracker.allocatedBlockIds).take tokenIds.length
          isLastPrefill := tracker.isLastPrefill
          saveSpec := ⟨tracker.numSavedTokens, !skipSave⟩
          loadSpec := loadSpec.filter (·.canLoad)
          disaggSpec := tracker.disaggSpec })

section ReqMeta

variable (tracker : RequestTracker) (blockSize chunkSize : Nat)
  (loadSpec : Option LoadSpec) (discardPartialChunks saveDecodeCache : Bool)

theorem numTokensToSave_le : tracker.numTokensToSave chunkSize discardPartialChunks ≤
    tracker.tokenIds.length := by
  unfold RequestTracker.numTokensToSave
  split
  · exact Nat.div_mul_le_self ..
  · exact Nat.le_refl _

theorem fromRequestTracker_isNone : (ReqMeta.fromRequestTracker tracker blockSize chunkSize loadSpec
      discardPartialChunks saveDecodeCache).2 = none ↔
    tracker.skipsSave chunkSize saveDecodeCache = true ∧ loadSpec = none := by
  rw [ReqMeta.fromRequestTracker, ← Option.isNone_iff_eq_none (o := loadSpec), ← Bool.and_eq_true]
  dsimp only
  split
  · next hnone => simp [hnone]
  · next hnone => simp [hnone]

variable {tracker blockSize chunkSize loadSpec discardPartialChunks saveDecodeCache}

variable {reqMeta : ReqMeta} (hmeta : (ReqMeta.fromRequestTracker tracker blockSize chunkSize
  loadSpec discardPartialChunks saveDecodeCache).2 = some reqMeta)

include hmeta

theorem fromRequestTracker_some :
    reqMeta.tokenIds.length = tracker.numTokensToSave chunkSize discardPartialChunks ∧
      reqMeta.slotMapping.length = min reqMeta.tokenIds.length
        (tracker.allocatedBlockIds.length * blockSize) ∧
      reqMeta.isLastPrefill = tracker.isLastPrefill ∧
      reqMeta.saveSpec = ⟨tracker.numSavedTokens, !tracker.skipsSave chunkSize saveDecodeCache⟩ ∧
      reqMeta.loadSpec = loadSpec.filter (·.canLoad) := by
  unfold ReqMeta.fromRequestTracker at hmeta
  dsimp only at hmeta
  split at hmeta
  · cases hmeta
  · cases hmeta
    refine ⟨?_, ?_, rfl, rfl, rfl⟩
    · rw [length_applyMmHashesToTokenIds, List.length_take, Nat.min_eq_left (numTokensToSave_le ..)]
    · rw [List.length_take, length_blockSlots]

theorem fromRequestTracker_tokenIds : reqMeta.tokenIds = applyMmHashesToTokenIds
    (tracker.tokenIds.take (tracker.numTokensToSave chunkSize discardPartialChunks))
      tracker.mmFeatures := by
  unfold ReqMeta.fromRequestTracker at hmeta
  dsimp only at hmeta
  split at hmeta
  · cases hmeta
  · cases hmeta
    rfl

end ReqMeta

/-! The connector's own state, by request. -/

structure VllmRequest (ρ : Type) where
  requestId : ρ
  promptTokenIds : List Nat
  numTokens : Nat
  priority : Int
  disaggSpec : Option DisaggSpec

structure NewRequestData (ρ : Type) where
  reqId : ρ
  promptTokenIds : List Nat
  blockIds : List Nat
  numComputedTokens : Nat
  mmFeatures : List MmFeature

/-- A request that is scheduled again.  `newTokenIds` is read in the list form
of the output only; `allTokenIds` are the tokens of the request by then. -/
structure CachedRequestData (ρ : Type) where
  reqId : ρ
  newTokenIds : List Nat
  newBlockIds : List Nat
  allTokenIds : List Nat

structure SchedulerOutput (ρ : Type) where
  finishedReqIds : List ρ
  scheduledNewReqs : List (NewRequestData ρ)
  scheduledCachedReqs : List (CachedRequestData ρ)
  numScheduledTokens : ρ → Nat

/-- `RequestTracker.from_new_request`, with the disaggregation that was noted
for the request. -/
def RequestTracker.fromNewRequest (request : NewRequestData ρ) (disaggSpec : Option DisaggSpec)
    (numTokensToCompute lmcacheCachedTokens : Nat) (skipSave : Bool) :
    RequestTracker where
  promptLen := request.promptTokenIds.length
  tokenIds := request.promptTokenIds.take numTokensToCompute
  allocatedBlockIds := request.blockIds
  numSavedTokens := lmcacheCachedTokens
  disaggSpec := disaggSpec
  mmFeatures := request.mmFeatures
  isDecodePhase := false
  skipSave := skipSave

structure LMCacheConnector (ρ : Type) where
  loadSpecs : ρ → Option LoadSpec
  requestTrackers : ρ → Option RequestTracker
  unfinishedRequests : ρ → Bool
  requestsPriority : ρ → Option Int
  tmpDisaggTracker : ρ → Option DisaggSpec

namespace LMCacheConnector

/-- `get_num_new_matched_tokens`, after the lookup client has answered.  The
count of tokens to load is cut off at zero. -/
def getNumNewMatchedTokens (connector : LMCacheConnector ρ)
    (config : ConnectorConfig) (request : VllmRequest ρ)
    (numComputedTokens : Nat) (numExternalHitTokens : Option Nat) :
    LMCacheConnector ρ × Option Nat :=
  if config.kvRole = .kvProducer ∧ !config.supportsProducerReuse then (connector, some 0)
  else
    let connector :=
      { connector with
        requestsPriority := Function.update connector.requestsPriority
          request.requestId (some request.priority) }
    match numExternalHitTokens with
    | none => (connector, none)
    | some hits =>
      ({ connector with
          loadSpecs := Function.update connector.loadSpecs
            request.requestId (some ⟨numComputedTokens, hits, false⟩) },
        some (if hits = request.numTokens then hits - numComputedTokens - 1
          else hits - numComputedTokens))

/-- `update_state_after_alloc`; there is no result when its assertion fails. -/
def updateStateAfterAlloc (connector : LMCacheConnector ρ)
    (request : VllmRequest ρ) (numExternalTokens : Nat) :
    Option (LMCacheConnector ρ) :=
  let connector :=
    { connector with
      tmpDisaggTracker := match request.disaggSpec with
        | none => connector.tmpDisaggTracker
        | some spec => Function.update connector.tmpDisaggTracker request.requestId (some spec)
      unfinishedRequests := Function.update connector.unfinishedRequests request.requestId true }
  match connector.loadSpecs request.requestId with
  | none => some connector
  | some spec =>
    if numExternalTokens = 0 then
      some { connector with
        loadSpecs := Function.update connector.loadSpecs
          request.requestId (some { spec with canLoad := false }) }
    else if spec.lmcacheCachedTokens ≠ request.numTokens ∧ (numExternalTokens : Int) ≠
          spec.lmcacheCachedTokens - spec.vllmCachedTokens then none
    else
      some { connector with
        loadSpecs := Function.update connector.loadSpecs
          request.requestId (some { spec with canLoad := true }) }

/-- Whether nothing of a request is to be saved at all. -/
def skipsSaveOf (connector : LMCacheConnector ρ) (config : ConnectorConfig) (reqId : ρ) : Bool :=
  (config.kvRole == .kvConsumer || config.forceSkipSave) ||
    match config.priorityLimit with
    | none => false
    | some limit =>
      decide (limit < (connector.requestsPriority reqId).getD 0)

/-- One new request in `build_connector_meta`. -/
def addNewRequest (config : ConnectorConfig) (numScheduledTokens : ρ → Nat)
    (connector : LMCacheConnector ρ) (request : NewRequestData ρ) :
    LMCacheConnector ρ × Option ReqMeta :=
  let loadSpec := connector.loadSpecs request.reqId
  let built := ReqMeta.fromRequestTracker (RequestTracker.fromNewRequest request
      (connector.tmpDisaggTracker request.reqId)
      (request.numComputedTokens + numScheduledTokens request.reqId)
      (loadSpec.elim 0 (·.lmcacheCachedTokens))
      (connector.skipsSaveOf config request.reqId))
    config.blockSize config.chunkSize loadSpec config.discardPartialChunks
    config.saveDecodeCache
  ({ connector with
      loadSpecs := Function.update connector.loadSpecs request.reqId none
      requestsPriority := Function.update connector.requestsPriority request.reqId none
      tmpDisaggTracker := Function.update connector.tmpDisaggTracker request.reqId none
      requestTrackers := Function.update connector.requestTrackers
        request.reqId (some built.1) }, built.2)

/-- The new tokens of a request that is scheduled again. -/
def newTokenIdsOf (config : ConnectorConfig) (numScheduledTokens : ρ → Nat)
    (tracker : RequestTracker) (request : CachedRequestData ρ) : List Nat :=
  if config.cachedReqsList then request.newTokenIds
  else (request.allTokenIds.drop tracker.tokenIds.length).take (numScheduledTokens request.reqId)

/-- One request that is scheduled again.  It has to have a tracker, and in the
newer form of the output to be among the unfinished ones. -/
def addCachedRequest (config : ConnectorConfig) (numScheduledTokens : ρ → Nat)
    (connector : LMCacheConnector ρ) (request : CachedRequestData ρ) :
    Option (LMCacheConnector ρ × Option ReqMeta) :=
  match connector.requestTrackers request.reqId with
  | none => none
  | some tracker =>
    if !config.cachedReqsList && !connector.unfinishedRequests request.reqId
    then none
    else
      let built := ReqMeta.fromRequestTracker (tracker.update
          (newTokenIdsOf config numScheduledTokens tracker request)
          request.newBlockIds)
        config.blockSize config.chunkSize none config.discardPartialChunks
        config.savesDecode
      some ({ connector with
          requestTrackers := Function.update connector.requestTrackers
            request.reqId (some built.1) }, built.2)

/-- The loop over the new requests, with the metadata made for each. -/
def addNewRequests (config : ConnectorConfig) (numScheduledTokens : ρ → Nat) :
    LMCacheConnector ρ → List (NewRequestData ρ) → LMCacheConnector ρ × List (ρ × ReqMeta)
  | connector, [] => (connector, [])
  | connector, request :: rest =>
    let added := addNewRequest config numScheduledTokens connector request
    let others := addNewRequests config numScheduledTokens added.1 rest
    (others.1, (added.2.toList.map fun reqMeta =>
      (request.reqId, reqMeta)) ++ others.2)

def addCachedRequests (config : ConnectorConfig) (numScheduledTokens : ρ → Nat) :
    LMCacheConnector ρ → List (CachedRequestData ρ) →
      Option (LMCacheConnector ρ × List (ρ × ReqMeta))
  | connector, [] => some (connector, [])
  | connector, request :: rest =>
    (addCachedRequest config numScheduledTokens connector request).bind
      fun added =>
        (addCachedRequests config numScheduledTokens added.1 rest).map
          fun others =>
            (others.1, (added.2.toList.map fun reqMeta =>
              (request.reqId, reqMeta)) ++ others.2)

/-- The requests that have finished are forgotten. -/
def dropFinished (connector : LMCacheConnector ρ) (finishedReqIds : List ρ) : LMCacheConnector ρ :=
  { connector with
    requestTrackers := fun reqId =>
      if reqId ∈ finishedReqIds then none
      else connector.requestTrackers reqId
    unfinishedRequests := fun reqId =>
      connector.unfinishedRequests reqId && !decide (reqId ∈ finishedReqIds) }

/-- `build_connector_meta`: the metadata of the step, by request. -/
def buildConnectorMeta (config : ConnectorConfig)
    (connector : LMCacheConnector ρ) (output : SchedulerOutput ρ) :
    Option (LMCacheConnector ρ × List (ρ × ReqMeta)) :=
  let added := addNewRequests config output.numScheduledTokens
    (connector.dropFinished output.finishedReqIds) output.scheduledNewReqs
  (addCachedRequests config output.numScheduledTokens added.1
    output.scheduledCachedReqs).map fun others =>
      (others.1, added.2 ++ others.2)

end LMCacheConnector

end CatKV
