/-
What the scheduler was promised against what is loaded.  The tokens of a new
request are cut to the ones to be saved before they are used for loading, so
the promise is kept only when that cut does not fall below it.
-/
import CatKV.RequestTracker

namespace CatKV

open List

variable {ρ : Type} [DecidableEq ρ]

/-- One call of the engine's `retrieve`. -/
structure LoadCall where
  tokens : List Nat
  tokenMask : List Bool
  slotMapping : List Nat
deriving Repr, DecidableEq

/-- One request in `start_load_kv`; there is no result when the assertion on
the lengths fails, and no call without a load spec. -/
def startLoadKv (chunkSize : Nat) (reqMeta : ReqMeta) : Option (Option LoadCall) :=
  match reqMeta.loadSpec with
  | none => some none
  | some spec =>
    if reqMeta.tokenIds.length ≠ reqMeta.slotMapping.length then none
    else
      let tokenMask := setRange (List.replicate reqMeta.tokenIds.length true) 0
        (spec.vllmCachedTokens / chunkSize * chunkSize) false
      some (some
        { tokens := reqMeta.tokenIds.take spec.lmcacheCachedTokens
          tokenMask := tokenMask.take spec.lmcacheCachedTokens
          slotMapping := reqMeta.slotMapping.take spec.lmcacheCachedTokens })

/-- A request with an external hit on its way to its first step.  The
connector may be in any state and other requests may be scheduled in the same
step; the blocks of the request hold the tokens that are scheduled. -/
structure FirstSchedule (ρ : Type) [DecidableEq ρ] where
  config : ConnectorConfig
  connector : LMCacheConnector ρ
  request : VllmRequest ρ
  numComputedTokens : Nat
  numExternalHitTokens : Nat
  blockIds : List Nat
  mmFeatures : List MmFeature
  earlier : List (NewRequestData ρ)
  later : List (NewRequestData ρ)
  scheduledCachedReqs : List (CachedRequestData ρ)
  finishedReqIds : List ρ
  numScheduledTokens : ρ → Nat
  computed_lt_hits : numComputedTokens < numExternalHitTokens
  hits_le_prompt : numExternalHitTokens ≤ request.promptTokenIds.length
  numTokens_eq : request.numTokens = request.promptTokenIds.length
  not_earlier : request.requestId ∉ earlier.map (·.reqId)

namespace FirstSchedule

variable (schedule : FirstSchedule ρ)

def matched : LMCacheConnector ρ × Option Nat :=
  schedule.connector.getNumNewMatchedTokens schedule.config schedule.request
    schedule.numComputedTokens (some schedule.numExternalHitTokens)

/-- The number of tokens promised to the scheduler. -/
def promised : Nat := schedule.matched.2.getD 0

def allocated : Option (LMCacheConnector ρ) :=
  schedule.matched.1.updateStateAfterAlloc schedule.request schedule.promised

/-- The request as the scheduler hands it out: the promised tokens count as
computed. -/
def newRequest : NewRequestData ρ where
  reqId := schedule.request.requestId
  promptTokenIds := schedule.request.promptTokenIds
  blockIds := schedule.blockIds
  numComputedTokens := schedule.numComputedTokens + schedule.promised
  mmFeatures := schedule.mmFeatures

def output : SchedulerOutput ρ where
  finishedReqIds := schedule.finishedReqIds
  scheduledNewReqs := schedule.earlier ++ schedule.newRequest :: schedule.later
  scheduledCachedReqs := schedule.scheduledCachedReqs
  numScheduledTokens := schedule.numScheduledTokens

/-- The tokens of the prompt that are computed after the first step. -/
def firstTokens : Nat :=
  min (schedule.numComputedTokens + schedule.promised +
    schedule.numScheduledTokens schedule.request.requestId)
    schedule.request.promptTokenIds.length

/-- `update_state_after_alloc` has set `can_load`. -/
def CanLoad : Prop :=
  ∃ connector, schedule.allocated = some connector ∧
    ∃ spec, connector.loadSpecs schedule.request.requestId = some spec ∧ spec.canLoad = true

def BlocksHold : Prop := schedule.firstTokens ≤ schedule.blockIds.length * schedule.config.blockSize

instance blocksHoldDecidable : Decidable schedule.BlocksHold := inferInstanceAs (Decidable (_ ≤ _))

/-- The metadata that `build_connector_meta` makes for the request. -/
def reqMeta : Option ReqMeta :=
  schedule.allocated.bind fun connector =>
    (connector.buildConnectorMeta schedule.config schedule.output).bind
      fun built => (built.2.find? fun entry =>
        entry.1 == schedule.request.requestId).map (·.2)

/-- Every promised token is asked for, past the chunks that are computed
locally. -/
structure LoadsPromise (reqMeta : ReqMeta) : Prop where
  slots : reqMeta.tokenIds.length = reqMeta.slotMapping.length
  covers : schedule.numExternalHitTokens ≤ reqMeta.tokenIds.length
  call : ∃ call, startLoadKv schedule.config.chunkSize reqMeta = some (some call) ∧
    call.tokens.length = schedule.numExternalHitTokens ∧
    call.slotMapping.length = schedule.numExternalHitTokens ∧
    call.tokenMask.length = schedule.numExternalHitTokens ∧
    ∀ position < schedule.numExternalHitTokens, call.tokenMask[position]? = some (decide
        (schedule.numComputedTokens / schedule.config.chunkSize *
          schedule.config.chunkSize ≤ position))

/-- The whole prompt is computed after the first step and its last, partial
chunk is kept, or the chunk of the last hit token is computed in full. -/
def KeepsHits : Prop :=
  schedule.firstTokens = schedule.request.promptTokenIds.length ∧
      schedule.config.discardPartialChunks = false ∨
    schedule.numExternalHitTokens ⌈/⌉ schedule.config.chunkSize *
      schedule.config.chunkSize ≤ schedule.firstTokens

end FirstSchedule

section ReqMeta

variable (tracker : RequestTracker) {chunkSize : Nat} (discardPartialChunks : Bool)

theorem le_div_mul_iff (hpos : 0 < chunkSize) (position length : Nat) :
    position ≤ length / chunkSize * chunkSize ↔ position ⌈/⌉ chunkSize * chunkSize ≤ length := by
  rw [← Nat.le_div_iff_mul_le hpos, ceilDiv_le_iff_le_mul hpos, Nat.mul_comm]

theorem le_numTokensToSave_iff (hpos : 0 < chunkSize) {position : Nat}
    (hposition : position ≤ tracker.promptLen) :
    position ≤ tracker.numTokensToSave chunkSize discardPartialChunks ↔
      tracker.tokenIds.length = tracker.promptLen ∧ discardPartialChunks = false ∨
        position ⌈/⌉ chunkSize * chunkSize ≤ tracker.tokenIds.length := by
  unfold RequestTracker.numTokensToSave RequestTracker.isLastPrefill
  cases discardPartialChunks with
  | true => simp [le_div_mul_iff hpos]
  | false =>
    by_cases hlast : tracker.tokenIds.length = tracker.promptLen
    · simp [hlast, hposition]
    · simp [hlast, le_div_mul_iff hpos]

end ReqMeta

namespace LMCacheConnector

variable (config : ConnectorConfig) (numScheduledTokens : ρ → Nat)

variable {connector : LMCacheConnector ρ}

theorem addNewRequests_others {requests : List (NewRequestData ρ)} {reqId : ρ}
    (hnot : reqId ∉ requests.map (·.reqId)) :
    (addNewRequests config numScheduledTokens connector
        requests).1.loadSpecs reqId = connector.loadSpecs reqId ∧
      ∀ entry ∈ (addNewRequests config numScheduledTokens connector
        requests).2, entry.1 ≠ reqId := by
  induction requests generalizing connector with
  | nil => simp [addNewRequests]
  | cons request rest ih =>
    rw [map_cons, mem_cons, not_or] at hnot
    have hothers := @ih (addNewRequest config numScheduledTokens connector request).1 hnot.2
    constructor
    · rw [addNewRequests, hothers.1]
      exact Function.update_of_ne hnot.1 ..
    · intro entry hentry
      rw [addNewRequests, mem_append] at hentry
      rcases hentry with hown | hrest
      · obtain ⟨made, -, rfl⟩ := mem_map.mp hown
        exact Ne.symm hnot.1
      · exact hothers.2 entry hrest

theorem addNewRequests_append (connector : LMCacheConnector ρ)
    (first rest : List (NewRequestData ρ)) :
    addNewRequests config numScheduledTokens connector (first ++ rest) =
      ((addNewRequests config numScheduledTokens
          (addNewRequests config numScheduledTokens connector first).1 rest).1,
        (addNewRequests config numScheduledTokens connector first).2 ++
          (addNewRequests config numScheduledTokens
            (addNewRequests config numScheduledTokens connector first).1 rest).2) := by
  induction first generalizing connector with
  | nil => simp [addNewRequests]
  | cons request first ih => simp [addNewRequests, ih]

/-- `can_load` is set only for a load spec that was there, and only when
tokens were promised. -/
theorem updateStateAfterAlloc_canLoad {next : LMCacheConnector ρ} {request : VllmRequest ρ}
    {numExternalTokens : Nat} (hnext : connector.updateStateAfterAlloc request numExternalTokens =
      some next) {spec : LoadSpec} (hspec : next.loadSpecs request.requestId = some spec)
    (hcan : spec.canLoad = true) :
    numExternalTokens ≠ 0 ∧ ∃ old, connector.loadSpecs request.requestId = some old ∧
        spec = { old with canLoad := true } := by
  unfold updateStateAfterAlloc at hnext
  dsimp only at hnext
  split at hnext
  · next hnone =>
    cases hnext
    rw [hnone] at hspec
    cases hspec
  · next old hold =>
    split_ifs at hnext with hzero
    · cases hnext
      have heq := (Function.update_self ..).symm.trans hspec
      rw [← Option.some.inj heq] at hcan
      cases hcan
    · cases hnext
      have heq := (Function.update_self ..).symm.trans hspec
      exact ⟨hzero, old, hold, (Option.some.inj heq).symm⟩

theorem find_addNewRequests {earlier : List (NewRequestData ρ)} (later : List (NewRequestData ρ))
    {request : NewRequestData ρ} (hnot : request.reqId ∉ earlier.map (·.reqId)) {reqMeta : ReqMeta}
    (hmeta : (addNewRequest config numScheduledTokens
      (addNewRequests config numScheduledTokens connector earlier).1 request).2 = some reqMeta) :
    (addNewRequests config numScheduledTokens connector (earlier ++ request :: later)).2.find?
      (fun entry => entry.1 == request.reqId) = some (request.reqId, reqMeta) := by
  have hearlier : (addNewRequests config numScheduledTokens connector
      earlier).2.find? (fun entry => entry.1 == request.reqId) = none := by
    rw [find?_eq_none]
    intro entry hentry
    have hne := (addNewRequests_others config numScheduledTokens hnot).2 entry hentry
    simpa using hne
  rw [addNewRequests_append, find?_append, hearlier, Option.none_or, addNewRequests, hmeta]
  simp

theorem buildConnectorMeta_metas {config : ConnectorConfig} {output : SchedulerOutput ρ}
    {built : LMCacheConnector ρ × List (ρ × ReqMeta)}
    (hbuilt : connector.buildConnectorMeta config output = some built) :
    ∃ others, built.2 = (addNewRequests config output.numScheduledTokens
      (connector.dropFinished output.finishedReqIds) output.scheduledNewReqs).2 ++ others := by
  rw [buildConnectorMeta, Option.map_eq_some_iff] at hbuilt
  obtain ⟨others, -, rfl⟩ := hbuilt
  exact ⟨others.2, rfl⟩

end LMCacheConnector

namespace FirstSchedule

variable {schedule : FirstSchedule ρ}

theorem matched_eq (schedule : FirstSchedule ρ) : schedule.matched = (schedule.connector, some 0) ∨
    schedule.matched.1.loadSpecs schedule.request.requestId =
      some ⟨schedule.numComputedTokens, schedule.numExternalHitTokens, false⟩ := by
  unfold matched LMCacheConnector.getNumNewMatchedTokens
  split
  · exact Or.inl rfl
  · exact Or.inr (Function.update_self ..)

theorem allocated_loadSpec (hload : schedule.CanLoad) :
    ∃ connector, schedule.allocated = some connector ∧
      connector.loadSpecs schedule.request.requestId =
        some ⟨schedule.numComputedTokens, schedule.numExternalHitTokens, true⟩ := by
  obtain ⟨connector, hallocated, spec, hspec, hcan⟩ := hload
  refine ⟨connector, hallocated, ?_⟩
  obtain ⟨hpromised, old, hold, rfl⟩ :=
    LMCacheConnector.updateStateAfterAlloc_canLoad hallocated hspec hcan
  rw [hspec]
  rcases matched_eq schedule with hproducer | hmatched
  · rw [promised, hproducer] at hpromised
    exact absurd rfl hpromised
  · rw [hmatched, Option.some.injEq] at hold
    rw [← hold]

theorem reqMeta_spec (hload : schedule.CanLoad) {reqMeta : ReqMeta}
    (hmeta : schedule.reqMeta = some reqMeta) :
    reqMeta.loadSpec = some ⟨schedule.numComputedTokens, schedule.numExternalHitTokens, true⟩ ∧
      ∃ tracker : RequestTracker, tracker.tokenIds.length = schedule.firstTokens ∧
        tracker.promptLen = schedule.request.promptTokenIds.length ∧
        reqMeta.tokenIds.length = tracker.numTokensToSave
          schedule.config.chunkSize schedule.config.discardPartialChunks ∧
        reqMeta.slotMapping.length = min reqMeta.tokenIds.length
          (schedule.blockIds.length * schedule.config.blockSize) := by
  obtain ⟨connector, hallocated, hspec⟩ := allocated_loadSpec hload
  rw [FirstSchedule.reqMeta, hallocated, Option.bind_some, Option.bind_eq_some_iff] at hmeta
  obtain ⟨built, hbuilt, hfound⟩ := hmeta
  obtain ⟨others, hmetas⟩ := LMCacheConnector.buildConnectorMeta_metas hbuilt
  set before := (LMCacheConnector.addNewRequests schedule.config schedule.numScheduledTokens
    (connector.dropFinished schedule.finishedReqIds) schedule.earlier).1
    with hbefore
  have hown : before.loadSpecs schedule.request.requestId =
      some ⟨schedule.numComputedTokens, schedule.numExternalHitTokens, true⟩ := by
    rw [hbefore, (LMCacheConnector.addNewRequests_others schedule.config
      schedule.numScheduledTokens schedule.not_earlier).1]
    exact hspec
  obtain ⟨made, hadded⟩ : ∃ made, (LMCacheConnector.addNewRequest
      schedule.config schedule.numScheduledTokens before
      schedule.newRequest).2 = some made := by
    rw [← Option.ne_none_iff_exists']
    intro hnone
    have hspec := ((fromRequestTracker_isNone ..).mp hnone).2
    cases hown.symm.trans hspec
  have hfirst : built.2.find? (fun entry =>
      entry.1 == schedule.request.requestId) = some (schedule.request.requestId, made) := by
    rw [hmetas, find?_append]
    exact congrArg (Option.or · _) (LMCacheConnector.find_addNewRequests
      schedule.config schedule.numScheduledTokens schedule.later
      schedule.not_earlier hadded)
  have heq : made = reqMeta := by
    rw [hfirst, Option.map_some] at hfound
    exact Option.some.inj hfound
  subst heq
  obtain ⟨htokens, hslots, -, -, hload⟩ := fromRequestTracker_some hadded
  refine ⟨?_, _, length_take, rfl, htokens, hslots⟩
  rw [hload]
  exact congrArg (Option.filter _) hown

theorem loadsPromise_of_covers {reqMeta : ReqMeta}
    (hspec : reqMeta.loadSpec = some ⟨schedule.numComputedTokens,
      schedule.numExternalHitTokens, true⟩)
    (hslots : reqMeta.tokenIds.length = reqMeta.slotMapping.length)
    (hcovers : schedule.numExternalHitTokens ≤ reqMeta.tokenIds.length) :
    schedule.LoadsPromise reqMeta := by
  refine ⟨hslots, hcovers, ?_⟩
  rw [startLoadKv, hspec]
  dsimp only
  rw [if_neg (not_not_intro hslots)]
  refine ⟨_, rfl, ?_, ?_, ?_, ?_⟩
  · rw [length_take, Nat.min_eq_left hcovers]
  · rw [length_take, ← hslots, Nat.min_eq_left hcovers]
  · rw [length_take, length_setRange, length_replicate, Nat.min_eq_left hcovers]
  · intro position hposition
    have hlt : position < reqMeta.tokenIds.length := Nat.lt_of_lt_of_le hposition hcovers
    rw [getElem?_take_of_lt hposition, getElem?_setRange,
      getElem?_replicate, if_pos hlt, Option.map_some]
    by_cases hmasked : position < schedule.numComputedTokens /
        schedule.config.chunkSize * schedule.config.chunkSize
    · rw [if_pos ⟨Nat.zero_le _, hmasked⟩, decide_eq_false]
      omega
    · rw [if_neg fun hin => hmasked hin.2, decide_eq_true]
      omega

end FirstSchedule

/-- Every promised token is loaded exactly when the hit survives the cut to
whole chunks. -/
theorem loadsPromise_iff_keepsHits (schedule : FirstSchedule ρ) (hload : schedule.CanLoad)
    (hblocks : schedule.BlocksHold) {reqMeta : ReqMeta} (hmeta : schedule.reqMeta = some reqMeta) :
    schedule.LoadsPromise reqMeta ↔ schedule.KeepsHits := by
  obtain ⟨hspec, tracker, hlength, hprompt, htokens, hslots⟩ :=
    FirstSchedule.reqMeta_spec hload hmeta
  have hkeeps := le_numTokensToSave_iff tracker
    schedule.config.discardPartialChunks schedule.config.chunkSize_pos
    (hprompt ▸ schedule.hits_le_prompt)
  rw [← htokens, hlength, hprompt] at hkeeps
  rw [FirstSchedule.KeepsHits, ← hkeeps]
  constructor
  · exact FirstSchedule.LoadsPromise.covers
  · apply FirstSchedule.loadsPromise_of_covers hspec
    have hle := numTokensToSave_le tracker schedule.config.chunkSize
      schedule.config.discardPartialChunks
    rw [hslots, Nat.min_eq_left]
    rw [htokens]
    exact Nat.le_trans (hlength ▸ hle) hblocks

/-- A prompt of twenty tokens in chunks of four, of which ten are found, with
one more token or all the others scheduled in the first step. -/
def tenOfTwenty (numScheduledTokens : Nat) : FirstSchedule Nat where
  config :=
    { kvRole := .kvBoth
      useLayerwise := false
      blockSize := 16
      chunkSize := 4
      discardPartialChunks := false
      saveDecodeCache := false
      forceSkipSave := false
      priorityLimit := none
      supportsProducerReuse := false
      cachedReqsList := false
      chunkSize_pos := by decide }
  connector := ⟨fun _ => none, fun _ => none, fun _ => false, fun _ => none, fun _ => none⟩
  request := ⟨0, List.range 20, 20, 0, none⟩
  numComputedTokens := 0
  numExternalHitTokens := 10
  blockIds := [0, 1]
  mmFeatures := []
  earlier := []
  later := []
  scheduledCachedReqs := []
  finishedReqIds := []
  numScheduledTokens := fun _ => numScheduledTokens
  computed_lt_hits := by decide
  hits_le_prompt := by decide
  numTokens_eq := by decide
  not_earlier := by decide

theorem tenOfTwenty_canLoad (count : Nat) : (tenOfTwenty count).CanLoad := ⟨_, rfl, _, rfl, rfl⟩

theorem loadsPromise_tenOfTwenty : ∃ reqMeta, (tenOfTwenty 10).reqMeta = some reqMeta ∧
    (tenOfTwenty 10).LoadsPromise reqMeta := by
  obtain ⟨reqMeta, hmeta⟩ : ∃ reqMeta, (tenOfTwenty 10).reqMeta = some reqMeta := ⟨_, rfl⟩
  refine ⟨reqMeta, hmeta, ?_⟩
  apply (loadsPromise_iff_keepsHits (tenOfTwenty 10) (tenOfTwenty_canLoad 10) (by decide) hmeta).mpr
  exact Or.inl ⟨by decide, rfl⟩

/-- With one token scheduled, the list of eleven tokens is cut to eight: the
ninth and the tenth are never asked for. -/
theorem not_loadsPromise_tenOfTwenty : (tenOfTwenty 1).CanLoad ∧ ∃ reqMeta,
    (tenOfTwenty 1).reqMeta = some reqMeta ∧ reqMeta.tokenIds.length = 8 ∧
      ¬(tenOfTwenty 1).LoadsPromise reqMeta := by
  refine ⟨tenOfTwenty_canLoad 1, _, rfl, rfl, ?_⟩
  intro hloads
  exact absurd hloads.covers (by decide)

end CatKV
