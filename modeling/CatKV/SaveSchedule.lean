/-
What the workers store over the schedule of one request.  A tracker counts the
tokens that have been saved; a step saves when the scheduled tokens complete a
further chunk, until a step of one token is taken for the beginning of the
decode phase.
-/
import Mathlib.Algebra.Order.Ring.Nat
import CatKV.RequestTracker
import CatKV.Transition

namespace CatKV

/-- One call of the engine's `store`. -/
structure StoreCall where
  tokenIds : List Nat
  storeMask : List Bool
  slotMapping : List Nat
  offset : Nat
deriving Repr, DecidableEq

/-- The call for a list of tokens whose leading part is masked. -/
def StoreCall.masking (chunkSize : Nat) (reqMeta : ReqMeta)
    (skipLeadingTokens : Nat) : StoreCall where
  tokenIds := reqMeta.tokenIds
  storeMask := setRange (List.replicate reqMeta.tokenIds.length true) 0
    (skipLeadingTokens / chunkSize * chunkSize) false
  slotMapping := reqMeta.slotMapping
  offset := skipLeadingTokens / chunkSize * chunkSize

/-- One request in `wait_for_save`.  There is no result when the assertion on
the lengths fails or a producer has no disaggregation to read. -/
def waitForSave (config : ConnectorConfig) (reqMeta : ReqMeta) : Option (Option StoreCall) :=
  if config.kvRole = .kvConsumer then some none
  else if !reqMeta.saveSpec.canSave ∧ config.kvRole ≠ .kvProducer then some none
  else if reqMeta.slotMapping.length ≠ reqMeta.tokenIds.length then none
  else
    let skipped :=
      if config.kvRole = .kvProducer then
        reqMeta.disaggSpec.map fun spec =>
          min reqMeta.saveSpec.skipLeadingTokens spec.numTransferredTokens
      else some reqMeta.saveSpec.skipLeadingTokens
    skipped.map fun skipLeadingTokens =>
      if skipLeadingTokens = reqMeta.tokenIds.length then none
      else
        let call := StoreCall.masking config.chunkSize reqMeta skipLeadingTokens
        if reqMeta.isLastPrefill then some call
        else
          let alignedTokenLen := reqMeta.tokenIds.length / config.chunkSize * config.chunkSize
          some { call with
            tokenIds := call.tokenIds.take alignedTokenLen
            storeMask := call.storeMask.take alignedTokenLen
            slotMapping := call.slotMapping.take alignedTokenLen }

/-- One request in the first `save_kv_layer` of a step, which makes the storer
of the request. -/
def saveKvLayer (config : ConnectorConfig) (reqMeta : ReqMeta) : Option (Option StoreCall) :=
  if config.kvRole = .kvConsumer then some none
  else if !reqMeta.saveSpec.canSave then some none
  else if reqMeta.slotMapping.length ≠ reqMeta.tokenIds.length then none
  else if config.kvRole = .kvProducer then
    some (some (StoreCall.masking config.chunkSize reqMeta 0))
  else if reqMeta.saveSpec.skipLeadingTokens = reqMeta.tokenIds.length then some none
  else some (some (StoreCall.masking config.chunkSize reqMeta reqMeta.saveSpec.skipLeadingTokens))

/-- What the workers store of a request in one step. -/
def storeOf (config : ConnectorConfig) (reqMeta : ReqMeta) : Option (Option StoreCall) :=
  if config.useLayerwise then saveKvLayer config reqMeta
  else waitForSave config reqMeta

/-- The tracker of a request and the calls made for it so far. -/
structure SaveRun where
  tracker : RequestTracker
  stores : List StoreCall
deriving Repr, DecidableEq

/-- The tokens and blocks of one step after the first. -/
structure ScheduledStep where
  newTokenIds : List Nat
  newBlockIds : List Nat
deriving Repr, DecidableEq

namespace SaveRun

/-- The metadata of the step is made from the tracker, and the workers act on
it. -/
def save (config : ConnectorConfig) (loadSpec : Option LoadSpec)
    (saveDecodeCache : Bool) (run : SaveRun) : Option SaveRun :=
  let built := ReqMeta.fromRequestTracker run.tracker config.blockSize
    config.chunkSize loadSpec config.discardPartialChunks saveDecodeCache
  match built.2 with
  | none => some { run with tracker := built.1 }
  | some reqMeta => (storeOf config reqMeta).map fun call =>
    ⟨built.1, run.stores ++ call.toList⟩

/-- A step after the first. -/
def step (config : ConnectorConfig) (run : SaveRun) (next : ScheduledStep) : Option SaveRun :=
  save config none config.savesDecode { run with
      tracker := run.tracker.update next.newTokenIds next.newBlockIds }

/-- The decode phase has ended the saving. -/
def hasEnded (config : ConnectorConfig) (run : SaveRun) : Bool :=
  run.tracker.isDecodePhase && !config.savesDecode

end SaveRun

/-- The calls start where the saved tokens end, or before, and each ends
further on. -/
def Contiguous : Nat → List StoreCall → Nat → Prop
  | lower, [], upper => lower = upper
  | lower, call :: rest, upper =>
    call.offset ≤ lower ∧ lower < call.tokenIds.length ∧ Contiguous call.tokenIds.length rest upper

/-- The chunk lies in the unmasked part of the call. -/
def StoreCall.storesChunk (call : StoreCall) (chunkSize chunkId : Nat) : Bool :=
  (List.range chunkSize).all fun position =>
    call.storeMask[chunkId * chunkSize + position]? == some true

/-- A request without disaggregation whose cache is to be saved, and its
schedule.  The tokens of the first step include those counted as computed. -/
structure SaveSchedule where
  config : ConnectorConfig
  request : NewRequestData Unit
  loadSpec : Option LoadSpec
  numTokensToCompute : Nat
  steps : List ScheduledStep

namespace SaveSchedule

variable (schedule : SaveSchedule)

/-- The tokens that are cached at the start. -/
def cachedTokens : Nat := schedule.loadSpec.elim 0 (·.lmcacheCachedTokens)

def tracker : RequestTracker :=
  RequestTracker.fromNewRequest schedule.request none
    schedule.numTokensToCompute schedule.cachedTokens false

def firstRun : Option SaveRun :=
  SaveRun.save schedule.config schedule.loadSpec
    schedule.config.saveDecodeCache ⟨schedule.tracker, []⟩

/-- The state after the first step and some of the others. -/
def runs (steps : List ScheduledStep) : Option SaveRun :=
  schedule.firstRun.bind fun run =>
    runFrom (SaveRun.step schedule.config) run steps

/-- The blocks of the request hold its tokens after every step. -/
def BlocksHold : Prop :=
  ∀ count ≤ schedule.steps.length, schedule.tracker.tokenIds.length +
        ((schedule.steps.take count).map (·.newTokenIds.length)).sum ≤
      (schedule.request.blockIds.length +
        ((schedule.steps.take count).map (·.newBlockIds.length)).sum) * schedule.config.blockSize

instance blocksHoldDecidable : Decidable schedule.BlocksHold :=
  inferInstanceAs (Decidable (∀ count ≤ _, _ ≤ _))

/-- The tokens whose full chunks have to be stored: the scheduled part of the
prompt, and with `save_decode_cache` the generated tokens too. -/
def tokensToStore : Nat :=
  let scheduled := schedule.tracker.tokenIds.length +
    (schedule.steps.map (·.newTokenIds.length)).sum
  if schedule.config.saveDecodeCache then scheduled
  else min scheduled schedule.request.promptTokenIds.length

/-- The number of tokens scheduled before the first step of one token, when
such a step ends the saving. -/
def tokensBeforeDecode (saveDecodeCache : Bool) : Nat → List ScheduledStep → Nat
  | length, [] => length
  | length, step :: rest =>
    if step.newTokenIds.length == 1 && !saveDecodeCache then length
    else tokensBeforeDecode saveDecodeCache (length + step.newTokenIds.length) rest

/-- The workers of a connector that both saves and loads; and the last full
chunk to be stored is cached, or scheduled before a step of one token ends the
saving. -/
def SavesInTime : Prop :=
  let config := schedule.config
  let lastChunkEnd := schedule.tokensToStore / config.chunkSize * config.chunkSize
  config.kvRole = .kvBoth ∧ (lastChunkEnd ≤ schedule.cachedTokens ∨
      lastChunkEnd ≤ tokensBeforeDecode config.savesDecode
        schedule.tracker.tokenIds.length schedule.steps)

instance savesInTimeDecidable : Decidable schedule.SavesInTime :=
  inferInstanceAs (Decidable (_ ∧ (_ ∨ _)))

/-- No step raises, the count of saved tokens never goes down, the stored
ranges leave no gap, and every full chunk that was not cached is in the
unmasked part of exactly one call. -/
structure StoresOnce : Prop where
  completes : ∃ final, schedule.runs schedule.steps = some final
  monotone : ∀ first second run next, first <+: second →
    second <+: schedule.steps → schedule.runs first = some run →
    schedule.runs second = some next →
    run.tracker.numSavedTokens ≤ next.tracker.numSavedTokens
  contiguous : ∀ final, schedule.runs schedule.steps = some final →
    Contiguous schedule.cachedTokens final.stores final.tracker.numSavedTokens
  once : ∀ final, schedule.runs schedule.steps = some final → ∀ chunkId, schedule.cachedTokens <
        (chunkId + 1) * schedule.config.chunkSize →
      (chunkId + 1) * schedule.config.chunkSize ≤ schedule.tokensToStore →
      final.stores.countP (·.storesChunk schedule.config.chunkSize chunkId) = 1

end SaveSchedule

/-! The calls. -/

theorem getElem?_masking (chunkSize : Nat) (reqMeta : ReqMeta) (skipLeadingTokens position : Nat) :
    (StoreCall.masking chunkSize reqMeta skipLeadingTokens).storeMask[position]? = some true ↔
      skipLeadingTokens / chunkSize * chunkSize ≤ position ∧
        position < reqMeta.tokenIds.length := by
  rw [StoreCall.masking, getElem?_setRange, List.getElem?_replicate]
  by_cases hlt : position < reqMeta.tokenIds.length
  · by_cases hmasked : position < skipLeadingTokens / chunkSize * chunkSize
    · simp [hlt, hmasked]
    · simp [hlt, hmasked, Nat.le_of_not_lt hmasked]
  · simp [hlt]

theorem storesChunk_masking {chunkSize : Nat} (hpos : 0 < chunkSize)
    (reqMeta : ReqMeta) (skipLeadingTokens chunkId : Nat) :
    (StoreCall.masking chunkSize reqMeta skipLeadingTokens).storesChunk chunkSize chunkId = true ↔
      skipLeadingTokens / chunkSize ≤ chunkId ∧ chunkId < reqMeta.tokenIds.length / chunkSize := by
  rw [← Nat.succ_le_iff, Nat.le_div_iff_mul_le hpos, Nat.succ_mul, ← Nat.mul_le_mul_right_iff hpos]
  simp only [StoreCall.storesChunk, List.all_eq_true, List.mem_range, beq_iff_eq, getElem?_masking]
  constructor
  · intro hall
    have hfirst := hall 0 hpos
    have hlast := hall (chunkSize - 1) (by omega)
    omega
  · intro hbounds position hposition
    omega

/-- A connector that saves and loads stores what the metadata gives it, past
the saved tokens. -/
theorem storeOf_kvBoth {config : ConnectorConfig} (hrole : config.kvRole = .kvBoth)
    {reqMeta : ReqMeta} (hslots : reqMeta.slotMapping.length = reqMeta.tokenIds.length)
    (haligned : reqMeta.isLastPrefill = false → config.chunkSize ∣ reqMeta.tokenIds.length) :
    storeOf config reqMeta = some (if !reqMeta.saveSpec.canSave ∨
          reqMeta.saveSpec.skipLeadingTokens = reqMeta.tokenIds.length
      then none
      else some (StoreCall.masking config.chunkSize reqMeta
        reqMeta.saveSpec.skipLeadingTokens)) := by
  have hcut : ∀ call : StoreCall, call = StoreCall.masking config.chunkSize
      reqMeta reqMeta.saveSpec.skipLeadingTokens →
      config.chunkSize ∣ reqMeta.tokenIds.length →
      { call with
        tokenIds := call.tokenIds.take (reqMeta.tokenIds.length /
          config.chunkSize * config.chunkSize)
        storeMask := call.storeMask.take (reqMeta.tokenIds.length /
          config.chunkSize * config.chunkSize)
        slotMapping := call.slotMapping.take (reqMeta.tokenIds.length /
          config.chunkSize * config.chunkSize) } = call := by
    rintro call rfl hdvd
    rw [Nat.div_mul_cancel hdvd]
    simp [StoreCall.masking, ← hslots]
  unfold storeOf saveKvLayer waitForSave
  simp only [hrole]
  by_cases hcan : reqMeta.saveSpec.canSave
  · by_cases hskip : reqMeta.saveSpec.skipLeadingTokens = reqMeta.tokenIds.length
    · simp [hcan, hskip, hslots]
    · cases hlast : reqMeta.isLastPrefill with
      | true => simp [hcan, hskip, hslots]
      | false =>
        simp [hcan, hskip, hslots, hcut _ rfl (haligned hlast)]
  · simp [hcan]

/-! One step. -/

section SaveStep

variable {config : ConnectorConfig} {loadSpec : Option LoadSpec}
  {saveDecodeCache : Bool} {run next : SaveRun}

theorem numTokensToSave_div (tracker : RequestTracker) {chunkSize : Nat}
    (hpos : 0 < chunkSize) (discardPartialChunks : Bool) :
    tracker.numTokensToSave chunkSize discardPartialChunks / chunkSize =
      tracker.tokenIds.length / chunkSize := by
  unfold RequestTracker.numTokensToSave
  split
  · exact Nat.mul_div_cancel _ hpos
  · rfl

theorem chunkBoundary_eq (tracker : RequestTracker) {chunkSize : Nat}
    (hpos : 0 < chunkSize) : tracker.chunkBoundary chunkSize =
      (tracker.numSavedTokens / chunkSize + 1) * chunkSize := by
  rw [RequestTracker.chunkBoundary, Nat.ceilDiv_eq_add_pred_div, ← Nat.add_div_right _ hpos]
  congr 2
  omega

/-- Nothing is saved when the scheduled tokens complete no further chunk, or
when the decode phase has ended the saving. -/
theorem skipsSave_iff {tracker : RequestTracker} {chunkSize : Nat} (hpos : 0 < chunkSize)
    (hdisagg : tracker.disaggSpec = none) (hsave : tracker.skipSave = false) :
    tracker.skipsSave chunkSize saveDecodeCache = true ↔
      (0 < tracker.numSavedTokens ∧ tracker.tokenIds.length / chunkSize ≤
        tracker.numSavedTokens / chunkSize) ∨
      (tracker.isDecodePhase && !saveDecodeCache) = true := by
  rw [← Nat.lt_succ_iff, Nat.div_lt_iff_lt_mul hpos, ← chunkBoundary_eq _ hpos]
  simp [RequestTracker.skipsSave, hdisagg, hsave]

/-- The metadata of a request whose blocks hold its tokens is stored, past
the saved tokens. -/
theorem storeOf_fromRequestTracker (hrole : config.kvRole = .kvBoth) {tracker : RequestTracker}
    (hblocks : tracker.tokenIds.length ≤
      tracker.allocatedBlockIds.length * config.blockSize) {reqMeta : ReqMeta}
    (hmeta : (ReqMeta.fromRequestTracker tracker config.blockSize
      config.chunkSize loadSpec config.discardPartialChunks
      saveDecodeCache).2 = some reqMeta) :
    storeOf config reqMeta = some (if tracker.skipsSave config.chunkSize saveDecodeCache = true ∨
          tracker.numSavedTokens = reqMeta.tokenIds.length then none
      else some (StoreCall.masking config.chunkSize reqMeta tracker.numSavedTokens)) := by
  obtain ⟨htokens, hslots, hlast, hspec, -⟩ := fromRequestTracker_some hmeta
  have hheld : reqMeta.slotMapping.length = reqMeta.tokenIds.length := by
    rw [hslots, Nat.min_eq_left]
    rw [htokens]
    exact Nat.le_trans (numTokensToSave_le ..) hblocks
  have haligned : reqMeta.isLastPrefill = false → config.chunkSize ∣ reqMeta.tokenIds.length := by
    intro hnot
    rw [htokens, RequestTracker.numTokensToSave, ← hlast, hnot]
    exact Nat.dvd_mul_left ..
  rw [storeOf_kvBoth hrole hheld haligned, hspec]
  simp

theorem save_eq_of_skipsSave (hrole : config.kvRole = .kvBoth)
    (hblocks : run.tracker.tokenIds.length ≤
      run.tracker.allocatedBlockIds.length * config.blockSize)
    (hskip : run.tracker.skipsSave config.chunkSize saveDecodeCache = true) :
    SaveRun.save config loadSpec saveDecodeCache run = some run := by
  have hkept : (ReqMeta.fromRequestTracker run.tracker config.blockSize
      config.chunkSize loadSpec config.discardPartialChunks
      saveDecodeCache).1 = run.tracker := by
    rw [ReqMeta.fromRequestTracker]
    dsimp only
    split <;> rfl
  unfold SaveRun.save
  dsimp only
  rw [hkept]
  split
  · rfl
  · next reqMeta hmeta =>
    rw [storeOf_fromRequestTracker hrole hblocks hmeta, if_pos (Or.inl hskip)]
    simp

/-- A step that saves stores one call up to the tokens to be saved, if there
are any past the saved ones. -/
theorem save_eq_of_not_skipsSave (loadSpec : Option LoadSpec) (hrole : config.kvRole = .kvBoth)
    (hblocks : run.tracker.tokenIds.length ≤
      run.tracker.allocatedBlockIds.length * config.blockSize)
    (hskip : ¬run.tracker.skipsSave config.chunkSize saveDecodeCache = true) :
    ∃ reqMeta : ReqMeta, reqMeta.tokenIds.length = run.tracker.numTokensToSave config.chunkSize
        config.discardPartialChunks ∧
      SaveRun.save config loadSpec saveDecodeCache run = some
        ⟨{ run.tracker with numSavedTokens := reqMeta.tokenIds.length },
          if run.tracker.numSavedTokens = reqMeta.tokenIds.length then run.stores
          else run.stores ++ [StoreCall.masking config.chunkSize reqMeta
            run.tracker.numSavedTokens]⟩ := by
  obtain ⟨reqMeta, hmeta⟩ := Option.ne_none_iff_exists'.mp fun hnone =>
    hskip ((fromRequestTracker_isNone run.tracker config.blockSize
      config.chunkSize loadSpec config.discardPartialChunks
      saveDecodeCache).mp hnone).1
  have htokens := (fromRequestTracker_some hmeta).1
  have hsaved : (ReqMeta.fromRequestTracker run.tracker config.blockSize
      config.chunkSize loadSpec config.discardPartialChunks
      saveDecodeCache).1 = { run.tracker with numSavedTokens := reqMeta.tokenIds.length } := by
    rw [htokens, ReqMeta.fromRequestTracker]
    simp [hskip]
  refine ⟨reqMeta, htokens, ?_⟩
  unfold SaveRun.save
  dsimp only
  rw [hmeta, hsaved]
  dsimp only
  rw [storeOf_fromRequestTracker hrole hblocks hmeta]
  split_ifs with hnothing hsame hsame
  · simp
  · exact absurd hnothing (not_or_intro hskip hsame)
  · exact absurd (Or.inr hsame) hnothing
  · simp

end SaveStep

/-! The invariant of a schedule. -/

theorem Contiguous.concat {lower upper : Nat} {calls : List StoreCall}
    {call : StoreCall} (hcalls : Contiguous lower calls upper)
    (hoffset : call.offset ≤ upper) (hlt : upper < call.tokenIds.length) :
    Contiguous lower (calls ++ [call]) call.tokenIds.length := by
  induction calls generalizing lower with
  | nil =>
    have heq : lower = upper := hcalls
    exact heq ▸ ⟨hoffset, hlt, rfl⟩
  | cons head tail ih => exact ⟨hcalls.1, hcalls.2.1, ih hcalls.2.2⟩

/-- The chunks stored so far are the full ones from the cached tokens to the
saved ones; `reached` tokens were scheduled when the saving ended, or now. -/
structure SaveInv (chunkSize cachedTokens reached : Nat) (run : SaveRun) : Prop where
  disagg : run.tracker.disaggSpec = none
  saves : run.tracker.skipSave = false
  saved : run.tracker.numSavedTokens / chunkSize =
    max (cachedTokens / chunkSize) (reached / chunkSize)
  contiguous : Contiguous cachedTokens run.stores run.tracker.numSavedTokens
  once : ∀ chunkId, run.stores.countP (·.storesChunk chunkSize chunkId) =
    if cachedTokens / chunkSize ≤ chunkId ∧
      chunkId < run.tracker.numSavedTokens / chunkSize then 1 else 0

section SaveRuns

variable {config : ConnectorConfig} {loadSpec : Option LoadSpec}
  {saveDecodeCache : Bool} {cachedTokens reached : Nat} {run : SaveRun}

theorem lt_numTokensToSave (hdisagg : run.tracker.disaggSpec = none)
    (hsaves : run.tracker.skipSave = false)
    (hskip : ¬run.tracker.skipsSave config.chunkSize saveDecodeCache = true)
    (hne : run.tracker.numSavedTokens ≠ run.tracker.numTokensToSave
      config.chunkSize config.discardPartialChunks) :
    run.tracker.numSavedTokens < run.tracker.numTokensToSave
      config.chunkSize config.discardPartialChunks := by
  rw [skipsSave_iff config.chunkSize_pos hdisagg hsaves, not_or, not_and, not_le] at hskip
  rcases Nat.eq_zero_or_pos run.tracker.numSavedTokens with hzero | hpos
  · omega
  · have hchunks := hskip.1 hpos
    rw [← numTokensToSave_div _ config.chunkSize_pos config.discardPartialChunks] at hchunks
    exact Nat.lt_of_not_le fun hle =>
      absurd (Nat.div_le_div_right hle) (Nat.not_le_of_lt hchunks)

/-- The tracker has no disaggregation, its cache is to be saved, and so many
tokens are saved at least. -/
def SavedAtLeast (lower : Nat) (run : SaveRun) : Prop :=
  run.tracker.disaggSpec = none ∧ run.tracker.skipSave = false ∧ lower ≤ run.tracker.numSavedTokens

theorem SavedAtLeast.save {lower : Nat} (hrun : SavedAtLeast lower run) {next : SaveRun}
    (hnext : SaveRun.save config loadSpec saveDecodeCache run = some next) :
    SavedAtLeast lower next := by
  have htracker : next.tracker = (ReqMeta.fromRequestTracker run.tracker
      config.blockSize config.chunkSize loadSpec config.discardPartialChunks
      saveDecodeCache).1 := by
    unfold SaveRun.save at hnext
    dsimp only at hnext
    split at hnext
    · cases hnext
      rfl
    · obtain ⟨call, -, rfl⟩ := Option.map_eq_some_iff.mp hnext
      rfl
  unfold ReqMeta.fromRequestTracker at htracker
  dsimp only at htracker
  rw [SavedAtLeast, htracker]
  split_ifs with hnone hskip
  · exact hrun
  · exact hrun
  · refine ⟨hrun.1, hrun.2.1, Nat.le_trans hrun.2.2 ?_⟩
    by_cases hsame : run.tracker.numSavedTokens = run.tracker.numTokensToSave
        config.chunkSize config.discardPartialChunks
    · exact Nat.le_of_eq hsame
    · exact Nat.le_of_lt (lt_numTokensToSave hrun.1 hrun.2.1 hskip hsame)

theorem SavedAtLeast.run_steps {lower : Nat} (hrun : SavedAtLeast lower run)
    {steps : List ScheduledStep} {next : SaveRun}
    (hnext : runFrom (SaveRun.step config) run steps = some next) : SavedAtLeast lower next := by
  have hmeets : Meets (SaveRun.step config) (fun _ _ => True) run steps :=
    meets_of_forall_mem fun _ _ => trivial
  apply run_invariant _ hrun hmeets hnext
  intro state step after hstate _ hafter
  apply SavedAtLeast.save _ hafter
  exact hstate

/-- A step keeps the invariant; the tokens scheduled by then are reached
unless the decode phase has ended the saving. -/
theorem SaveInv.save (hinv : SaveInv config.chunkSize cachedTokens reached run)
    (loadSpec : Option LoadSpec) (saveDecodeCache : Bool) (hrole : config.kvRole = .kvBoth)
    (hblocks : run.tracker.tokenIds.length ≤
      run.tracker.allocatedBlockIds.length * config.blockSize)
    (hreached : reached ≤ run.tracker.tokenIds.length) :
    ∃ stores saved, SaveRun.save config loadSpec saveDecodeCache run =
        some ⟨{ run.tracker with numSavedTokens := saved }, stores⟩ ∧
      run.tracker.numSavedTokens ≤ saved ∧
      SaveInv config.chunkSize cachedTokens
        (if run.tracker.isDecodePhase && !saveDecodeCache then reached
          else run.tracker.tokenIds.length)
        ⟨{ run.tracker with numSavedTokens := saved }, stores⟩ := by
  have hpos := config.chunkSize_pos
  have hchunks : reached / config.chunkSize ≤ run.tracker.tokenIds.length / config.chunkSize :=
    Nat.div_le_div_right hreached
  have hskips : run.tracker.skipsSave config.chunkSize saveDecodeCache = true ↔
      _ := skipsSave_iff hpos hinv.disagg hinv.saves
  by_cases hskip : run.tracker.skipsSave config.chunkSize saveDecodeCache = true
  · refine ⟨run.stores, run.tracker.numSavedTokens, save_eq_of_skipsSave hrole hblocks hskip,
      Nat.le_refl _, hinv.disagg, hinv.saves, ?_, hinv.contiguous, hinv.once⟩
    have hsaved := hinv.saved
    split_ifs with hdecode
    · exact hsaved
    · have hle := ((hskips.mp hskip).resolve_right hdecode).2
      dsimp only
      omega
  · obtain ⟨reqMeta, htokens, hsave⟩ := save_eq_of_not_skipsSave loadSpec hrole hblocks hskip
    have hdiv : reqMeta.tokenIds.length / config.chunkSize =
        run.tracker.tokenIds.length / config.chunkSize := by
      rw [htokens, numTokensToSave_div _ hpos]
    have hopen : ¬(run.tracker.isDecodePhase && !saveDecodeCache) = true :=
      fun hdecode => hskip (hskips.mpr (Or.inr hdecode))
    have hlt := lt_numTokensToSave hinv.disagg hinv.saves hskip
    rw [← htokens] at hlt
    rw [if_neg hopen]
    have hle : run.tracker.numSavedTokens ≤ reqMeta.tokenIds.length :=
      Nat.le_of_not_lt fun hgt => absurd (hlt (Nat.ne_of_gt hgt)) (by omega)
    have hledge : run.tracker.numSavedTokens / config.chunkSize ≤
        reqMeta.tokenIds.length / config.chunkSize :=
      Nat.div_le_div_right hle
    have hsaved := hinv.saved
    refine ⟨_, _, hsave, hle, hinv.disagg, hinv.saves, ?_, ?_, ?_⟩
    · dsimp only
      omega
    · dsimp only
      split_ifs with hsame
      · exact hsame ▸ hinv.contiguous
      · apply hinv.contiguous.concat _ (hlt hsame)
        exact Nat.div_mul_le_self ..
    · intro chunkId
      by_cases hsame : run.tracker.numSavedTokens = reqMeta.tokenIds.length
      · rw [if_pos hsame, hinv.once, hsame]
      · rw [if_neg hsame, List.countP_append, hinv.once, List.countP_singleton]
        simp only [storesChunk_masking hpos]
        split_ifs <;> omega

/-- The invariant over the steps after the first.  `reached` goes along with
the scheduled tokens until a step of one token ends the saving. -/
theorem SaveInv.run_steps (hrole : config.kvRole = .kvBoth) {steps : List ScheduledStep}
    (hinv : SaveInv config.chunkSize cachedTokens reached run) (hblocks : ∀ first, first <+: steps →
      run.tracker.tokenIds.length + (first.map (·.newTokenIds.length)).sum ≤
        (run.tracker.allocatedBlockIds.length +
          (first.map (·.newBlockIds.length)).sum) * config.blockSize)
    (hreached : reached ≤ run.tracker.tokenIds.length) (hopen : ¬run.hasEnded config = true →
      reached = run.tracker.tokenIds.length) :
    ∃ final, runFrom (SaveRun.step config) run steps = some final ∧
      SaveInv config.chunkSize cachedTokens (if run.hasEnded config then reached
        else SaveSchedule.tokensBeforeDecode config.savesDecode
          run.tracker.tokenIds.length steps) final := by
  induction steps generalizing run reached with
  | nil =>
    refine ⟨run, rfl, ?_⟩
    split_ifs with hended
    · exact hinv
    · exact hopen hended ▸ hinv
  | cons step rest ih =>
    set updated : SaveRun := { run with
      tracker := run.tracker.update step.newTokenIds step.newBlockIds }
      with hupdated
    have hlength : updated.tracker.tokenIds.length =
        run.tracker.tokenIds.length + step.newTokenIds.length :=
      List.length_append
    have hheld : updated.tracker.allocatedBlockIds.length =
        run.tracker.allocatedBlockIds.length + step.newBlockIds.length :=
      List.length_append
    have hinv' : SaveInv config.chunkSize cachedTokens reached updated :=
      ⟨hinv.disagg, hinv.saves, hinv.saved, hinv.contiguous, hinv.once⟩
    obtain ⟨stores, saved, hsave, -, hnext⟩ := hinv'.save none config.savesDecode hrole
      (by simpa [hlength, hheld] using hblocks [step] (by simp)) (by omega)
    have hended : updated.hasEnded config = (run.hasEnded config ||
        (step.newTokenIds.length == 1 && !config.savesDecode)) := by
      rw [SaveRun.hasEnded, SaveRun.hasEnded, ← Bool.and_or_distrib_right]
      rfl
    obtain ⟨final, hrun, hfinal⟩ := @ih _ _ hnext (fun first hfirst => by
        have hstep := hblocks (step :: first) (List.cons_prefix_cons.mpr ⟨rfl, hfirst⟩)
        simp only [List.map_cons, List.sum_cons] at hstep
        simp only [hlength, hheld]
        rw [Nat.add_assoc, Nat.add_assoc]
        exact hstep)
      (by dsimp only; split_ifs <;> omega)
      (fun hnot => if_neg hnot)
    refine ⟨final, ?_, ?_⟩
    · rw [runFrom, SaveRun.step, hsave]
      exact hrun
    · convert hfinal using 1
      show (if run.hasEnded config then reached else _) =
        if updated.hasEnded config then
          if updated.hasEnded config then reached
          else updated.tracker.tokenIds.length
        else SaveSchedule.tokensBeforeDecode config.savesDecode updated.tracker.tokenIds.length rest
      rw [hended, hlength, SaveSchedule.tokensBeforeDecode]
      cases hrun : run.hasEnded config with
      | true => simp
      | false =>
        have heq := hopen (by simp [hrun])
        cases hone : step.newTokenIds.length == 1 && !config.savesDecode <;> simp [heq]

end SaveRuns

namespace SaveSchedule

variable (schedule : SaveSchedule)

theorem saveInv_initial : SaveInv schedule.config.chunkSize schedule.cachedTokens 0
      ⟨schedule.tracker, []⟩ where
  disagg := rfl
  saves := rfl
  saved := by simp [tracker, RequestTracker.fromNewRequest]
  contiguous := rfl
  once := by
    intro chunkId
    rw [if_neg]
    · rfl
    · simp only [tracker, RequestTracker.fromNewRequest]
      omega

variable {schedule}

theorem BlocksHold.of_prefix (hblocks : schedule.BlocksHold)
    {steps : List ScheduledStep} (hpre : steps <+: schedule.steps) :
    schedule.tracker.tokenIds.length + (steps.map (·.newTokenIds.length)).sum ≤
      (schedule.tracker.allocatedBlockIds.length + (steps.map (·.newBlockIds.length)).sum) *
          schedule.config.blockSize := by
  have hcount := hblocks steps.length hpre.length_le
  rw [← List.prefix_iff_eq_take.mp hpre] at hcount
  exact hcount

theorem runs_steps (hrole : schedule.config.kvRole = .kvBoth) (hblocks : schedule.BlocksHold) :
    ∃ final, schedule.runs schedule.steps = some final ∧
      SaveInv schedule.config.chunkSize schedule.cachedTokens
        (tokensBeforeDecode schedule.config.savesDecode
          schedule.tracker.tokenIds.length schedule.steps) final := by
  obtain ⟨stores, saved, hsave, -, hfirst⟩ :=
    schedule.saveInv_initial.save schedule.loadSpec schedule.config.saveDecodeCache hrole
      (hblocks.of_prefix List.nil_prefix) (Nat.zero_le _)
  obtain ⟨final, hrun, hfinal⟩ := hfirst.run_steps hrole
    (fun _ => hblocks.of_prefix) (Nat.le_refl _) (fun _ => rfl)
  refine ⟨final, ?_, hfinal⟩
  rw [runs, firstRun, hsave]
  exact hrun

theorem numSavedTokens_mono {first second : List ScheduledStep} {run next : SaveRun}
    (hpre : first <+: second) (hrun : schedule.runs first = some run)
    (hnext : schedule.runs second = some next) :
    run.tracker.numSavedTokens ≤ next.tracker.numSavedTokens := by
  obtain ⟨rest, rfl⟩ := hpre
  rw [runs, Option.bind_eq_some_iff] at hrun hnext
  obtain ⟨start, hstart, hrun⟩ := hrun
  obtain ⟨start', hstart', hnext⟩ := hnext
  cases hstart.symm.trans hstart'
  obtain ⟨middle, hmiddle, hrest⟩ := runFrom_append hnext
  cases hrun.symm.trans hmiddle
  have hinitial : SavedAtLeast 0 ⟨schedule.tracker, []⟩ := ⟨rfl, rfl, Nat.zero_le _⟩
  have hbefore := (hinitial.save hstart).run_steps hrun
  have hafter : SavedAtLeast run.tracker.numSavedTokens run :=
    ⟨hbefore.1, hbefore.2.1, Nat.le_refl _⟩
  exact (hafter.run_steps hrest).2.2

theorem once_iff {reached : Nat} {final : SaveRun}
    (hinv : SaveInv schedule.config.chunkSize schedule.cachedTokens reached final) :
    (∀ chunkId, schedule.cachedTokens < (chunkId + 1) * schedule.config.chunkSize →
      (chunkId + 1) * schedule.config.chunkSize ≤ schedule.tokensToStore →
      final.stores.countP (·.storesChunk schedule.config.chunkSize chunkId) = 1) ↔
      schedule.tokensToStore / schedule.config.chunkSize *
          schedule.config.chunkSize ≤ schedule.cachedTokens ∨
        schedule.tokensToStore / schedule.config.chunkSize *
          schedule.config.chunkSize ≤ reached := by
  have hpos := schedule.config.chunkSize_pos
  have hsaved := hinv.saved
  simp only [hinv.once, ← Nat.div_lt_iff_lt_mul hpos, ← Nat.le_div_iff_mul_le hpos]
  generalize schedule.tokensToStore / schedule.config.chunkSize = last,
    schedule.cachedTokens / schedule.config.chunkSize = cached,
    reached / schedule.config.chunkSize = scheduled,
    final.tracker.numSavedTokens / schedule.config.chunkSize = saved at *
  constructor
  · intro hall
    by_contra hnot
    have hlast := hall (last - 1) (by omega) (by omega)
    split_ifs at hlast
    omega
  · intro hle chunkId hcached hstore
    rw [if_pos]
    omega

end SaveSchedule

/-- The workers of a connector store every full chunk once if it saves and
loads, and the last one is cached or scheduled before the saving ends; such a
connector stores them once only then. -/
theorem storesOnce_savesInTime (schedule : SaveSchedule) (hblocks : schedule.BlocksHold) :
    (schedule.SavesInTime → schedule.StoresOnce) ∧
      (schedule.config.kvRole = .kvBoth → schedule.StoresOnce → schedule.SavesInTime) := by
  constructor
  · rintro ⟨hrole, htime⟩
    obtain ⟨final, hrun, hinv⟩ := SaveSchedule.runs_steps hrole hblocks
    constructor
    · exact ⟨final, hrun⟩
    · intro first second run next hpre _ hfirst hsecond
      exact SaveSchedule.numSavedTokens_mono hpre hfirst hsecond
    · intro final' hrun'
      cases hrun.symm.trans hrun'
      exact hinv.contiguous
    · intro final' hrun'
      cases hrun.symm.trans hrun'
      exact (SaveSchedule.once_iff hinv).mpr htime
  · intro hrole hstores
    obtain ⟨final, hrun, hinv⟩ := SaveSchedule.runs_steps hrole hblocks
    exact ⟨hrole, (SaveSchedule.once_iff hinv).mp (hstores.once final hrun)⟩

/-- A prompt of four tokens in chunks of two, of which nothing is cached, with
the given numbers of tokens in its steps. -/
def fourInTwos (first : Nat) (others : List Nat) : SaveSchedule where
  config :=
    { kvRole := .kvBoth
      useLayerwise := false
      blockSize := 16
      chunkSize := 2
      discardPartialChunks := false
      saveDecodeCache := false
      forceSkipSave := false
      priorityLimit := none
      supportsProducerReuse := false
      cachedReqsList := false
      chunkSize_pos := Nat.two_pos }
  request := ⟨(), [0, 1, 2, 3], [0], 0, []⟩
  loadSpec := none
  numTokensToCompute := first
  steps := others.map fun count => ⟨List.replicate count 0, []⟩

theorem storesOnce_fourInTwos : (fourInTwos 2 [2, 1, 1]).BlocksHold ∧
    (fourInTwos 2 [2, 1, 1]).StoresOnce :=
  ⟨by decide, (storesOnce_savesInTime _ (by decide)).1 (by decide)⟩

/-- Three tokens and then the last one of the prompt: the step of one token
is taken for a decode step, and the second chunk is never stored. -/
theorem not_storesOnce_fourInTwos :
    ∃ final, (fourInTwos 3 [1]).runs (fourInTwos 3 [1]).steps = some final ∧
      final.tracker.tokenIds.length = final.tracker.promptLen ∧
      final.stores.countP (·.storesChunk 2 1) = 0 ∧
      ¬(fourInTwos 3 [1]).StoresOnce := by
  refine ⟨_, rfl, rfl, rfl, ?_⟩
  intro hstores
  exact absurd (hstores.once _ rfl 1 (by decide) (by decide)) (by decide)

end CatKV
