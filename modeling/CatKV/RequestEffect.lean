/-
What one step of a request can do, and the facts about its chunk lists and
payloads that hold from the prefetch of layer 1 on.  After that prefetch the
active list never changes again, because the second compaction only ever sees
payloads that the first one kept, unless `DataCenter` has lost them; then
`get_reuse_kv` raises after it.
-/
import CatKV.ContextManager

namespace CatKV

open List

section Interleaving

variable {α : Type*}

/-- The whole list is the two parts merged, each in its own order. -/
inductive Interleaves : List α → List α → List α → Prop
  | nil : Interleaves [] [] []
  | left (item : α) {left right whole : List α} (hrest : Interleaves left right whole) :
      Interleaves (item :: left) right (item :: whole)
  | right (item : α) {left right whole : List α} (hrest : Interleaves left right whole) :
      Interleaves left (item :: right) (item :: whole)

theorem Interleaves.length_eq {left right whole : List α} (hmerge : Interleaves left right whole) :
    left.length + right.length = whole.length := by
  induction hmerge with
  | nil => rfl
  | left item hrest ih | right item hrest ih =>
    simp only [length_cons]
    omega

theorem interleaves_right (whole : List α) : Interleaves [] whole whole := by
  induction whole with
  | nil => exact .nil
  | cons item rest ih => exact .right item ih

theorem Interleaves.sublist {left right whole : List α} (hmerge : Interleaves left right whole) :
    left.Sublist whole := by
  induction hmerge with
  | nil => exact .slnil
  | left item hrest ih => exact ih.cons_cons item
  | right item hrest ih => exact ih.cons item

end Interleaving

section Hits

@[simp] theorem length_retrieve (active : List Chunk) (layer : Nat) (found : Nat → Found) :
    (retrieve active layer found).length = active.length := by
  simp [retrieve]

/-- Payload by payload, the KV of the chunks at this layer. -/
def Aligned (active : List Chunk) (layer : Nat) (payloads : List ReusePayload) : Prop :=
  payloads.map ReusePayload.kv = active.map fun chunk => ⟨chunk.hash, layer⟩

variable {payloads : List ReusePayload}

theorem Aligned.length_eq {active : List Chunk} {layer : Nat}
    (haligned : Aligned active layer payloads) : payloads.length = active.length := by
  simpa using congrArg List.length haligned

theorem aligned_retrieve (active : List Chunk) (layer : Nat) (found : Nat → Found) :
    Aligned active layer (retrieve active layer found) := by
  unfold Aligned retrieve
  apply ext_getElem?
  intro position
  simp only [getElem?_map, getElem?_mapIdx, Option.map_map]
  rfl

theorem forall_mem_retrieve (property : Found → Prop) (active : List Chunk)
    (layer : Nat) (found : Nat → Found) :
    (∀ payload ∈ retrieve active layer found, property payload.found) ↔
      ∀ position < active.length, property (found position) := by
  constructor
  · intro hall position hlt
    exact hall ⟨⟨active[position].hash, layer⟩, found position⟩
      (mem_mapIdx.mpr ⟨position, hlt, rfl⟩)
  · intro hall payload hmem
    obtain ⟨position, hlt, rfl⟩ := mem_mapIdx.mp hmem
    exact hall position hlt

theorem splitHits_cons_empty {payload : ReusePayload} (hempty : payload.isEmptyReusePayload = true)
    (chunk : Chunk) (chunks : List Chunk) (payloads : List ReusePayload) :
    splitHits (chunk :: chunks) (payload :: payloads) = ⟨(splitHits chunks payloads).kept,
        (splitHits chunks payloads).keptPayloads,
        chunk :: (splitHits chunks payloads).missing⟩ := by
  simp [splitHits, hempty]

theorem splitHits_cons_hit {payload : ReusePayload} (hhit : payload.isEmptyReusePayload = false)
    (chunk : Chunk) (chunks : List Chunk) (payloads : List ReusePayload) :
    splitHits (chunk :: chunks) (payload :: payloads) = ⟨chunk :: (splitHits chunks payloads).kept,
        payload :: (splitHits chunks payloads).keptPayloads,
        (splitHits chunks payloads).missing⟩ := by
  simp [splitHits, hhit]

variable {chunks : List Chunk}

theorem splitHits_keptPayloads (hlength : payloads.length = chunks.length) :
    (splitHits chunks payloads).keptPayloads =
      payloads.filter fun payload => !payload.isEmptyReusePayload := by
  induction chunks generalizing payloads with
  | nil =>
    obtain rfl : payloads = [] := by simpa using hlength
    rfl
  | cons chunk chunks ih =>
    cases payloads with
    | nil => simp at hlength
    | cons payload payloads =>
      have hrest := ih (Nat.succ.inj hlength)
      cases hempty : payload.isEmptyReusePayload with
      | true => simp [splitHits_cons_empty hempty, hempty, hrest]
      | false => simp [splitHits_cons_hit hempty, hempty, hrest]

theorem aligned_splitHits {layer : Nat} (haligned : Aligned chunks layer payloads) :
    Aligned (splitHits chunks payloads).kept layer (splitHits chunks payloads).keptPayloads := by
  induction chunks generalizing payloads with
  | nil => rfl
  | cons chunk chunks ih =>
    cases payloads with
    | nil => rfl
    | cons payload payloads =>
      simp only [Aligned, map_cons, List.cons.injEq] at haligned
      obtain ⟨hhead, htail⟩ := haligned
      have hrest := ih htail
      cases hempty : payload.isEmptyReusePayload with
      | true =>
        rw [splitHits_cons_empty hempty]
        exact hrest
      | false =>
        rw [splitHits_cons_hit hempty]
        simp only [Aligned, map_cons, hhead]
        exact congrArg _ hrest

theorem splitHits_of_nonempty (hlength : payloads.length = chunks.length)
    (hfull : ∀ payload ∈ payloads, payload.isEmptyReusePayload = false) :
    splitHits chunks payloads = ⟨chunks, payloads, []⟩ := by
  induction chunks generalizing payloads with
  | nil =>
    obtain rfl : payloads = [] := by simpa using hlength
    rfl
  | cons chunk chunks ih =>
    cases payloads with
    | nil => simp at hlength
    | cons payload payloads =>
      rw [forall_mem_cons] at hfull
      rw [splitHits_cons_hit hfull.1, ih (Nat.succ.inj hlength) hfull.2]

theorem interleaves_splitHits (chunks : List Chunk) (payloads : List ReusePayload) :
    Interleaves (splitHits chunks payloads).kept (splitHits chunks payloads).missing chunks := by
  induction chunks generalizing payloads with
  | nil => exact .nil
  | cons chunk chunks ih =>
    cases payloads with
    | nil => exact interleaves_right _
    | cons payload payloads =>
      cases hempty : payload.isEmptyReusePayload with
      | true =>
        rw [splitHits_cons_empty hempty]
        exact .right chunk (ih payloads)
      | false =>
        rw [splitHits_cons_hit hempty]
        exact .left chunk (ih payloads)

theorem splitHits_kept_sublist (chunks : List Chunk) (payloads : List ReusePayload) :
    (splitHits chunks payloads).kept.Sublist chunks :=
  (interleaves_splitHits chunks payloads).sublist

end Hits

section Effect

/-- Everything a step can do, with its guards. -/
inductive RequestEffect (request : ReuseRequest) (manager : ContextManager) :
    RequestStep → ContextManager → Prop
  | prefetchesFirst : RequestEffect request manager (.prefetch 1)
      { manager.prefetchChunkKv request 1 with useRuntimeReuse := false }
  | skips {layer : Nat} (hlayer : layer ≠ 1)
      (hskip : request.layerNum ≤ layer ∨ manager.active = []) :
      RequestEffect request manager (.prefetch layer) { manager with
          useRuntimeReuse := request.blendFlag && manager.hasValidReuse }
  | prefetches {layer : Nat} (hlayer : layer ≠ 1) : RequestEffect request manager (.prefetch layer)
        { manager with
          compressData := Function.update manager.compressData layer
            (manager.retrieveKeys request layer)
          useRuntimeReuse := request.blendFlag && manager.hasValidReuse }
  | idles {action : RequestStep}
      (hidle : ∀ layer, action ≠ .prefetch layer ∧ action ≠ .attend layer) :
      RequestEffect request manager action manager
  | compacts {payloads : List ReusePayload} (hreuse : manager.useRuntimeReuse = true)
      (hpayloads : manager.materializeCompressData request 1 = some payloads) :
      RequestEffect request manager (.materialize 1)
        ((manager.compactReuseHits payloads).1.setCompressData 1
          (.payloads (manager.compactReuseHits payloads).2))
  | materializes {layer : Nat} {payloads : List ReusePayload} (hlayer : layer ≠ 1)
      (hpayloads : manager.materializeCompressData request layer = some payloads) :
      RequestEffect request manager (.materialize layer)
        (manager.setCompressData layer (.payloads payloads))
  | copies {layer : Nat} {payloads : List ReusePayload}
      {cache : Nat → Nat → Cell} {buffer : Nat → Cell}
      (hpayloads : manager.compressData layer = .payloads payloads)
      (hcache : manager.pingPongCache = some cache)
      (hcopy : copyPayloads request manager.active payloads 0 (cache (layer % 2)) = some buffer) :
      RequestEffect request manager (.copy layer) { manager with
          pingPongCache := some (Function.update cache (layer % 2) buffer)
          compressData := Function.update manager.compressData layer .none
          reuseKvFinished := Function.update manager.reuseKvFinished layer true }
  | selects (hreuse : manager.useRuntimeReuse = true) : RequestEffect request manager (.attend 1)
        ((manager.selectTokens request).offloadMissingChunks 1)
  | blends {layer : Nat} {positions : List Nat} {cache : Nat → Nat → Cell}
      (hlayer : layer ≠ 1) (hpositions : manager.recomputedIdx = some positions)
      (hcache : manager.pingPongCache = some cache) :
      RequestEffect request manager (.attend layer) (ContextManager.offloadMissingChunks
          { manager with
            pingPongCache := some (Function.update cache (layer % 2)
              fun position =>
                if position ∈ positions then .recomputed layer
                else cache (layer % 2) position) } layer)
  | prefills {layer : Nat} (hreuse : manager.useRuntimeReuse = false) :
      RequestEffect request manager (.attend layer) (manager.offloadMissingChunks layer)

variable {layer : Nat}

theorem prefetchChunkKv_later (request : ReuseRequest)
    (manager : ContextManager) (hlayer : layer ≠ 1) :
    manager.prefetchChunkKv request layer =
      if request.layerNum ≤ layer ∨ manager.active = [] then manager
      else manager.setCompressData layer (manager.retrieveKeys request layer) := by
  by_cases hend : request.layerNum ≤ layer
  · simp [ContextManager.prefetchChunkKv, hend]
  · by_cases hactive : manager.active = []
    · simp [ContextManager.prefetchChunkKv, hlayer, ContextManager.hasValidReuse, hactive]
    · simp [ContextManager.prefetchChunkKv, hlayer, hend, ContextManager.hasValidReuse, hactive]

theorem prefetch_effect (request : ReuseRequest) (manager : ContextManager) (layer : Nat) :
    RequestEffect request manager (.prefetch layer) { manager.prefetchChunkKv request layer with
        useRuntimeReuse := request.blendFlag && decide (layer ≠ 1) &&
          (manager.prefetchChunkKv request layer).hasValidReuse } := by
  by_cases hone : layer = 1
  · subst hone
    simpa using RequestEffect.prefetchesFirst
  · rw [prefetchChunkKv_later request manager hone]
    split
    · next hskip => simpa [hone] using RequestEffect.skips hone hskip
    · simpa [hone, ContextManager.setCompressData,
        ContextManager.hasValidReuse] using RequestEffect.prefetches hone

variable {request : ReuseRequest} {manager next : ContextManager} {action : RequestStep}

theorem materialize_effect (hreuse : manager.useRuntimeReuse = true)
    (hstep : manager.materializeReuse request layer = some next) :
    RequestEffect request manager (.materialize layer) next := by
  unfold ContextManager.materializeReuse at hstep
  split at hstep
  · cases hstep
    exact .idles (by simp)
  · split at hstep
    · cases hstep
    · next payloads hpayloads =>
      split at hstep
      · next hone =>
        subst hone
        cases hstep
        exact .compacts hreuse hpayloads
      · next hone =>
        cases hstep
        exact .materializes hone hpayloads

theorem copy_effect (hstep : manager.copyReuse request layer = some next) :
    RequestEffect request manager (.copy layer) next := by
  unfold ContextManager.copyReuse at hstep
  split at hstep
  · cases hstep
    exact .idles (by simp)
  · split at hstep
    · next payloads cache hpayloads hcache =>
      split at hstep
      · cases hstep
      · next buffer hcopy =>
        cases hstep
        exact .copies hpayloads hcache hcopy
    · cases hstep

theorem attend_effect (hstep : manager.attend request layer = some next) :
    RequestEffect request manager (.attend layer) next := by
  unfold ContextManager.attend at hstep
  split at hstep
  · next hreuse =>
    split at hstep
    · next hone =>
      subst hone
      cases hstep
      exact .selects hreuse
    · next hone =>
      unfold ContextManager.blendLayer at hstep
      split at hstep
      · next positions cache hpositions hcache =>
        cases hstep
        exact .blends hone hpositions hcache
      · cases hstep
  · next hreuse =>
    cases hstep
    exact .prefills (by simpa using hreuse)

theorem ContextManager.effect_of_step (hstep : manager.step request action = some next) :
    RequestEffect request manager action next := by
  cases action with
  | prefetch layer =>
    cases hstep
    exact prefetch_effect request manager layer
  | materialize layer =>
    simp only [ContextManager.step] at hstep
    split at hstep
    · next hreuse => exact materialize_effect hreuse hstep
    · cases hstep
      exact .idles (by simp)
  | copy layer =>
    simp only [ContextManager.step] at hstep
    split at hstep
    · exact copy_effect hstep
    · cases hstep
      exact .idles (by simp)
  | attend layer => exact attend_effect hstep

end Effect

section Invariant

/-- What the prefetch of layer 1 finds. -/
def ReuseRequest.hits (request : ReuseRequest) : SplitHits :=
  splitHits request.chunks (retrieve request.chunks 1 (request.found 1))

/-- `get_reuse_kv` of layer 1 retries its payload list through `DataCenter`. -/
def ReuseRequest.Empties (request : ReuseRequest) : Prop :=
  request.blendFlag = true ∧ request.compressType = .ours ∧ request.catkvOps = false ∧
    allOursPayloadsComplete request.hits.keptPayloads = false

/-- A step after the prefetch of layer 1 that works on the payloads it kept. -/
def RequestStep.Follows (request : ReuseRequest) (action : RequestStep) : Prop :=
  action ≠ .prefetch 1 ∧ (action = .materialize 1 → ¬ request.Empties)

variable {request : ReuseRequest} {manager next : ContextManager} {action : RequestStep}

theorem ReuseRequest.hits_nonempty (request : ReuseRequest) : ∀ payload ∈ request.hits.keptPayloads,
    payload.isEmptyReusePayload = false := by
  intro payload hpayload
  rw [ReuseRequest.hits, splitHits_keptPayloads (length_retrieve _ _ _)] at hpayload
  simpa using (mem_filter.mp hpayload).2

theorem ReuseRequest.hits_aligned (request : ReuseRequest) :
    Aligned request.hits.kept 1 request.hits.keptPayloads :=
  aligned_splitHits (aligned_retrieve _ _ _)

theorem compactReuseHits_hits (hactive : manager.active = request.hits.kept)
    (hkept : request.hits.kept ≠ []) :
    manager.compactReuseHits request.hits.keptPayloads =
      ({ manager with missing := [] }, request.hits.keptPayloads) := by
  have hsplit : splitHits manager.active request.hits.keptPayloads =
      ⟨manager.active, request.hits.keptPayloads, []⟩ :=
    hactive ▸ splitHits_of_nonempty request.hits_aligned.length_eq request.hits_nonempty
  have hvalid : manager.active ≠ [] := hactive ▸ hkept
  simp [ContextManager.compactReuseHits, ContextManager.hasValidReuse, hsplit, hvalid]

/-- Payloads of a later layer as `get_reuse_kv` may see them. -/
structure Loaded (request : ReuseRequest) (layer : Nat) (payloads : List ReusePayload) : Prop where
  aligned : Aligned request.hits.kept layer payloads
  first : request.compressType = .none →
    payloads = retrieve request.hits.kept layer (request.found layer)
  complete : request.compressType = .ours → allOursPayloadsComplete payloads = true

variable {payloads : List ReusePayload}

theorem of_firstComplete {attempts : List (List ReusePayload)}
    (hfirst : firstComplete attempts = some payloads) :
    payloads ∈ attempts ∧ allOursPayloadsComplete payloads = true := by
  induction attempts with
  | nil => simp [firstComplete] at hfirst
  | cons attempt rest ih =>
    unfold firstComplete at hfirst
    split at hfirst
    · next hcomplete =>
      cases hfirst
      exact ⟨mem_cons_self, hcomplete⟩
    · obtain ⟨hmem, hcomplete⟩ := ih hfirst
      exact ⟨mem_cons_of_mem _ hmem, hcomplete⟩

/-- Holds from the prefetch of layer 1 on. -/
structure ReuseInv (request : ReuseRequest) (manager : ContextManager) : Prop where
  requested : manager.requested = request.chunks
  active : manager.active = request.hits.kept
  reuse : manager.useRuntimeReuse = true → request.blendFlag = true ∧ request.hits.kept ≠ []
  firstData : manager.compressData 1 = .none ∨
    manager.compressData 1 = .payloads request.hits.keptPayloads
  laterData : ∀ layer payloads, layer ≠ 1 → manager.compressData layer = .payloads payloads →
    Loaded request layer payloads

section

variable (hinv : ReuseInv request manager)

include hinv

theorem ReuseInv.materialize_one (hkeeps : ¬ request.Empties)
    (hreuse : manager.useRuntimeReuse = true)
    (hpayloads : manager.materializeCompressData request 1 = some payloads) :
    payloads = request.hits.keptPayloads ∧ (request.compressType = .ours →
        allOursPayloadsComplete payloads = true) := by
  unfold ContextManager.materializeCompressData at hpayloads
  rcases hinv.firstData with hdata | hdata
  · simp [hdata] at hpayloads
  · cases htype : request.compressType with
    | none =>
      simp only [hdata, htype, Option.some.injEq] at hpayloads
      exact ⟨hpayloads.symm, by simp⟩
    | ours =>
      simp only [hdata, htype] at hpayloads
      split at hpayloads
      · next hcomplete =>
        cases hpayloads
        exact ⟨rfl, fun _ => hcomplete⟩
      · next hincomplete =>
        split at hpayloads
        · cases hpayloads
        · next hops =>
          exact absurd ⟨(hinv.reuse hreuse).1, htype, by simpa using hops,
            by simpa using hincomplete⟩ hkeeps

theorem ReuseInv.materialize_later {layer : Nat} (hlayer : layer ≠ 1)
    (hpayloads : manager.materializeCompressData request layer =
      some payloads) : Loaded request layer payloads := by
  unfold ContextManager.materializeCompressData at hpayloads
  split at hpayloads
  · next hdata =>
    cases hpayloads
    exact hinv.laterData layer _ hlayer hdata
  · next htype hdata =>
    have hloaded := hinv.laterData layer _ hlayer hdata
    rw [if_pos (hloaded.complete htype)] at hpayloads
    cases hpayloads
    exact hloaded
  · next htype hdata =>
    obtain ⟨hmem, hcomplete⟩ := of_firstComplete hpayloads
    obtain ⟨found, -, rfl⟩ := mem_map.mp hmem
    refine ⟨hinv.active ▸ aligned_retrieve _ _ _, ?_, fun _ => hcomplete⟩
    simp [htype]
  · cases hpayloads
  · cases hpayloads

theorem ReuseInv.retrieveKeys {layer : Nat}
    (hdata : manager.retrieveKeys request layer = .payloads payloads) :
    Loaded request layer payloads := by
  unfold ContextManager.retrieveKeys at hdata
  cases htype : request.compressType with
  | none =>
    simp only [htype, hinv.active, CompressData.payloads.injEq] at hdata
    subst hdata
    exact ⟨aligned_retrieve _ _ _, fun _ => rfl, by simp [htype]⟩
  | ours => simp [htype] at hdata

theorem ReuseInv.update (layer : Nat) (data : CompressData) (hfirst : layer = 1 → data = .none ∨
      data = .payloads request.hits.keptPayloads)
    (hlater : ∀ payloads, layer ≠ 1 → data = .payloads payloads →
      Loaded request layer payloads) : ReuseInv request (manager.setCompressData layer data) := by
  refine ⟨hinv.requested, hinv.active, hinv.reuse, ?_, ?_⟩
  · by_cases hone : layer = 1
    · simpa [ContextManager.setCompressData, hone] using hfirst hone
    · simpa [ContextManager.setCompressData, Ne.symm hone] using hinv.firstData
  · intro other payloads hother hdata
    by_cases hsame : other = layer
    · subst hsame
      exact hlater payloads hother (by simpa [ContextManager.setCompressData] using hdata)
    · exact hinv.laterData other payloads hother
        (by simpa [ContextManager.setCompressData, hsame] using hdata)

theorem ReuseInv.step (heffect : RequestEffect request manager action next)
    (hfollows : action.Follows request) : ReuseInv request next := by
  have hvalid : (request.blendFlag && manager.hasValidReuse) = true →
      request.blendFlag = true ∧ request.hits.kept ≠ [] := by
    simp [ContextManager.hasValidReuse, hinv.active]
  cases heffect with
  | prefetchesFirst => exact absurd rfl hfollows.1
  | skips hlayer hskip =>
    exact ⟨hinv.requested, hinv.active, hvalid, hinv.firstData, hinv.laterData⟩
  | prefetches hlayer =>
    have hnext := hinv.update _ _ (fun hone => absurd hone hlayer)
      fun payloads _ hdata => hinv.retrieveKeys hdata
    exact ⟨hinv.requested, hinv.active, hvalid, hnext.firstData, hnext.laterData⟩
  | idles => exact hinv
  | compacts hreuse hpayloads =>
    obtain ⟨rfl, -⟩ := hinv.materialize_one (hfollows.2 rfl) hreuse hpayloads
    rw [compactReuseHits_hits hinv.active (hinv.reuse hreuse).2]
    have hcleared : ReuseInv request { manager with missing := [] } :=
      ⟨hinv.requested, hinv.active, hinv.reuse, hinv.firstData, hinv.laterData⟩
    exact hcleared.update _ _ (fun _ => Or.inr rfl) fun _ hone => absurd rfl hone
  | materializes hlayer hpayloads =>
    refine hinv.update _ _ (fun hone => absurd hone hlayer) ?_
    rintro _ - ⟨⟩
    exact hinv.materialize_later hlayer hpayloads
  | @copies layer =>
    have hnext := hinv.update layer .none (fun _ => Or.inl rfl) (by simp)
    exact ⟨hinv.requested, hinv.active, hinv.reuse, hnext.firstData, hnext.laterData⟩
  | selects | blends | prefills =>
    exact ⟨hinv.requested, hinv.active, hinv.reuse, hinv.firstData, hinv.laterData⟩

end

/-- What the prefetch of layer 1 makes of a state. -/
structure FirstPrefetched (request : ReuseRequest) (manager next : ContextManager) : Prop where
  inv : ReuseInv request next
  missing : next.missing = request.hits.missing
  firstData : request.hits.kept ≠ [] →
    next.compressData 1 = .payloads request.hits.keptPayloads
  cache : request.hits.kept ≠ [] →
    next.pingPongCache = some fun _ _ => .zero
  finished : next.reuseKvFinished = manager.reuseKvFinished
  offloaded : next.offloaded = manager.offloaded
  keySv : request.compressType = .ours → request.hits.kept ≠ [] →
    next.keySv = some (buildKeySvDedupGroups request.hits.keptPayloads)

theorem compactReuseHits_chunks (manager : ContextManager) (hchunks : request.chunks ≠ []) :
    (manager.initializeReuseRequest request).compactReuseHits
        (retrieve request.chunks 1 (request.found 1)) =
      ({ manager.initializeReuseRequest request with
          active := request.hits.kept
          missing := request.hits.missing
          pingPongCache :=
            if request.hits.kept = [] then none
            else some fun _ _ => .zero },
        request.hits.keptPayloads) := by
  by_cases hkept : request.hits.kept = []
  · simp_all [ContextManager.compactReuseHits, ContextManager.hasValidReuse,
      ContextManager.initializeReuseRequest, ReuseRequest.hits]
  · simp_all [ContextManager.compactReuseHits, ContextManager.hasValidReuse,
      ContextManager.initializeReuseRequest, ReuseRequest.hits]

theorem prefetchChunkKv_one (manager : ContextManager)
    (hlayers : 1 < request.layerNum) (hchunks : request.chunks ≠ []) :
    manager.prefetchChunkKv request 1 = { manager.initializeReuseRequest request with
        active := request.hits.kept
        missing := request.hits.missing
        compressData := Function.update (fun _ => CompressData.none) 1
          (.payloads request.hits.keptPayloads)
        pingPongCache :=
          if request.hits.kept = [] then none else some fun _ _ => .zero
        keySv :=
          if request.compressType = .ours ∧ request.hits.kept ≠ [] then
            some (buildKeySvDedupGroups request.hits.keptPayloads)
          else manager.keySv } := by
  have hvalid : (manager.initializeReuseRequest request).hasValidReuse = true := by
    simp [ContextManager.hasValidReuse, ContextManager.initializeReuseRequest, hchunks]
  have hfirst : manager.prefetchChunkKv request 1 =
      (manager.initializeReuseRequest request).prefetchFirst request := by
    simp [ContextManager.prefetchChunkKv, hvalid, Nat.not_le.mpr hlayers]
  have hcompact := compactReuseHits_chunks manager hchunks
  rw [hfirst]
  unfold ContextManager.prefetchFirst
  rw [show (manager.initializeReuseRequest request).active = request.chunks from rfl, hcompact]
  cases htype : request.compressType with
  | none =>
    simp [ContextManager.setCompressData, ContextManager.initializeReuseRequest]
  | ours =>
    by_cases hkept : request.hits.kept = []
    · simp [ContextManager.setCompressData, ContextManager.hasValidReuse,
        ContextManager.initializeReuseRequest, hkept]
    · simp [ContextManager.setCompressData, ContextManager.hasValidReuse,
        ContextManager.initializeReuseRequest, hkept]

theorem firstPrefetched (manager : ContextManager) (hlayers : 1 < request.layerNum) :
    FirstPrefetched request manager
      { manager.prefetchChunkKv request 1 with useRuntimeReuse := false } := by
  by_cases hchunks : request.chunks = []
  · have hhits : request.hits = ⟨[], [], []⟩ := by
      simp [ReuseRequest.hits, hchunks, splitHits]
    have heq : manager.prefetchChunkKv request 1 = manager.initializeReuseRequest request := by
      simp [ContextManager.prefetchChunkKv, ContextManager.hasValidReuse,
        ContextManager.initializeReuseRequest, hchunks, Nat.not_le.mpr hlayers]
    rw [heq]
    refine ⟨⟨rfl, ?_, by simp, Or.inl rfl, ?_⟩, ?_, ?_, ?_, rfl, rfl, ?_⟩
    · simp [ContextManager.initializeReuseRequest, hchunks, hhits]
    · intro layer payloads _ hdata
      cases hdata
    · simp [ContextManager.initializeReuseRequest, hhits]
    · simp [hhits]
    · simp [hhits]
    · simp [hhits]
  · rw [prefetchChunkKv_one manager hlayers hchunks]
    refine ⟨⟨rfl, rfl, by simp, Or.inr (by simp), ?_⟩, rfl, by simp, ?_, rfl,
      rfl, ?_⟩
    · intro layer payloads hlayer hdata
      simp [hlayer] at hdata
    · intro hkept
      simp [hkept]
    · intro hours hkept
      simp [hours, hkept]

theorem computeLayer_cons {layerNum : Nat} (hlayers : 0 < layerNum) :
    ∃ rest, computeLayer layerNum = .prefetch 1 :: rest ∧ RequestStep.prefetch 1 ∉ rest := by
  obtain ⟨count, rfl⟩ := Nat.exists_eq_add_one.mpr hlayers
  refine ⟨[.materialize 0, .copy 0, .attend 0] ++
    (List.range count).flatMap fun idx => layerSteps (idx + 1), ?_, ?_⟩
  · simp [computeLayer, range_succ_eq_map, flatMap_map, layerSteps]
  · simp [layerSteps]

theorem step_prefetch_one (request : ReuseRequest) (manager : ContextManager) :
    manager.step request (.prefetch 1) = some { manager.prefetchChunkKv request 1 with
        useRuntimeReuse := false } := by
  simp [ContextManager.step]

theorem prefetchChunkKv_two (request : ReuseRequest) (manager : ContextManager) :
    (manager.prefetchChunkKv request 2).active = manager.active ∧
      (manager.prefetchChunkKv request 2).reuseKvFinished = manager.reuseKvFinished ∧
      (manager.prefetchChunkKv request 2).compressData 1 = manager.compressData 1 := by
  rw [prefetchChunkKv_later request manager (by decide : 2 ≠ 1)]
  split
  · exact ⟨rfl, rfl, rfl⟩
  · exact ⟨rfl, rfl, by simp [ContextManager.setCompressData]⟩

theorem step_prefetch_two (hinv : ReuseInv request manager)
    (hflag : request.blendFlag = true) (hkept : request.hits.kept ≠ []) :
    manager.step request (.prefetch 2) = some { manager.prefetchChunkKv request 2 with
        useRuntimeReuse := true } := by
  have hvalid : (manager.prefetchChunkKv request 2).hasValidReuse = true := by
    rw [ContextManager.hasValidReuse, (prefetchChunkKv_two request manager).1, hinv.active]
    simpa using hkept
  simp [ContextManager.step, hflag, hvalid]

/-- The steps before `get_reuse_kv` of layer 1. -/
def beforeReuse : List RequestStep :=
  [.prefetch 1, .materialize 0, .copy 0, .attend 0, .prefetch 2]

/-- The state in which `get_reuse_kv` of layer 1 is called. -/
structure AtReuse (request : ReuseRequest) (manager : ContextManager) : Prop where
  inv : ReuseInv request manager
  reuse : manager.useRuntimeReuse = true
  finished : manager.reuseKvFinished 1 = false
  data : manager.compressData 1 = .payloads request.hits.keptPayloads

theorem run_atReuse (previous : ContextManager) (hlayers : 1 < request.layerNum)
    (hflag : request.blendFlag = true) (hkept : request.hits.kept ≠ []) :
    ∃ manager, AtReuse request manager ∧ ∀ rest,
      runFrom (ContextManager.step request) previous.reset (beforeReuse ++ rest) =
        runFrom (ContextManager.step request) manager rest := by
  have hstart := firstPrefetched previous.reset hlayers
  generalize hfirst : ({ previous.reset.prefetchChunkKv request 1 with
    useRuntimeReuse := false } : ContextManager) = first at hstart
  have hidle : first.useRuntimeReuse = false := by rw [← hfirst]
  have hmaterialize : first.step request (.materialize 0) = some first := by
    simp [ContextManager.step, hidle]
  have hcopy : first.step request (.copy 0) = some first := by
    simp [ContextManager.step, hidle]
  have hattend : first.step request (.attend 0) = some (first.offloadMissingChunks 0) := by
    simp [ContextManager.step, ContextManager.attend, hidle]
  have hattended := hstart.inv.step (ContextManager.effect_of_step hattend) ⟨nofun, nofun⟩
  have hprefetch := step_prefetch_two hattended hflag hkept
  have hprefetched := hattended.step (ContextManager.effect_of_step hprefetch) ⟨nofun, nofun⟩
  obtain ⟨-, hfinished, hdata⟩ := prefetchChunkKv_two request (first.offloadMissingChunks 0)
  refine ⟨_, ⟨hprefetched, rfl, (congrFun hfinished 1).trans (congrFun hstart.finished 1),
    hdata.trans (hstart.firstData hkept)⟩, fun rest => ?_⟩
  simp only [beforeReuse, cons_append, nil_append, runFrom, step_prefetch_one, hfirst,
    hmaterialize, hcopy, hattend, hprefetch]

theorem ReuseRequest.Empties.kept_ne_nil (hempties : request.Empties) :
    request.hits.kept ≠ [] := by
  intro hnil
  have hlength := request.hits_aligned.length_eq
  rw [hnil, length_nil, length_eq_zero_iff] at hlength
  have hincomplete := hempties.2.2.2
  rw [hlength] at hincomplete
  cases hincomplete

/-- The second compaction drops every active chunk, and there is no buffer left
to copy to. -/
theorem AtReuse.empties (hreuse : AtReuse request manager) (hempties : request.Empties) :
    ∃ next, manager.materializeReuse request 1 = some next ∧
      next.copyReuse request 1 = none ∧ next.active = [] ∧ next.missing = request.hits.kept ∧
      next.requested = request.chunks ∧ next.useRuntimeReuse = true := by
  obtain ⟨chunk, rest, hactive⟩ := exists_cons_of_ne_nil hempties.kept_ne_nil
  obtain ⟨-, hours, hops, hincomplete⟩ := hempties
  have hload : manager.materializeReuse request 1 = some
      ((manager.compactReuseHits []).1.setCompressData 1 (.payloads [])) := by
    simp [ContextManager.materializeReuse, hreuse.finished, ContextManager.materializeCompressData,
      hours, hreuse.data, hincomplete, hops, ContextManager.compactReuseHits,
      ContextManager.hasValidReuse, hreuse.inv.active, hactive, splitHits]
  refine ⟨_, hload, ?_⟩
  simp [ContextManager.compactReuseHits, ContextManager.hasValidReuse, hreuse.inv.active, hactive,
    splitHits, ContextManager.setCompressData, ContextManager.copyReuse, hreuse.finished,
    hreuse.inv.requested, hreuse.reuse]

theorem computeLayer_second {layers : Nat} (hlayers : 1 < layers) :
    ∃ rest, computeLayer layers = beforeReuse ++ .materialize 1 :: .copy 1 :: rest := by
  obtain ⟨count, rfl⟩ := Nat.exists_eq_add_of_le' hlayers
  simp only [computeLayer, range_succ_eq_map, layerSteps, flatMap_cons, map_cons, cons_append,
    nil_append, beforeReuse]
  exact ⟨_, rfl⟩

theorem run_empties (previous : ContextManager) (hlayers : 1 < request.layerNum)
    (hempties : request.Empties) (rest : List RequestStep) :
    runFrom (ContextManager.step request) previous.reset
      (beforeReuse ++ .materialize 1 :: .copy 1 :: rest) = none := by
  obtain ⟨manager, hreuse, hreach⟩ :=
    run_atReuse previous hlayers hempties.1 hempties.kept_ne_nil
  obtain ⟨next, hload, hcopy, -, -, -, hnext⟩ := hreuse.empties hempties
  rw [hreach, runFrom, ContextManager.step, hreuse.reuse, if_pos rfl, hload]
  simp [runFrom, ContextManager.step, hnext, hcopy]

/-- A request that comes through layer 1 has not lost its payloads. -/
theorem not_empties_of_run {previous final : ContextManager} {layers : Nat}
    (hlayers : 1 < request.layerNum) (hthrough : 1 < layers) {tail : List RequestStep}
    (hrun : runFrom (ContextManager.step request) previous.reset
      (computeLayer layers ++ tail) = some final) : ¬ request.Empties := by
  intro hempties
  obtain ⟨rest, hsteps⟩ := computeLayer_second hthrough
  rw [hsteps, append_assoc, cons_append, cons_append, run_empties previous hlayers hempties] at hrun
  cases hrun

theorem run_from_first {previous final : ContextManager} {layers : Nat} (hpos : 0 < layers)
    {tail : List RequestStep} (htail : RequestStep.prefetch 1 ∉ tail)
    (hrun : runFrom (ContextManager.step request) previous
      (computeLayer layers ++ tail) = some final) :
    ∃ rest, (∀ action ∈ rest, action ≠ .prefetch 1 ∧
        (action ∈ computeLayer layers ∨ action ∈ tail)) ∧
      runFrom (ContextManager.step request)
        { previous.prefetchChunkKv request 1 with useRuntimeReuse := false }
        rest = some final := by
  obtain ⟨rest, hsteps, hfirst⟩ := computeLayer_cons hpos
  refine ⟨rest ++ tail, ?_, ?_⟩
  · intro action haction
    rw [hsteps]
    rcases mem_append.mp haction with hmem | hmem
    · exact ⟨fun heq => hfirst (heq ▸ hmem), Or.inl (mem_cons_of_mem _ hmem)⟩
    · exact ⟨fun heq => htail (heq ▸ hmem), Or.inr hmem⟩
  · rw [hsteps, cons_append, runFrom, step_prefetch_one] at hrun
    exact hrun

end Invariant

end CatKV
