/-
Where `get_reuse_kv` puts the payloads of a layer.  The two buffers are never
cleared, so a range that the copy loop does not write keeps the KV of an older
layer.
-/
import CatKV.CopyLoop

namespace CatKV

open List Option

/-- `get_reuse_kv` as a whole. -/
def ContextManager.getReuseKv (manager : ContextManager)
    (request : ReuseRequest) (layer : Nat) : Option ContextManager :=
  (manager.materializeReuse request layer).bind fun next =>
    next.copyReuse request layer

section Buffers

variable {request : ReuseRequest} {layer : Nat}
  {manager next : ContextManager} {action : RequestStep}

theorem Aligned.layer_eq {active : List Chunk} {payloads : List ReusePayload}
    (haligned : Aligned active layer payloads) {payload : ReusePayload}
    (hmem : payload ∈ payloads) : payload.kv.layer = layer := by
  have hkv : payload.kv ∈ payloads.map ReusePayload.kv := mem_map_of_mem hmem
  rw [haligned] at hkv
  obtain ⟨chunk, -, hkv⟩ := mem_map.mp hkv
  rw [← hkv]

theorem ReuseInv.aligned (hinv : ReuseInv request manager) {payloads : List ReusePayload}
    (hdata : manager.compressData layer = .payloads payloads) :
    Aligned request.hits.kept layer payloads := by
  by_cases hone : layer = 1
  · subst hone
    rcases hinv.firstData with hnone | hfirst
    · rw [hnone] at hdata
      cases hdata
    · rw [hfirst] at hdata
      cases hdata
      exact request.hits_aligned
  · exact (hinv.laterData layer payloads hone hdata).aligned

/-- The steps a request takes before it prepares the buffer of `layer`. -/
def RequestStep.Before (request : ReuseRequest) (layer : Nat) : RequestStep → Prop
  | .prefetch other => other ≠ 1
  | .materialize other => other = 1 → ¬ request.Empties
  | .copy other => other < layer
  | .attend other => other < layer

/-- The buffers hold nothing of this layer or a later one yet. -/
structure BufferInv (request : ReuseRequest) (layer : Nat) (manager : ContextManager) : Prop where
  inv : ReuseInv request manager
  finished : manager.reuseKvFinished layer = false
  cache : request.hits.kept ≠ [] → ∃ cache, manager.pingPongCache = some cache ∧
      ∀ parity position, (cache parity position).OlderThan layer

theorem olderThan_update {cache : Nat → Nat → Cell} {buffer : Nat → Cell} {written : Nat}
    (hcache : ∀ parity position, (cache parity position).OlderThan layer)
    (hbuffer : ∀ position, (buffer position).OlderThan layer) :
    ∀ parity position, (Function.update cache written buffer parity position).OlderThan layer := by
  intro parity position
  by_cases hsame : parity = written
  · subst hsame
    rw [Function.update_self]
    exact hbuffer position
  · rw [Function.update_of_ne hsame]
    exact hcache parity position

theorem BufferInv.step (hbuffer : BufferInv request layer manager)
    (hbefore : action.Before request layer) (heffect : RequestEffect request manager action next) :
    BufferInv request layer next := by
  have hfollows : action.Follows request := by
    refine ⟨?_, ?_⟩ <;> rintro rfl
    · exact hbefore rfl
    · exact hbefore rfl
  have hinv := hbuffer.inv.step heffect hfollows
  cases heffect with
  | prefetchesFirst => exact absurd rfl hfollows.1
  | skips | prefetches | idles | materializes | selects | prefills =>
    exact ⟨hinv, hbuffer.finished, hbuffer.cache⟩
  | compacts hreuse hpayloads =>
    obtain ⟨rfl, -⟩ := hbuffer.inv.materialize_one (hfollows.2 rfl) hreuse hpayloads
    rw [compactReuseHits_hits hbuffer.inv.active (hbuffer.inv.reuse hreuse).2] at hinv ⊢
    exact ⟨hinv, hbuffer.finished, hbuffer.cache⟩
  | @copies other payloads cache buffer hpayloads hcache hcopy =>
    have hother : other < layer := hbefore
    refine ⟨hinv, ?_, fun hkept => ⟨_, rfl, ?_⟩⟩
    · simpa [Nat.ne_of_gt hother] using hbuffer.finished
    · obtain ⟨cache', hcache', holder⟩ := hbuffer.cache hkept
      obtain rfl : cache = cache' := by
        rw [hcache] at hcache'
        exact Option.some.inj hcache'
      rw [copyPayloads_eq_copyHits] at hcopy
      refine olderThan_update holder fun position => ?_
      rcases copyHits_cell hcopy position with hkeep | ⟨hit, hhit, token, hcell⟩
      · rw [hkeep]
        exact holder _ _
      · rw [hcell]
        rintro written ⟨⟩
        rw [(hbuffer.inv.aligned hpayloads).layer_eq (mem_of_mem_filter hhit)]
        exact hother
  | @blends other positions cache hlayer hpositions hcache =>
    have hother : other < layer := hbefore
    refine ⟨hinv, hbuffer.finished, fun hkept => ⟨_, rfl, ?_⟩⟩
    obtain ⟨cache', hcache', holder⟩ := hbuffer.cache hkept
    obtain rfl : cache = cache' := by
      rw [hcache] at hcache'
      exact Option.some.inj hcache'
    refine olderThan_update holder fun position => ?_
    split
    · rintro written ⟨⟩
      exact hother
    · exact holder _ _

theorem before_of_mem_computeLayer (hmem : action ∈ computeLayer layer)
    (hfirst : action ≠ .prefetch 1) (hkeeps : 1 < layer → ¬ request.Empties) :
    action.Before request layer := by
  obtain ⟨idx, hidx, haction⟩ := mem_flatMap.mp hmem
  have hlt := mem_range.mp hidx
  simp only [layerSteps, mem_cons, not_mem_nil, or_false] at haction
  rcases haction with rfl | rfl | rfl | rfl
  · exact fun heq => hfirst (congrArg _ heq)
  · exact fun hone => hkeeps (hone ▸ hlt)
  · exact hlt
  · exact hlt

theorem bufferInv_of_run {previous before : ContextManager} (hlayers : 1 < request.layerNum)
    (hpos : 0 < layer) (hrun : runFrom (ContextManager.step request) previous.reset
      (computeLayer layer ++ [.prefetch (layer + 1)]) = some before) :
    BufferInv request layer before := by
  have hlater : RequestStep.prefetch 1 ∉ [RequestStep.prefetch (layer + 1)] := by
    simp only [mem_singleton, RequestStep.prefetch.injEq]
    omega
  have hkeeps : 1 < layer → ¬ request.Empties := fun hthrough =>
    not_empties_of_run hlayers hthrough hrun
  obtain ⟨rest, hrest, hrun⟩ := run_from_first hpos hlater hrun
  have hstart := firstPrefetched previous.reset hlayers
  have hstep : ∀ manager action next, BufferInv request layer manager →
      action.Before request layer → manager.step request action = some next →
      BufferInv request layer next :=
    fun _ _ _ hbuffer hbefore hstep =>
      hbuffer.step hbefore (ContextManager.effect_of_step hstep)
  refine run_invariant hstep ⟨hstart.inv, ?_, fun hkept => ?_⟩
    (meets_of_forall_mem fun action haction => ?_) hrun
  · exact congrFun hstart.finished layer
  · refine ⟨_, hstart.cache hkept, fun _ _ other hother => ?_⟩
    cases hother
  · obtain ⟨hfirst, hmem | hmem⟩ := hrest action haction
    · exact before_of_mem_computeLayer hmem hfirst hkeeps
    · obtain rfl := mem_singleton.mp hmem
      exact fun heq => hfirst (congrArg _ heq)

/-- The steps between the prefetch of a layer and its `get_reuse_kv`. -/
def RequestStep.Leaves (layer : Nat) (action : RequestStep) : Prop :=
  action ≠ .prefetch 1 ∧ action ≠ .prefetch layer ∧
    action ≠ .materialize layer ∧ action ≠ .copy layer

theorem compressData_of_leaves (hinv : ReuseInv request manager) (hlayer : layer ≠ 1)
    (hkeeps : ¬ request.Empties) (hleaves : action.Leaves layer)
    (heffect : RequestEffect request manager action next) :
    next.compressData layer = manager.compressData layer := by
  obtain ⟨hfirst, hprefetch, hmaterialize, hcopy⟩ := hleaves
  cases heffect with
  | prefetchesFirst => exact absurd rfl hfirst
  | skips | idles | selects | blends | prefills => rfl
  | @prefetches other =>
    have hother : layer ≠ other := fun heq => hprefetch (heq ▸ rfl)
    simp [hother]
  | compacts hreuse hpayloads =>
    obtain ⟨rfl, -⟩ := hinv.materialize_one hkeeps hreuse hpayloads
    rw [compactReuseHits_hits hinv.active (hinv.reuse hreuse).2]
    simp [ContextManager.setCompressData, hlayer]
  | @materializes other =>
    have hother : layer ≠ other := fun heq => hmaterialize (heq ▸ rfl)
    simp [ContextManager.setCompressData, hother]
  | @copies other =>
    have hother : layer ≠ other := fun heq => hcopy (heq ▸ rfl)
    simp [hother]

theorem computeLayer_succ (layers : Nat) :
    computeLayer (layers + 1) = computeLayer layers ++ layerSteps layers := by
  simp [computeLayer, range_succ]

theorem compressData_of_prefetch (htype : request.compressType = .none)
    (hlayer : layer < request.layerNum) (hlater : layer ≠ 1) (hkept : request.hits.kept ≠ [])
    (hinv : ReuseInv request next) (hstep : manager.step request (.prefetch layer) = some next) :
    next.compressData layer =
      .payloads (retrieve request.hits.kept layer (request.found layer)) := by
  have hactive : manager.active = request.hits.kept := by
    rw [← hinv.active]
    cases ContextManager.effect_of_step hstep with
    | prefetchesFirst => exact absurd rfl hlater
    | skips | prefetches => rfl
    | idles hidle => rfl
  rw [ContextManager.step, prefetchChunkKv_later request manager hlater,
    if_neg (by simp [hactive, hkept, Nat.not_le.mpr hlayer])] at hstep
  cases hstep
  simp [ContextManager.setCompressData, ContextManager.retrieveKeys, htype, hactive]

theorem compressData_of_run {previous before : ContextManager}
    (htype : request.compressType = .none) (hlayer : layer + 1 < request.layerNum)
    (hpos : 0 < layer) (hkept : request.hits.kept ≠ [])
    (hrun : runFrom (ContextManager.step request) previous.reset
      (computeLayer (layer + 1) ++ [.prefetch (layer + 2)]) = some before) :
    before.compressData (layer + 1) = .payloads
      (retrieve request.hits.kept (layer + 1) (request.found (layer + 1))) := by
  have hsplit : computeLayer (layer + 1) ++ [.prefetch (layer + 2)] =
      (computeLayer layer ++ [.prefetch (layer + 1)]) ++
        [.materialize layer, .copy layer, .attend layer, .prefetch (layer + 2)] := by
    simp [computeLayer_succ, layerSteps]
  rw [hsplit] at hrun
  obtain ⟨middle, hmiddle, hrest⟩ := runFrom_append hrun
  have hinv := (bufferInv_of_run (by omega) hpos hmiddle).inv
  have hkeeps : ¬ request.Empties := fun hempties =>
    absurd (htype.symm.trans hempties.2.1) (by decide)
  have hdata : middle.compressData (layer + 1) = .payloads
      (retrieve request.hits.kept (layer + 1) (request.found (layer + 1))) := by
    obtain ⟨start, -, hlast⟩ := runFrom_append hmiddle
    obtain ⟨final, hstep, hfinal⟩ := runFrom_cons hlast
    obtain rfl : final = middle := by simpa [runFrom] using hfinal
    exact compressData_of_prefetch htype hlayer (by omega) hkept hinv hstep
  have hstep : ∀ manager action next,
      (ReuseInv request manager ∧ manager.compressData (layer + 1) = .payloads
        (retrieve request.hits.kept (layer + 1) (request.found (layer + 1)))) →
      action.Leaves (layer + 1) → manager.step request action = some next →
      (ReuseInv request next ∧ next.compressData (layer + 1) = .payloads
        (retrieve request.hits.kept (layer + 1) (request.found (layer + 1)))) := by
    rintro manager action next ⟨hinv, hdata⟩ hleaves hstep
    have heffect := ContextManager.effect_of_step hstep
    refine ⟨hinv.step heffect ⟨hleaves.1, fun _ => hkeeps⟩, ?_⟩
    rw [compressData_of_leaves hinv (by omega) hkeeps hleaves heffect, hdata]
  refine (run_invariant hstep ⟨hinv, hdata⟩ (meets_of_forall_mem fun action haction => ?_) hrest).2
  simp only [mem_cons, not_mem_nil, or_false] at haction
  rcases haction with rfl | rfl | rfl | rfl
  · simp [RequestStep.Leaves]
  · simp [RequestStep.Leaves]
  · simp [RequestStep.Leaves]
  · simp [RequestStep.Leaves]

end Buffers

section Layer

variable {request : ReuseRequest} {layer : Nat} {before loaded : ContextManager}

/-- What `get_reuse_kv` has loaded when its copy loop starts. -/
structure LoadedLayer (request : ReuseRequest) (layer : Nat)
    (before loaded : ContextManager) (payloads : List ReusePayload) :
    Prop where
  data : loaded.compressData layer = .payloads payloads
  active : loaded.active = request.hits.kept
  finished : loaded.reuseKvFinished layer = false
  cache : loaded.pingPongCache = before.pingPongCache
  recomputed : loaded.recomputedIdx = before.recomputedIdx
  aligned : Aligned request.hits.kept layer payloads
  full : request.compressType = .ours ∨ layer = 1 →
    ∀ payload ∈ payloads, payload.isEmptyReusePayload = false

theorem isEmpty_eq_false_of_complete {payload : ReusePayload}
    (hcomplete : payload.hasCompleteOursPayload = true) : payload.isEmptyReusePayload = false := by
  unfold ReusePayload.hasCompleteOursPayload at hcomplete
  unfold ReusePayload.isEmptyReusePayload
  cases hfound : payload.found with
  | absent => simp [hfound, Found.isComplete] at hcomplete
  | raw length => rfl
  | split uuid complete => rfl

theorem BufferInv.materialize (hbuffer : BufferInv request layer before)
    (hreuse : before.useRuntimeReuse = true) (hkeeps : ¬ request.Empties)
    (hload : before.materializeReuse request layer = some loaded) :
    ∃ payloads, LoadedLayer request layer before loaded payloads := by
  unfold ContextManager.materializeReuse at hload
  rw [hbuffer.finished] at hload
  simp only [Bool.false_eq_true, ↓reduceIte] at hload
  split at hload
  · cases hload
  · next payloads hpayloads =>
    split at hload
    · next hone =>
      subst hone
      obtain ⟨rfl, -⟩ := hbuffer.inv.materialize_one hkeeps hreuse hpayloads
      rw [compactReuseHits_hits hbuffer.inv.active (hbuffer.inv.reuse hreuse).2] at hload
      cases hload
      exact ⟨request.hits.keptPayloads,
        by simp [ContextManager.setCompressData], hbuffer.inv.active,
        hbuffer.finished, rfl, rfl, request.hits_aligned,
        fun _ => request.hits_nonempty⟩
    · next hlater =>
      have hloaded := hbuffer.inv.materialize_later hlater hpayloads
      cases hload
      refine ⟨payloads, by simp [ContextManager.setCompressData],
        hbuffer.inv.active, hbuffer.finished, rfl, rfl, hloaded.aligned, ?_⟩
      rintro (hours | hone) payload hmem
      · exact isEmpty_eq_false_of_complete (all_eq_true.mp (hloaded.complete hours) payload hmem)
      · exact absurd hone hlater

theorem LoadedLayer.copy {payloads : List ReusePayload}
    (hloaded : LoadedLayer request layer before loaded payloads)
    {cache : Nat → Nat → Cell} (hcache : before.pingPongCache = some cache) :
    loaded.copyReuse request layer = (copyHits request request.hits.kept (hitsOf payloads)
        (cache (layer % 2))).map fun buffer =>
          { loaded with
            pingPongCache := some (Function.update cache (layer % 2) buffer)
            compressData := Function.update loaded.compressData layer .none
            reuseKvFinished := Function.update loaded.reuseKvFinished layer true } := by
  have hcopy : copyPayloads request request.hits.kept payloads 0
      (cache (layer % 2)) = copyHits request request.hits.kept
        (hitsOf payloads) (cache (layer % 2)) :=
    copyPayloads_eq_copyHits request.hits.kept payloads 0 _
  simp only [ContextManager.copyReuse, hloaded.finished, hloaded.data, hloaded.cache, hcache,
    hloaded.active, hcopy, Bool.false_eq_true, ↓reduceIte]
  cases copyHits request request.hits.kept (hitsOf payloads) (cache (layer % 2)) with
  | none => rfl
  | some buffer => rfl

theorem inOrder_of_full {payloads : List ReusePayload}
    (hfull : ∀ payload ∈ payloads, payload.isEmptyReusePayload = false) : InOrder payloads := by
  refine ⟨payloads.length, fun index payload hpayload => ?_⟩
  obtain ⟨hlt, -⟩ := List.getElem?_eq_some_iff.mp hpayload
  simp [hfull payload (List.mem_of_getElem? hpayload), hlt]

theorem recomputesMisses_of_full {active : List Chunk} {payloads : List ReusePayload}
    (recomputed : List Nat) (hfull : ∀ payload ∈ payloads, payload.isEmptyReusePayload = false) :
    RecomputesMisses active payloads recomputed := by
  intro index chunk payload _ hpayload hempty
  rw [hfull payload (mem_of_getElem? hpayload)] at hempty
  cases hempty

theorem Ranges.hits (hranges : Ranges request.inputLen request.chunks) :
    Ranges request.inputLen request.hits.kept := by
  have hsublist : request.hits.kept.Sublist request.chunks := splitHits_kept_sublist _ _
  exact ⟨fun chunk hmem => hranges.bounds chunk (hsublist.subset hmem),
    hranges.disjoint.sublist hsublist⟩

end Layer

section Reuse

/-- A request whose chunks are disjoint nonempty pieces of the prompt. -/
structure PlacedRequest extends ReuseRequest where
  ranges : Ranges inputLen chunks

/-- Whatever `get_reuse_kv` has loaded for the layer, once it returns the
buffer of the layer is right. -/
def ReusePlaced (request : ReuseRequest) (before : ContextManager) (layer : Nat) : Prop :=
  ∀ loaded after payloads cache, before.materializeReuse request layer = some loaded →
    loaded.compressData layer = .payloads payloads →
    before.getReuseKv request layer = some after →
    after.pingPongCache = some cache →
    Placed layer loaded.active payloads (after.recomputedIdx.getD []) (cache (layer % 2))

/-- The layer cannot have misses, or one of its hits does not have the shape of
the range it would be written to and `get_reuse_kv` raises, or the misses come
last and all their positions are recomputed. -/
def PlacesInOrder (request : ReuseRequest) (before : ContextManager) (layer : Nat) : Prop :=
  request.compressType = .ours ∨ layer = 1 ∨ (∃ pair ∈ (hitsOf (retrieve before.active layer
        (request.found layer))).zip before.active,
      ¬ pair.1.found.Fits request pair.2) ∨
    (InOrder (retrieve before.active layer (request.found layer)) ∧ RecomputesMisses before.active
        (retrieve before.active layer (request.found layer))
        (before.recomputedIdx.getD []))

variable {request : ReuseRequest} {layer : Nat} {before : ContextManager}

/-- Once the payloads are loaded, the layer is placed unless the copy loop gets
through in the wrong order. -/
theorem reusePlaced_iff_of_load (hranges : Ranges request.inputLen request.chunks)
    (hbuffer : BufferInv request layer before) (hreuse : before.useRuntimeReuse = true)
    {loaded : ContextManager} {payloads : List ReusePayload} {cache : Nat → Nat → Cell}
    (hload : before.materializeReuse request layer = some loaded)
    (hloaded : LoadedLayer request layer before loaded payloads)
    (hcache : before.pingPongCache = some cache) :
    ReusePlaced request before layer ↔ ((copyHits request request.hits.kept (hitsOf payloads)
        (cache (layer % 2))).isSome = true →
        InOrder payloads ∧ RecomputesMisses request.hits.kept payloads
          (before.recomputedIdx.getD [])) := by
  have holder : ∀ position, (cache (layer % 2) position).OlderThan layer := by
    obtain ⟨cache', hcache', holder⟩ := hbuffer.cache (hbuffer.inv.reuse hreuse).2
    rw [hcache, Option.some.injEq] at hcache'
    exact hcache' ▸ holder (layer % 2)
  have hget : before.getReuseKv request layer = loaded.copyReuse request layer := by
    rw [ContextManager.getReuseKv, hload, bind_some]
  have hcopy := hget.trans (hloaded.copy hcache)
  constructor
  · intro hplaced hsome
    obtain ⟨result, hresult⟩ := isSome_iff_exists.mp hsome
    rw [hresult, map_some] at hcopy
    have hbuffers := hplaced loaded _ payloads _ hload hloaded.data hcopy rfl
    rw [Function.update_self, hloaded.active] at hbuffers
    rw [← hloaded.recomputed]
    exact (placed_iff hranges.hits hloaded.aligned holder hresult).mp hbuffers
  · intro horder loaded' after payloads' cache' hload' hdata hreturn hafter
    rw [hload, Option.some.injEq] at hload'
    subst hload'
    rw [hloaded.data, CompressData.payloads.injEq] at hdata
    subst hdata
    rw [hcopy, map_eq_some_iff] at hreturn
    obtain ⟨result, hresult, rfl⟩ := hreturn
    cases hafter
    rw [Function.update_self, hloaded.active]
    refine (placed_iff hranges.hits hloaded.aligned holder hresult).mpr ?_
    simpa only [hloaded.recomputed] using horder (by simp [hresult])

/-- A request that loses its payloads at layer 1 does not come back from
`get_reuse_kv`. -/
theorem reusePlaced_of_empties (hbuffer : BufferInv request 1 before)
    (hreuse : before.useRuntimeReuse = true) (hempties : request.Empties) :
    ReusePlaced request before 1 := by
  intro loaded after payloads cache hload hdata hget hcache
  rcases hbuffer.inv.firstData with hnone | hfirst
  · simp [ContextManager.materializeReuse, hbuffer.finished,
      ContextManager.materializeCompressData, hnone] at hload
  · obtain ⟨next, hnext, hcopy, -⟩ :=
      AtReuse.empties ⟨hbuffer.inv, hreuse, hbuffer.finished, hfirst⟩ hempties
    rw [ContextManager.getReuseKv, hnext, bind_some, hcopy] at hget
    cases hget

theorem reusePlaced_of_full (hranges : Ranges request.inputLen request.chunks)
    (hbuffer : BufferInv request layer before) (hreuse : before.useRuntimeReuse = true)
    (hkeeps : ¬ request.Empties)
    (hfull : request.compressType = .ours ∨ layer = 1) : ReusePlaced request before layer := by
  obtain ⟨cache, hcache, -⟩ := hbuffer.cache (hbuffer.inv.reuse hreuse).2
  cases hload : before.materializeReuse request layer with
  | none =>
    intro loaded after payloads cache' hload'
    rw [hload] at hload'
    cases hload'
  | some loaded =>
    obtain ⟨payloads, hloaded⟩ := hbuffer.materialize hreuse hkeeps hload
    refine (reusePlaced_iff_of_load hranges hbuffer hreuse hload hloaded hcache).mpr fun _ => ?_
    exact ⟨inOrder_of_full (hloaded.full hfull), recomputesMisses_of_full _ (hloaded.full hfull)⟩

theorem BufferInv.load_raw (hbuffer : BufferInv request layer before)
    (hreuse : before.useRuntimeReuse = true) (htype : request.compressType = .none)
    (hlater : layer ≠ 1) {payloads : List ReusePayload}
    (hdata : before.compressData layer = .payloads payloads) :
    ∃ loaded, before.materializeReuse request layer = some loaded ∧
      LoadedLayer request layer before loaded payloads := by
  have hload : before.materializeReuse request layer =
      some (before.setCompressData layer (.payloads payloads)) := by
    simp [ContextManager.materializeReuse, hbuffer.finished,
      ContextManager.materializeCompressData, htype, hdata, hlater]
  obtain ⟨payloads', hloaded⟩ := hbuffer.materialize hreuse
    (fun hempties => absurd (htype.symm.trans hempties.2.1) (by decide)) hload
  have hsame : payloads = payloads' := by
    simpa [ContextManager.setCompressData] using hloaded.data
  exact ⟨_, hload, hsame ▸ hloaded⟩

/-- In every state in which a request prepares the reuse buffer of a layer,
`get_reuse_kv` places the layer exactly under the condition above. -/
theorem reusePlaced_iff (request : PlacedRequest) (previous : ContextManager)
    (hpos : 0 < layer) (hlayer : layer < request.layerNum)
    (hrun : runFrom (ContextManager.step request.toReuseRequest) previous.reset
      (computeLayer layer ++ [.prefetch (layer + 1)]) = some before)
    (hreuse : before.useRuntimeReuse = true) :
    ReusePlaced request.toReuseRequest before layer ↔
      PlacesInOrder request.toReuseRequest before layer := by
  have hbuffer := bufferInv_of_run (by omega) hpos hrun
  by_cases hfull : request.compressType = .ours ∨ layer = 1
  · refine iff_of_true ?_ (hfull.imp_right Or.inl)
    by_cases hempties : request.Empties
    · obtain rfl : layer = 1 := by
        by_contra hlater
        exact not_empties_of_run (by omega) (by omega) hrun hempties
      exact reusePlaced_of_empties hbuffer hreuse hempties
    · exact reusePlaced_of_full request.ranges hbuffer hreuse hempties hfull
  · obtain ⟨hours, hlater⟩ := not_or.mp hfull
    have htype : request.compressType = .none := by
      cases hcase : request.compressType with
      | none => rfl
      | ours => exact absurd hcase hours
    have hkept := (hbuffer.inv.reuse hreuse).2
    obtain ⟨other, rfl⟩ : ∃ other, layer = other + 1 := Nat.exists_eq_add_one.mpr hpos
    have hdata := compressData_of_run htype hlayer (by omega) hkept hrun
    obtain ⟨loaded, hload, hloaded⟩ := hbuffer.load_raw hreuse htype hlater hdata
    obtain ⟨cache, hcache, -⟩ := hbuffer.cache hkept
    have hlength : (hitsOf (retrieve request.hits.kept (other + 1)
        (request.found (other + 1)))).length ≤ request.hits.kept.length :=
      (length_filter_le _ _).trans_eq (length_retrieve _ _ _)
    rw [reusePlaced_iff_of_load request.ranges hbuffer hreuse hload hloaded hcache,
      copyHits_isSome_iff _ _ _ hlength, PlacesInOrder, hbuffer.inv.active]
    rw [imp_iff_not_or, not_forall]
    simp only [hours, hlater, false_or, not_forall, exists_prop]

theorem ranges_pair : Ranges 4 [⟨ascii "a", 0, 2⟩, ⟨ascii "b", 2, 4⟩] := by
  refine ⟨by decide, ?_⟩
  simp only [pairwise_cons, mem_singleton, forall_eq, Chunk.Covers]
  exact ⟨fun position => by omega, by simp⟩

/-- Two raw chunks; the second is gone at layer 2, but recomputed. -/
def missLast : PlacedRequest where
  layerNum := 3
  compressType := .none
  catkvOps := true
  blendFlag := true
  inputLen := 4
  chunks := [⟨ascii "a", 0, 2⟩, ⟨ascii "b", 2, 4⟩]
  found := fun layer position =>
    if layer = 2 ∧ position = 1 then .absent else .raw 2
  retries := fun _ => []
  picked := [2, 3]
  ranges := ranges_pair

theorem reusePlaced_missLast : ∃ before, runFrom (ContextManager.step missLast.toReuseRequest)
      ContextManager.initial.reset (computeLayer 2 ++ [.prefetch 3]) = some before ∧
    before.useRuntimeReuse = true ∧
    ReusePlaced missLast.toReuseRequest before 2 := by
  have hstate : (runFrom (ContextManager.step missLast.toReuseRequest)
      ContextManager.initial.reset (computeLayer 2 ++ [.prefetch 3])).map
        (fun manager => (manager.active, manager.recomputedIdx, manager.useRuntimeReuse)) =
      some (missLast.chunks, some [2, 3], true) := by
    decide +kernel
  obtain ⟨before, hrun, hfields⟩ := map_eq_some_iff.mp hstate
  obtain ⟨hactive, hrecomputed, hreuse⟩ : before.active = missLast.chunks ∧
      before.recomputedIdx = some [2, 3] ∧ before.useRuntimeReuse = true := by
    simpa using hfields
  refine ⟨before, hrun, hreuse, ?_⟩
  refine (reusePlaced_iff missLast ContextManager.initial (by decide)
    (by decide) hrun hreuse).mpr (Or.inr (Or.inr (Or.inr ?_)))
  have hload : retrieve missLast.chunks 2 (missLast.found 2) =
      [⟨⟨ascii "a", 2⟩, .raw 2⟩, ⟨⟨ascii "b", 2⟩, .absent⟩] := by
    decide
  rw [hactive, hrecomputed, hload]
  constructor
  · refine ⟨1, fun index payload hpayload => ?_⟩
    match index with
    | 0 =>
      cases hpayload
      decide
    | 1 =>
      cases hpayload
      decide
    | index + 2 => cases hpayload
  · intro index chunk payload hchunk hpayload hempty position hcovers
    match index with
    | 0 =>
      cases hpayload
      cases hempty
    | 1 =>
      cases hchunk
      simp only [Chunk.Covers] at hcovers
      simp only [getD_some, mem_cons, not_mem_nil, or_false]
      omega
    | index + 2 => cases hpayload

/-- The first chunk is gone at layer 3. -/
def missFirst : PlacedRequest :=
  { missLast with
    layerNum := 4
    found := fun layer position =>
      if layer = 3 ∧ position = 0 then .absent else .raw 2
    picked := [] }

/-- Its range gets the other chunk's KV, and that chunk's own range keeps what
layer 1 left there. -/
theorem not_reusePlaced_missFirst : ∃ before, runFrom (ContextManager.step missFirst.toReuseRequest)
      ContextManager.initial.reset (computeLayer 3 ++ [.prefetch 4]) = some before ∧
    before.useRuntimeReuse = true ∧
    ¬ ReusePlaced missFirst.toReuseRequest before 3 := by
  have hloads : (runFrom (ContextManager.step missFirst.toReuseRequest)
      ContextManager.initial.reset (computeLayer 3 ++ [.prefetch 4])).bind (fun before =>
          (before.materializeReuse missFirst.toReuseRequest 3).bind
            fun loaded =>
              (before.getReuseKv missFirst.toReuseRequest 3).bind fun after =>
                after.pingPongCache.map fun cache =>
                  (before.useRuntimeReuse, loaded.active,
                    loaded.compressData 3, cache 1 0, cache 1 2)) =
      some (true, missFirst.chunks, .payloads [⟨⟨ascii "a", 3⟩, .absent⟩, ⟨⟨ascii "b", 3⟩, .raw 2⟩],
        .reused ⟨ascii "b", 3⟩ 0, .reused ⟨ascii "b", 1⟩ 0) := by
    decide +kernel
  obtain ⟨before, hrun, hbefore⟩ := bind_eq_some_iff.mp hloads
  obtain ⟨loaded, hload, hloaded⟩ := bind_eq_some_iff.mp hbefore
  obtain ⟨after, hget, hafter⟩ := bind_eq_some_iff.mp hloaded
  obtain ⟨cache, hcache, hcells⟩ := map_eq_some_iff.mp hafter
  simp only [Prod.mk.injEq] at hcells
  obtain ⟨hreuse, hactive, hdata, -, hstale⟩ := hcells
  refine ⟨before, hrun, hreuse, fun hplaced => ?_⟩
  have hcell := (hplaced loaded after _ cache hload hdata hget hcache).hits 1
    ⟨ascii "b", 2, 4⟩ ⟨⟨ascii "b", 3⟩, .raw 2⟩ (by rw [hactive]; rfl) rfl rfl 2
    (by decide)
  rw [hstale] at hcell
  exact absurd hcell (by decide)

end Reuse

end CatKV
