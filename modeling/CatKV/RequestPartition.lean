/-
A request splits its chunks into those it reuses and those it computes and
offloads.  The first compaction makes that split; the second one, inside
`get_reuse_kv`, replaces the missing list by an empty one, so a request with
hits and misses stops offloading its misses at layer 1.  With incomplete payloads
that come through `DataCenter` it turns all chunks from active to missing first.
-/
import CatKV.RequestEffect

namespace CatKV

open List

section Conditions

variable (request : ReuseRequest)

/-- Layer 1 has hits and misses, and the request reaches the second
compaction. -/
def ReuseRequest.LosesMisses : Prop :=
  1 < request.layerNum ∧ request.blendFlag = true ∧ (∃ position < request.chunks.length,
      (request.found 1 position).isEmpty = false) ∧
    (∃ position < request.chunks.length, (request.found 1 position).isEmpty = true) ∧
    (request.compressType = .ours → request.catkvOps = true →
      ∀ position < request.chunks.length,
        (request.found 1 position).isEmpty = true ∨ (request.found 1 position).isComplete = true)

theorem ReuseRequest.keptPayloads_eq : request.hits.keptPayloads =
    (retrieve request.chunks 1 (request.found 1)).filter fun payload => !payload.found.isEmpty :=
  splitHits_keptPayloads (length_retrieve _ _ _)

theorem ReuseRequest.kept_eq_nil_iff : request.hits.kept = [] ↔ ∀ position < request.chunks.length,
    (request.found 1 position).isEmpty = true := by
  rw [← length_eq_zero_iff, ← request.hits_aligned.length_eq,
    length_eq_zero_iff, request.keptPayloads_eq, filter_eq_nil_iff]
  simpa using forall_mem_retrieve (fun found => found.isEmpty = true)
    request.chunks 1 (request.found 1)

theorem ReuseRequest.missing_eq_nil_iff :
    request.hits.missing = [] ↔ ∀ position < request.chunks.length,
      (request.found 1 position).isEmpty = false := by
  have hmerge : request.hits.kept.length + request.hits.missing.length =
      request.chunks.length := (interleaves_splitHits _ _).length_eq
  have hfull : request.hits.missing = [] ↔ request.hits.keptPayloads.length =
        (retrieve request.chunks 1 (request.found 1)).length := by
    rw [← length_eq_zero_iff, request.hits_aligned.length_eq, length_retrieve]
    omega
  rw [hfull, request.keptPayloads_eq, length_filter_eq_length_iff]
  simpa using forall_mem_retrieve (fun found => found.isEmpty = false)
    request.chunks 1 (request.found 1)

theorem ReuseRequest.kept_complete_iff : allOursPayloadsComplete request.hits.keptPayloads = true ↔
    ∀ position < request.chunks.length, (request.found 1 position).isEmpty = true ∨
        (request.found 1 position).isComplete = true := by
  rw [allOursPayloadsComplete, all_eq_true, request.keptPayloads_eq]
  refine Iff.trans ?_ (forall_mem_retrieve
    (fun found => found.isEmpty = true ∨ found.isComplete = true)
    request.chunks 1 (request.found 1))
  simp only [mem_filter, Bool.not_eq_true', and_imp, ReusePayload.hasCompleteOursPayload]
  refine forall₂_congr fun payload _ => ?_
  cases payload.found.isEmpty with
  | true => simp
  | false => simp

theorem ReuseRequest.losesMisses_iff :
    request.LosesMisses ↔ 1 < request.layerNum ∧ request.blendFlag = true ∧
      request.hits.kept ≠ [] ∧ request.hits.missing ≠ [] ∧
      (request.compressType = .ours → request.catkvOps = true →
        allOursPayloadsComplete request.hits.keptPayloads = true) := by
  rw [ReuseRequest.LosesMisses, ne_eq, ne_eq, request.kept_eq_nil_iff,
    request.missing_eq_nil_iff, request.kept_complete_iff]
  simp

end Conditions

section Steps

variable {request : ReuseRequest} {manager next : ContextManager} {action : RequestStep}

/-- The lists are still those of the first compaction. -/
structure Partitioned (request : ReuseRequest) (manager : ContextManager) : Prop where
  inv : ReuseInv request manager
  missing : manager.missing = request.hits.missing

theorem Partitioned.interleaves (hpart : Partitioned request manager) :
    Interleaves manager.active manager.missing manager.requested := by
  rw [hpart.inv.active, hpart.missing, hpart.inv.requested]
  exact interleaves_splitHits _ _

/-- The calls of `offload_layer_data` that a step makes. -/
def RequestStep.offloads (missing : List Chunk) : RequestStep → List (Nat × Chunk)
  | .attend layer => missing.map fun chunk => (layer, chunk)
  | _ => []

theorem computeLayer_offloads (layerNum : Nat) (missing : List Chunk) :
    (computeLayer layerNum).flatMap (RequestStep.offloads missing) =
      (List.range layerNum).flatMap fun layer =>
        missing.map fun chunk => (layer, chunk) := by
  simp [computeLayer, flatMap_assoc, layerSteps, RequestStep.offloads]

theorem Partitioned.step (hpart : Partitioned request manager) (hkeeps : ¬ request.LosesMisses)
    (hlayers : 1 < request.layerNum) (heffect : RequestEffect request manager action next)
    (hfollows : action.Follows request) :
    Partitioned request next ∧
      next.offloaded = manager.offloaded ++ action.offloads request.hits.missing := by
  have hinv := hpart.inv.step heffect hfollows
  cases heffect with
  | prefetchesFirst => exact absurd rfl hfollows.1
  | compacts hreuse hpayloads =>
    obtain ⟨rfl, hcomplete⟩ := hpart.inv.materialize_one (hfollows.2 rfl) hreuse hpayloads
    obtain ⟨hflag, hkept⟩ := hpart.inv.reuse hreuse
    have hnone : request.hits.missing = [] := by
      by_contra hmissing
      exact hkeeps (request.losesMisses_iff.mpr
        ⟨hlayers, hflag, hkept, hmissing, fun hours _ => hcomplete hours⟩)
    refine ⟨⟨hinv, ?_⟩, ?_⟩
    · rw [compactReuseHits_hits hpart.inv.active hkept, hnone]
      rfl
    · rw [compactReuseHits_hits hpart.inv.active hkept]
      simp [RequestStep.offloads, ContextManager.setCompressData]
  | idles hidle =>
    refine ⟨hpart, ?_⟩
    cases action with
    | attend layer => exact absurd rfl (hidle layer).2
    | prefetch layer => exact absurd rfl (hidle layer).1
    | materialize layer | copy layer => simp [RequestStep.offloads]
  | skips | prefetches | materializes | copies =>
    refine ⟨⟨hinv, hpart.missing⟩, ?_⟩
    simp [RequestStep.offloads, ContextManager.setCompressData]
  | selects | blends | prefills =>
    refine ⟨⟨hinv, hpart.missing⟩, ?_⟩
    simp [RequestStep.offloads, ContextManager.offloadMissingChunks,
      ContextManager.selectTokens, hpart.missing]

theorem Partitioned.run (hpart : Partitioned request manager) (hkeeps : ¬ request.LosesMisses)
    (hlayers : 1 < request.layerNum) {actions : List RequestStep} {final : ContextManager}
    (hfollows : ∀ action ∈ actions, action.Follows request)
    (hrun : runFrom (ContextManager.step request) manager actions = some final) :
    Partitioned request final ∧ final.offloaded = manager.offloaded ++
        actions.flatMap (RequestStep.offloads request.hits.missing) := by
  induction actions generalizing manager with
  | nil =>
    obtain rfl : manager = final := by simpa [runFrom] using hrun
    exact ⟨hpart, by simp⟩
  | cons action rest ih =>
    obtain ⟨next, hstep, hrest⟩ := runFrom_cons hrun
    rw [forall_mem_cons] at hfollows
    obtain ⟨hnext, hlog⟩ := hpart.step hkeeps hlayers
      (ContextManager.effect_of_step hstep) hfollows.1
    obtain ⟨hfinal, hlogs⟩ := ih hnext hfollows.2 hrest
    exact ⟨hfinal, by rw [hlogs, hlog, flatMap_cons, append_assoc]⟩

theorem run_reset_of_le_one (hlayers : request.layerNum ≤ 1) (previous : ContextManager)
    {actions : List RequestStep} (hsteps : ∀ action ∈ actions, action ∈ layerSteps 0) :
    runFrom (ContextManager.step request) previous.reset actions = some previous.reset := by
  induction actions with
  | nil => rfl
  | cons action rest ih =>
    have hstep : previous.reset.step request action = some previous.reset := by
      have haction := hsteps action mem_cons_self
      simp only [layerSteps, mem_cons, not_mem_nil, or_false] at haction
      rcases haction with rfl | rfl | rfl | rfl
      · simp [ContextManager.step, ContextManager.prefetchChunkKv, hlayers,
          ContextManager.initial, ContextManager.reset]
      · rfl
      · rfl
      · rfl
    rw [runFrom, hstep]
    exact ih fun other hother => hsteps other (mem_cons_of_mem _ hother)

/-- The second compaction leaves none of the misses of the first. -/
theorem AtReuse.forgets (hreuse : AtReuse request manager) (hkept : request.hits.kept ≠ [])
    (hcomplete : request.compressType = .ours → request.catkvOps = true →
      allOursPayloadsComplete request.hits.keptPayloads = true) :
    ∃ next, manager.step request (.materialize 1) = some next ∧
      next.requested = request.chunks ∧
      next.active.length + next.missing.length = request.hits.kept.length := by
  have hstep : manager.step request (.materialize 1) = manager.materializeReuse request 1 := by
    simp [ContextManager.step, hreuse.reuse]
  by_cases hempties : request.Empties
  · obtain ⟨next, hload, -, hactive, hmissing, hrequested, -⟩ := hreuse.empties hempties
    exact ⟨next, hstep.trans hload, hrequested, by simp [hactive, hmissing]⟩
  have hpayloads : manager.materializeCompressData request 1 = some request.hits.keptPayloads := by
    unfold ContextManager.materializeCompressData
    cases htype : request.compressType with
    | none => simp [hreuse.data]
    | ours =>
      have hall : allOursPayloadsComplete request.hits.keptPayloads = true := by
        by_contra hincomplete
        refine hempties ⟨(hreuse.inv.reuse hreuse.reuse).1, htype, ?_, by simpa using hincomplete⟩
        by_contra hops
        exact hincomplete (hcomplete htype (by simpa using hops))
      simp [hreuse.data, hall]
  have hload : manager.materializeReuse request 1 = some
      (({ manager with missing := [] } : ContextManager).setCompressData 1
        (.payloads request.hits.keptPayloads)) := by
    simp [ContextManager.materializeReuse, hreuse.finished, hpayloads,
      compactReuseHits_hits hreuse.inv.active hkept]
  exact ⟨_, hstep.trans hload, hreuse.inv.requested, by
    simp [ContextManager.setCompressData, hreuse.inv.active]⟩

end Steps

section Request

variable (request : ReuseRequest) (previous : ContextManager) {manager : ContextManager}

/-- At every point after the prefetch of layer 1 the requested list is the
active and the missing list merged, and a request that gets through has
offloaded every chunk missing at layer 1 once for every layer. -/
structure RequestPartition : Prop where
  union : ∀ count manager, 0 < count → runFrom (ContextManager.step request) previous.reset
      ((computeLayer request.layerNum).take count) = some manager →
    Interleaves manager.active manager.missing manager.requested ∧
      (1 < request.layerNum → manager.requested = request.chunks)
  offloads : ∀ manager, runFrom (ContextManager.step request) previous.reset
      (computeLayer request.layerNum) = some manager →
    manager.offloaded = (List.range request.layerNum).flatMap fun layer =>
      (previous.reset.prefetchChunkKv request 1).missing.map fun chunk => (layer, chunk)

variable {request previous}

theorem requestPartition_of_le_one (hlayers : request.layerNum ≤ 1) :
    RequestPartition request previous := by
  have hsteps : ∀ action ∈ computeLayer request.layerNum, action ∈ layerSteps 0 := by
    intro action haction
    obtain ⟨idx, hidx, hmem⟩ := mem_flatMap.mp haction
    obtain rfl : idx = 0 := by
      have := mem_range.mp hidx
      omega
    exact hmem
  constructor
  · intro count manager _ hrun
    rw [run_reset_of_le_one hlayers previous fun action haction =>
      hsteps action (mem_of_mem_take haction), Option.some.injEq] at hrun
    subst hrun
    exact ⟨.nil, fun hlt => absurd hlt (by omega)⟩
  · intro manager hrun
    rw [run_reset_of_le_one hlayers previous hsteps, Option.some.injEq] at hrun
    subst hrun
    simp [ContextManager.prefetchChunkKv, hlayers, ContextManager.reset, ContextManager.initial]

theorem requestPartition_of_follows (hlayers : 1 < request.layerNum)
    (hkeeps : ¬ request.LosesMisses) (hempties : ¬ request.Empties) :
    RequestPartition request previous := by
  obtain ⟨rest, hsteps, hfirst⟩ := computeLayer_cons (Nat.zero_lt_of_lt hlayers)
  have hfollows : ∀ action ∈ rest, action.Follows request := fun action haction =>
    ⟨fun heq => hfirst (heq ▸ haction), fun _ => hempties⟩
  have hstart := firstPrefetched previous.reset hlayers
  have hpart : Partitioned request { previous.reset.prefetchChunkKv request 1 with
        useRuntimeReuse := false } := ⟨hstart.inv, hstart.missing⟩
  constructor
  · intro count manager hcount hrun
    obtain ⟨count, rfl⟩ := Nat.exists_eq_add_one.mpr hcount
    rw [hsteps, take_succ_cons, runFrom, step_prefetch_one] at hrun
    obtain ⟨hfinal, -⟩ := hpart.run hkeeps hlayers
      (fun action haction => hfollows action (mem_of_mem_take haction)) hrun
    exact ⟨hfinal.interleaves, fun _ => hfinal.inv.requested⟩
  · intro manager hrun
    rw [hsteps, runFrom, step_prefetch_one] at hrun
    obtain ⟨-, hlog⟩ := hpart.run hkeeps hlayers hfollows hrun
    have hmissing : (previous.reset.prefetchChunkKv request 1).missing =
        request.hits.missing := hstart.missing
    rw [hlog, hstart.offloaded, hmissing, ← computeLayer_offloads, hsteps]
    rfl

/-- Without misses the second compaction turns all chunks from active to
missing, and the request ends there. -/
theorem requestPartition_of_empties (hlayers : 1 < request.layerNum)
    (hkeeps : ¬ request.LosesMisses) (hempties : request.Empties) :
    RequestPartition request previous := by
  obtain ⟨rest, hsteps⟩ := computeLayer_second hlayers
  have hkept : request.hits.kept = request.chunks := by
    have hnone : request.hits.missing = [] := by
      by_contra hmissing
      exact hkeeps (request.losesMisses_iff.mpr ⟨hlayers, hempties.1, hempties.kept_ne_nil,
        hmissing, fun _ hops => absurd hops (by simp [hempties.2.2.1])⟩)
    have hmerge := (interleaves_splitHits request.chunks
      (retrieve request.chunks 1 (request.found 1))).length_eq
    refine (splitHits_kept_sublist _ _).eq_of_length_le ?_
    rw [ReuseRequest.hits] at hnone
    rw [hnone, length_nil] at hmerge
    omega
  have hstart := firstPrefetched previous.reset hlayers
  have hpart : Partitioned request { previous.reset.prefetchChunkKv request 1 with
        useRuntimeReuse := false } := ⟨hstart.inv, hstart.missing⟩
  constructor
  · intro count manager hcount hrun
    rw [hsteps] at hrun
    rcases (by omega : count ≤ 5 ∨ count = 6 ∨ 7 ≤ count) with hearly | rfl | hlate
    · obtain ⟨count, rfl⟩ := Nat.exists_eq_add_one.mpr hcount
      rw [take_append_of_le_length hearly, beforeReuse, take_succ_cons, runFrom,
        step_prefetch_one] at hrun
      obtain ⟨hfinal, -⟩ := hpart.run hkeeps hlayers (fun action haction => by
        have hmem := mem_of_mem_take haction
        simp only [mem_cons, not_mem_nil, or_false] at hmem
        rcases hmem with rfl | rfl | rfl | rfl <;> simp [RequestStep.Follows]) hrun
      exact ⟨hfinal.interleaves, fun _ => hfinal.inv.requested⟩
    · obtain ⟨reuse, hreuse, hreach⟩ :=
        run_atReuse previous hlayers hempties.1 hempties.kept_ne_nil
      obtain ⟨next, hload, -, hactive, hmissing, hrequested, -⟩ := hreuse.empties hempties
      have hstep : reuse.step request (.materialize 1) = some next := by
        simp [ContextManager.step, hreuse.reuse, hload]
      have hlast := hreach [.materialize 1]
      rw [show (beforeReuse ++ .materialize 1 :: .copy 1 :: rest).take 6 =
        beforeReuse ++ [.materialize 1] from rfl, hlast, runFrom, hstep] at hrun
      cases hrun
      rw [hactive, hmissing, hrequested, hkept]
      exact ⟨interleaves_right _, fun _ => rfl⟩
    · obtain ⟨count, rfl⟩ := Nat.exists_eq_add_of_le' hlate
      rw [show (beforeReuse ++ .materialize 1 :: .copy 1 :: rest).take (count + 7) =
        beforeReuse ++ .materialize 1 :: .copy 1 :: rest.take count from rfl,
        run_empties previous hlayers hempties] at hrun
      cases hrun
  · intro manager hrun
    rw [← append_nil (computeLayer request.layerNum)] at hrun
    exact absurd hempties (not_empties_of_run hlayers hlayers hrun)

theorem not_requestPartition_of_losesMisses (hloses : request.LosesMisses) :
    ¬ RequestPartition request previous := by
  intro hpartition
  obtain ⟨hlayers, hflag, hkept, hmissing, hcomplete⟩ := request.losesMisses_iff.mp hloses
  obtain ⟨manager, hreuse, hreach⟩ := run_atReuse previous hlayers hflag hkept
  obtain ⟨final, hfinal, hrequested, hlengths⟩ := hreuse.forgets hkept hcomplete
  obtain ⟨rest, hsteps⟩ := computeLayer_second hlayers
  -- the sixth step compacts the kept payloads a second time
  have hrun : runFrom (ContextManager.step request) previous.reset
      ((computeLayer request.layerNum).take 6) = some final := by
    rw [hsteps, show (beforeReuse ++ .materialize 1 :: .copy 1 :: rest).take 6 =
      beforeReuse ++ [.materialize 1] from rfl, hreach, runFrom, hfinal]
    rfl
  have hmerge := (hpartition.union 6 final (by decide) hrun).1.length_eq
  have hwhole : request.hits.kept.length + request.hits.missing.length =
      request.chunks.length := (interleaves_splitHits _ _).length_eq
  have hpos := length_pos_iff.mpr hmissing
  rw [hrequested] at hmerge
  omega

/-- The request keeps its partition, and offloads every miss at every layer,
exactly when it does not mix hits and misses on the way to the second
compaction. -/
theorem requestPartition_iff : RequestPartition request previous ↔ ¬ request.LosesMisses := by
  constructor
  · intro hpartition hloses
    exact not_requestPartition_of_losesMisses hloses hpartition
  · intro hkeeps
    by_cases hlayers : 1 < request.layerNum
    · by_cases hempties : request.Empties
      · exact requestPartition_of_empties hlayers hkeeps hempties
      · exact requestPartition_of_follows hlayers hkeeps hempties
    · exact requestPartition_of_le_one (Nat.not_lt.mp hlayers)

/-- Two chunks, of which layer 1 finds the first. -/
def hitAndMiss : ReuseRequest where
  layerNum := 3
  compressType := .ours
  catkvOps := true
  blendFlag := true
  inputLen := 4
  chunks := [⟨ascii "a", 0, 2⟩, ⟨ascii "b", 2, 4⟩]
  found := fun _ position =>
    if position = 0 then .split (some [1, 2]) true else .absent
  retries := fun _ => []
  picked := [0]

/-- The miss is offloaded at layer 0 only. -/
theorem not_requestPartition_hitAndMiss : ¬ RequestPartition hitAndMiss ContextManager.initial := by
  intro hpartition
  have hlog : (runFrom (ContextManager.step hitAndMiss)
      ContextManager.initial.reset (computeLayer hitAndMiss.layerNum)).map
        ContextManager.offloaded = some [(0, ⟨ascii "b", 2, 4⟩)] := by
    decide +kernel
  obtain ⟨manager, hrun, hoffloaded⟩ := Option.map_eq_some_iff.mp hlog
  have hall := hpartition.offloads manager hrun
  rw [hoffloaded] at hall
  have hlength := congrArg List.length hall
  revert hlength
  decide +kernel

end Request

end CatKV
