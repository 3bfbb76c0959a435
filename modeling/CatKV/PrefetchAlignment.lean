/-
A prefetch result has one entry per path, in order: the payload of the CPU
store where it has one, and else the merged halves of that very chunk.
-/
import CatKV.PrefetchAdapter
import CatKV.Transition

namespace CatKV

open List

variable {α : Type}

/-! The batch load. -/

theorem preferGpuResults_batchLoad (bucket : Bytes → Option (NamedTensors α))
    (onDevice : Bool) (keys : List Bytes) :
    preferGpuResults (batchLoad bucket onDevice keys).1
      (batchLoad bucket onDevice keys).2 = keys.map bucket := by
  unfold preferGpuResults batchLoad
  rw [drop_eq_nil_of_le (by simp), drop_eq_nil_of_le (by simp), map_nil, append_nil, append_nil,
    zipWith_map, zipWith_self]
  refine map_congr_left fun key _ => ?_
  cases onDevice with
  | false => rfl
  | true =>
    cases hobject : bucket key with
    | none => rfl
    | some tensors => cases tensors <;> simp

theorem has_nil (name : String) : NamedTensors.has ([] : NamedTensors α) name = false := rfl

theorem mergeSplitPayload_eq (bucket : Bytes → Option (NamedTensors α))
    (keySvName : Option Bytes) (otherName : Bytes) :
    mergeSplitPayload (keySvName.bind bucket) (bucket otherName) =
      remotePayload bucket keySvName otherName := by
  unfold mergeSplitPayload remotePayload
  cases keySvName.bind bucket with
  | none => rfl
  | some keySv =>
    cases bucket otherName with
    | none => rfl
    | some other =>
      by_cases hcomplete : HalvesComplete keySv other
      · have hkeySv : keySv ≠ [] := by
          rintro rfl
          simpa [has_nil] using hcomplete.1 "key_sv_meta" (by decide)
        have hother : other ≠ [] := by
          rintro rfl
          simpa [has_nil] using hcomplete.2 "u_meta" (by decide)
        have hnames : requiredKeySvKeys.all keySv.has = true ∧
            requiredOtherKeys.all other.has = true :=
          ⟨all_eq_true.mpr hcomplete.1, all_eq_true.mpr hcomplete.2⟩
        simp [hcomplete, hkeySv, hother, hnames.1, hnames.2]
      · have hnames : (requiredKeySvKeys.all keySv.has &&
            requiredOtherKeys.all other.has) = false := by
          rw [Bool.eq_false_iff, ne_eq, Bool.and_eq_true]
          exact fun hall => hcomplete ⟨all_eq_true.mp hall.1, all_eq_true.mp hall.2⟩
        simp only [hcomplete, if_false, ← Bool.not_and, hnames, Bool.not_false, if_true, ite_self]

/-! Pairs. -/

section Pairs

variable {β γ : Type} (first second : β → γ)

theorem getElem?_pairs (items : List β) (idx : Nat) :
    (items.flatMap fun item => [first item, second item])[idx * 2]? = items[idx]?.map first ∧
      (items.flatMap fun item => [first item, second item])[idx * 2 + 1]? =
        items[idx]?.map second := by
  induction items generalizing idx with
  | nil => simp
  | cons head tail ih =>
    cases idx with
    | zero => simp
    | succ idx =>
      rw [flatMap_cons, Nat.succ_mul]
      simpa using ih idx

theorem length_pairs (items : List β) :
    (items.flatMap fun item => [first item, second item]).length = items.length * 2 := by
  simp [length_flatMap]

end Pairs

theorem mergeSplitPayloads_pairs (bucket : Bytes → Option (NamedTensors α))
    (missPaths : List Bytes) :
    mergeSplitPayloads ((missPaths.flatMap fun path =>
        [keySvPath path, otherPath path]).map bucket) missPaths.length =
      missPaths.map fun path =>
        some (mergeSplitPayload (bucket (keySvPath path)) (bucket (otherPath path))) := by
  have hlength : ((missPaths.flatMap fun path =>
      [keySvPath path, otherPath path]).map bucket).length = missPaths.length * 2 := by
    rw [length_map, length_pairs]
  unfold mergeSplitPayloads
  split
  · next heq =>
    obtain rfl : missPaths = [] := by
      rw [hlength] at heq
      exact eq_nil_of_length_eq_zero (by omega)
    rfl
  · refine ext_getElem? fun idx => ?_
    rw [getElem?_map, getElem?_map]
    by_cases hidx : idx < missPaths.length
    · obtain ⟨hkeySv, hother⟩ := getElem?_pairs keySvPath otherPath missPaths idx
      rw [getElem?_range hidx, getElem?_eq_getElem hidx]
      have hnot : ¬ missPaths.length * 2 ≤ idx * 2 + 1 := by omega
      simp [hlength, hnot, List.getD, hkeySv, hother, getElem?_eq_getElem hidx]
    · simp [Nat.le_of_not_lt hidx]

/-! Groups. -/

section Groups

variable {paths : List Bytes} {chunkToGroup : List Int}

theorem lookup_addMissingGroup (groups : List (Int × Bytes)) (idx : Nat)
    {group : Int} (hgroup : 0 ≤ group) :
    (addMissingGroup paths chunkToGroup groups idx).lookup group = (groups.lookup group).or
        (if chunkToGroup[idx]? = some group then some (paths.getD idx [])
        else none) := by
  unfold addMissingGroup
  split
  · next hnone => simp [hnone]
  · next other hother =>
    rw [hother]
    split
    · next hskip =>
      by_cases heq : other = group
      · obtain ⟨path, hpath⟩ : ∃ path, groups.lookup group = some path := by
          obtain ⟨entry, hentry, hfst⟩ := mem_map.mp (hskip.resolve_left (by omega))
          refine Option.isSome_iff_exists.mp (lookup_isSome_iff.mpr ⟨entry, hentry, ?_⟩)
          rw [hfst, heq, beq_self_eq_true]
        simp [hpath]
      · simp [heq]
    · rw [lookup_append]
      by_cases heq : other = group
      · simp [heq]
      · simp [heq, lookup_cons, beq_eq_false_iff_ne.mpr (Ne.symm heq)]

theorem lookup_missingGroups (misses : List Nat) (groups : List (Int × Bytes))
    {group : Int} (hgroup : 0 ≤ group) :
    (misses.foldl (addMissingGroup paths chunkToGroup) groups).lookup group =
      (groups.lookup group).or ((misses.find? fun idx =>
        chunkToGroup[idx]? == some group).map fun idx => paths.getD idx []) := by
  induction misses generalizing groups with
  | nil => simp
  | cons miss rest ih =>
    rw [foldl_cons, ih, lookup_addMissingGroup groups miss hgroup, Option.or_assoc, find?_cons]
    by_cases hmiss : chunkToGroup[miss]? = some group
    · simp [hmiss]
    · simp [hmiss, beq_eq_false_iff_ne.mpr hmiss]

theorem missingGroups_nonneg (misses : List Nat) {groups : List (Int × Bytes)}
    (hgroups : ∀ entry ∈ groups, 0 ≤ entry.1) :
    ∀ entry ∈ misses.foldl (addMissingGroup paths chunkToGroup) groups, 0 ≤ entry.1 := by
  induction misses generalizing groups with
  | nil => exact hgroups
  | cons miss rest ih =>
    apply ih
    unfold addMissingGroup
    split
    · exact hgroups
    · split
      · exact hgroups
      · next hkeep =>
        exact forall_mem_concat hgroups (Int.not_lt.mp (not_or.mp hkeep).1)

theorem lookup_map_snd (groups : List (Int × Bytes)) (group : Int)
    (object : Int × Bytes → Option (NamedTensors α)) :
    (groups.map fun entry => (entry.1, object entry)).lookup group =
      (groups.lookup group).map fun path => object (group, path) := by
  induction groups with
  | nil => rfl
  | cons entry rest ih =>
    obtain ⟨head, path⟩ := entry
    by_cases heq : group = head
    · simp [heq]
    · have hne : (group == head) = false := beq_eq_false_iff_ne.mpr heq
      simp [lookup_cons, hne, ih]

end Groups

theorem lt_of_mem_missIndices {paths : List Bytes} {cpuHits : List Bool} {idx : Nat}
    (hidx : idx ∈ missIndices paths cpuHits) : idx < paths.length := by
  obtain ⟨entry, hentry, rfl⟩ := mem_map.mp hidx
  have hcheck := (mem_filter.mp hentry).2
  rw [Bool.and_eq_true, decide_eq_true_eq] at hcheck
  exact hcheck.1

/-- The entry of a group's dictionary that belongs to a missing chunk is the
payload of the object of that group. -/
theorem keySvByGroup_eq (bucket : Bytes → Option (NamedTensors α)) {paths : List Bytes}
    {misses : List Nat} (dedup : DedupGroups) (hmisses : ∀ idx ∈ misses, idx < paths.length)
    {idx : Nat} (hidx : idx ∈ misses) {group : Int}
    (hgroup : dedup.chunkToGroup[idx]? = some group) :
    ((((misses.foldl (addMissingGroup paths dedup.chunkToGroup) []).map
      fun entry => (entry.1, bucket (keySvPathOf dedup.sharedKeySvPaths
        entry))).lookup group).join) =
      (ownKeySvObject paths misses (some dedup) idx).bind bucket := by
  rw [lookup_map_snd]
  simp only [ownKeySvObject, hgroup, Option.bind_some]
  split
  · next hneg =>
    have hnone : (misses.foldl (addMissingGroup paths dedup.chunkToGroup)
        []).lookup group = none := by
      refine lookup_eq_none_iff.mpr fun entry hentry => ?_
      have := missingGroups_nonneg misses (by simp) entry hentry
      rw [bne_iff_ne]
      omega
    rw [hnone]
    rfl
  · next hnonneg =>
    have hpos : 0 ≤ group := Int.not_lt.mp hnonneg
    obtain ⟨first, hfirst⟩ : ∃ first, misses.find? (fun other =>
        dedup.chunkToGroup[other]? == some group) = some first :=
      Option.isSome_iff_exists.mp (find?_isSome.mpr ⟨idx, hidx, by simp [hgroup]⟩)
    have hpath : paths[first]? = some (paths.getD first []) := by
      have hlt := hmisses first (mem_of_find?_eq_some hfirst)
      simp [hlt]
    rw [lookup_missingGroups misses [] hpos, lookup_nil, Option.none_or, hfirst]
    simp only [Option.map_some, Option.join_some, keySvPathOf, hpos, true_and]
    cases hshared : dedup.sharedKeySvPaths[group.toNat]? with
    | none =>
      have hge := getElem?_eq_none_iff.mp hshared
      rw [if_neg (by omega)]
      simp only [hpath, Option.bind_some, Option.map_some]
    | some shared =>
      obtain ⟨hlt, heq⟩ := List.getElem?_eq_some_iff.mp hshared
      rw [if_pos (by omega)]
      simp [hshared]

theorem cut_dedupResult (bucket : Bytes → Option (NamedTensors α)) (groups : List (Int × Bytes))
    (keySvOf : Int × Bytes → Bytes) (others : List Bytes) :
    (groups.map Prod.fst).zip ((groups.map keySvOf ++ others).map bucket) =
        groups.map (fun entry => (entry.1, bucket (keySvOf entry))) ∧
      ((groups.map keySvOf ++ others).map bucket).drop
        (groups.map Prod.fst).length = others.map bucket := by
  rw [map_append, map_map]
  constructor
  · rw [← append_nil (groups.map Prod.fst), zip_append (by simp),
      zip_map', zip_nil_left, append_nil]
    rfl
  · exact drop_left' (by simp)

theorem mergeSplitPayloadsWithPlan_eq (bucket : Bytes → Option (NamedTensors α))
    (paths : List Bytes) (cpuHits : List Bool) (dedup : Option DedupGroups) :
    mergeSplitPayloadsWithPlan ((buildSplitPrefetchPlan paths cpuHits dedup).remotePaths.map bucket)
        (buildSplitPrefetchPlan paths cpuHits dedup) =
      (missIndices paths cpuHits).map fun idx => some (remotePayload bucket
        (ownKeySvObject paths (missIndices paths cpuHits) dedup idx)
        (otherPath (paths.getD idx []))) := by
  have hmisses : ∀ idx ∈ missIndices paths cpuHits, idx < paths.length :=
    fun idx hidx => lt_of_mem_missIndices hidx
  cases dedup with
  | none =>
    have hmerged := mergeSplitPayloads_pairs bucket
      ((missIndices paths cpuHits).map fun idx => paths.getD idx [])
    rw [length_map] at hmerged
    simp only [buildSplitPrefetchPlan, SplitPrefetchPlan.remotePaths, mergeSplitPayloadsWithPlan]
    rw [hmerged, map_map]
    refine map_congr_left fun idx hidx => ?_
    have hlt := hmisses idx hidx
    rw [← mergeSplitPayload_eq]
    simp [ownKeySvObject, hlt]
  | some dedup =>
    simp only [buildSplitPrefetchPlan, SplitPrefetchPlan.remotePaths, mergeSplitPayloadsWithPlan]
    generalize missIndices paths cpuHits = misses at hmisses
    obtain ⟨hkeySv, hothers⟩ := cut_dedupResult bucket
      (misses.foldl (addMissingGroup paths dedup.chunkToGroup) [])
      (keySvPathOf dedup.sharedKeySvPaths)
      ((misses.map fun idx => paths.getD idx []).map otherPath)
    rw [hkeySv, hothers]
    refine ext_getElem? fun offset => ?_
    rw [getElem?_map, getElem?_map, getElem?_zipIdx, Option.map_map]
    cases hmiss : misses[offset]? with
    | none => rfl
    | some idx =>
      have hidx := mem_of_getElem? hmiss
      have hother : ((misses.map fun idx => paths.getD idx []).map
          otherPath |>.map bucket)[offset]? = some (bucket (otherPath (paths.getD idx []))) := by
        simp [hmiss]
      simp only [Option.map_some, Function.comp_apply, Nat.zero_add, hother]
      cases hgroup : dedup.chunkToGroup[idx]? with
      | none => simp [remotePayload, ownKeySvObject, hgroup]
      | some group =>
        rw [← mergeSplitPayload_eq, ← keySvByGroup_eq bucket dedup hmisses hidx hgroup]

/-! Filling in. -/

theorem fillMisses_eq (payload : Nat → Option (NamedTensors α))
    {resultFromS3 : List (Option (NamedTensors α))} (start : Nat) (cpuData : List (NamedTensors α))
    {count : Nat} (hremote : resultFromS3.drop count =
      ((cpuData.zipIdx start).filter fun entry => entry.1.isEmpty).map
        fun entry => payload entry.2) :
    fillMisses resultFromS3 count cpuData = some ((cpuData.zipIdx start).map fun entry =>
        if entry.1.isEmpty then payload entry.2 else some entry.1) := by
  induction cpuData generalizing start count with
  | nil => rfl
  | cons data rest ih =>
    rw [zipIdx_cons] at hremote ⊢
    unfold fillMisses
    cases hempty : data.isEmpty with
    | true =>
      simp only [filter_cons, hempty, if_true, map_cons] at hremote ⊢
      have hnext : resultFromS3[count]? = some (payload start) := by
        rw [← head?_drop, hremote]
        rfl
      have hrest : resultFromS3.drop (count + 1) = ((rest.zipIdx (start + 1)).filter fun entry =>
            entry.1.isEmpty).map fun entry => payload entry.2 := by
        rw [← tail_drop, hremote]
        rfl
      simp [hnext, ih (start + 1) hrest]
    | false =>
      simp only [filter_cons, hempty, Bool.false_eq_true, if_false, map_cons] at hremote ⊢
      simp [ih (start + 1) hremote]

theorem missIndices_eq {paths : List Bytes} {cpuData : List (NamedTensors α)}
    (hlength : cpuData.length = paths.length) :
    missIndices paths (cpuData.map fun data => !data.isEmpty) =
      (cpuData.zipIdx.filter fun entry => entry.1.isEmpty).map Prod.snd := by
  unfold missIndices
  rw [zipIdx_map, filter_map, map_map]
  congr 1
  refine filter_congr fun entry hentry => ?_
  have hlt : entry.2 < paths.length := by
    rw [← hlength]
    simpa using snd_lt_of_mem_zipIdx hentry
  simp [hlt]

/-! The result. -/

/-- The payload made of a missing chunk's own halves. -/
def missPayload (bucket : Bytes → Option (NamedTensors α))
    (paths : List Bytes) (cpuData : List (NamedTensors α))
    (dedup : Option DedupGroups) (idx : Nat) : NamedTensors α :=
  remotePayload bucket (ownKeySvObject paths
    (missIndices paths (cpuData.map fun data => !data.isEmpty)) dedup idx)
    (otherPath (paths.getD idx []))

/-- What the result of a prefetch should be: the payload of the CPU store, and
where that is empty the one made of the chunk's own halves. -/
def alignedResult (bucket : Bytes → Option (NamedTensors α))
    (paths : List Bytes) (cpuData : List (NamedTensors α))
    (dedup : Option DedupGroups) : List (NamedTensors α) :=
  cpuData.zipIdx.map fun (data, idx) =>
    if data.isEmpty then missPayload bucket paths cpuData dedup idx else data

namespace PrefetchAdapter

/-- What the adapter keeps under the id of an outstanding prefetch. -/
def Holds (adapter : PrefetchAdapter α) (id : PrefetchId) (paths : List Bytes)
    (cpuData : List (NamedTensors α)) (dedup : Option DedupGroups) : Prop :=
  ((prefetchPlan paths cpuData dedup).remotePaths = [] ∧ adapter.key id = some (cpuData, false)) ∨
  ∃ number, id = .task number ∧ adapter.key id = some (cpuData, true) ∧
    adapter.splitPrefetchTasks id = some (prefetchPlan paths cpuData dedup) ∧
    adapter.scheduler.loadFutures number = some (prefetchPlan paths cpuData dedup).remotePaths

variable {adapter : PrefetchAdapter α} {paths : List Bytes}
  {cpuData : List (NamedTensors α)} {dedup : Option DedupGroups}

theorem missIndices_of_remotePaths (hnone : (prefetchPlan paths cpuData dedup).remotePaths = []) :
    missIndices paths (cpuData.map fun data => !data.isEmpty) = [] := by
  unfold prefetchPlan buildSplitPrefetchPlan at hnone
  cases dedup with
  | none =>
    refine eq_nil_iff_forall_not_mem.mpr ?_
    simpa [SplitPrefetchPlan.remotePaths] using hnone
  | some dedup =>
    simp only [SplitPrefetchPlan.remotePaths, append_eq_nil_iff, map_eq_nil_iff] at hnone
    exact hnone.2

theorem alignedResult_of_remotePaths (bucket : Bytes → Option (NamedTensors α))
    (hlength : cpuData.length = paths.length)
    (hnone : (prefetchPlan paths cpuData dedup).remotePaths = []) :
    alignedResult bucket paths cpuData dedup = cpuData := by
  have hmisses := missIndices_of_remotePaths hnone
  rw [missIndices_eq hlength, map_eq_nil_iff, filter_eq_nil_iff] at hmisses
  unfold alignedResult
  calc cpuData.zipIdx.map _ = cpuData.zipIdx.map Prod.fst :=
        map_congr_left fun entry hentry => if_neg (hmisses entry hentry)
    _ = cpuData := zipIdx_map_fst 0 cpuData

theorem getPrefetchResult_of_holds (bucket : Bytes → Option (NamedTensors α)) (onDevice : Bool)
    {id : PrefetchId} (hlength : cpuData.length = paths.length)
    (hholds : adapter.Holds id paths cpuData dedup) :
    ∃ final, adapter.getPrefetchResult bucket onDevice id =
      some ((alignedResult bucket paths cpuData dedup).map some, final) := by
  rcases hholds with ⟨hnone, hkey⟩ | ⟨number, rfl, hkey, hplan, hload⟩
  · rw [alignedResult_of_remotePaths bucket hlength hnone]
    simp [getPrefetchResult, hkey]
  · have hremote : mergeSplitPayloadsWithPlan
        ((prefetchPlan paths cpuData dedup).remotePaths.map bucket)
        (prefetchPlan paths cpuData dedup) =
        (cpuData.zipIdx.filter fun entry => entry.1.isEmpty).map fun entry =>
          some (missPayload bucket paths cpuData dedup entry.2) := by
      rw [prefetchPlan, mergeSplitPayloadsWithPlan_eq]
      unfold missPayload
      rw [missIndices_eq hlength, map_map]
      rfl
    have hfilled := fillMisses_eq
      (fun idx => some (missPayload bucket paths cpuData dedup idx)) 0 cpuData
      ((drop_zero ..).trans hremote)
    have haligned : cpuData.zipIdx.map (fun entry => if entry.1.isEmpty then
        some (missPayload bucket paths cpuData dedup entry.2)
        else some entry.1) = (alignedResult bucket paths cpuData dedup).map some := by
      rw [alignedResult, map_map]
      refine map_congr_left fun entry _ => ?_
      exact (apply_ite some _ _ _).symm
    simp only [getPrefetchResult, hkey, hload, hplan,
      preferGpuResults_batchLoad, hfilled, haligned, Option.map_some]
    exact ⟨_, rfl⟩

theorem prefetchRemote_holds (adapter : PrefetchAdapter α) (cpuData : List (NamedTensors α))
    (dedup : Option DedupGroups) (hpaths : paths ≠ []) :
    ∃ id next, adapter.prefetchRemote paths cpuData dedup = some (id, next) ∧
      next.Holds id paths cpuData dedup := by
  match paths, hpaths with
  | first :: rest, _ =>
    cases hremote : (prefetchPlan (first :: rest) cpuData dedup).remotePaths.isEmpty with
    | true =>
      refine ⟨_, _, if_pos hremote, Or.inl ⟨?_, ?_⟩⟩
      · exact isEmpty_iff.mp hremote
      · exact Function.update_self ..
    | false =>
      refine ⟨_, _, if_neg (by simp [hremote]), Or.inr ⟨_, rfl, ?_⟩⟩
      exact ⟨Function.update_self .., Function.update_self .., Function.update_self ..⟩

end PrefetchAdapter

/-- Entries of a prefetch result belong to their paths. -/
theorem prefetchResult_aligned (adapter : PrefetchAdapter α)
    (bucket : Bytes → Option (NamedTensors α)) (onDevice : Bool) (paths : List Bytes)
    (cpuData : List (NamedTensors α)) (dedup : Option DedupGroups) (hpaths : paths ≠ [])
    (hlength : cpuData.length = paths.length) :
    ∃ id next result final, adapter.prefetchRemote paths cpuData dedup = some (id, next) ∧
      next.getPrefetchResult bucket onDevice id = some (result, final) ∧
      result.length = paths.length ∧
      ∀ (idx : Nat) (path : Bytes) (data : NamedTensors α),
        paths[idx]? = some path → cpuData[idx]? = some data →
        result[idx]? = some (some (if data.isEmpty then
          remotePayload bucket (ownKeySvObject paths
            (missIndices paths (cpuData.map fun data => !data.isEmpty))
            dedup idx) (otherPath path)
        else data)) := by
  obtain ⟨id, next, hprefetch, hholds⟩ := adapter.prefetchRemote_holds cpuData dedup hpaths
  obtain ⟨final, hresult⟩ := PrefetchAdapter.getPrefetchResult_of_holds bucket
    onDevice hlength hholds
  refine ⟨id, next, _, final, hprefetch, hresult, ?_, ?_⟩
  · simp [alignedResult, hlength]
  · intro idx path data hpath hdata
    rw [getElem?_map, alignedResult, getElem?_map, getElem?_zipIdx, hdata]
    simp [missPayload, hpath]

/-- The key_sv object of the first group and the other half of chunk b. -/
def halfFilledBucket (name : Bytes) : Option (NamedTensors Nat) :=
  if name = ascii "s0" then some (requiredKeySvKeys.map fun key => (ascii key, 1))
  else if name = ascii "b_other" then some (requiredOtherKeys.map fun key => (ascii key, 2))
  else none

/-- A hit, a miss in the same group, and a miss whose halves are not there. -/
theorem prefetchResult_halfFilled : ∃ id next result final, PrefetchAdapter.start.prefetchRemote
      [ascii "a", ascii "b", ascii "c"] [[(ascii "u", 0)], [], []]
      (some ⟨[0, 0, 1], [ascii "s0", ascii "s1"]⟩) = some (id, next) ∧
    next.getPrefetchResult halfFilledBucket true id = some (result, final) ∧
    result[0]? = some (some [(ascii "u", 0)]) ∧
    result[1]? = some (some ((requiredOtherKeys.map fun key => (ascii key, 2)) ++
        requiredKeySvKeys.map fun key => (ascii key, 1))) ∧
    result[2]? = some (some []) := by
  obtain ⟨id, next, result, final, hprefetch, hresult, -, hentry⟩ :=
    prefetchResult_aligned PrefetchAdapter.start halfFilledBucket true
      [ascii "a", ascii "b", ascii "c"] [[(ascii "u", 0)], [], []]
      (some ⟨[0, 0, 1], [ascii "s0", ascii "s1"]⟩) (by simp) rfl
  refine ⟨id, next, result, final, hprefetch, hresult, hentry 0 _ _ rfl rfl, ?_, ?_⟩
  · rw [hentry 1 _ _ rfl rfl]
    decide +kernel
  · rw [hentry 2 _ _ rfl rfl]
    decide +kernel

end CatKV
