/-
The prefetch plan of `CatKVOpsBlendAdapter`: which objects are requested from
the bucket for the chunks that the CPU store does not have, one key_sv object
per group when the groups are known.
-/
import CatKV.ObjectName

namespace CatKV

structure DedupGroups where
  chunkToGroup : List Int
  sharedKeySvPaths : List Bytes
deriving Repr, DecidableEq

/-- `remote_paths` of a plan are its key_sv paths followed by its other paths,
or, when `paired`, the two paths of each miss in turn. -/
inductive SplitPrefetchPlan where
  | paired (remotePaths : List Bytes) (missIndices : List Nat)
  | dedupKeySv (keySvPaths otherPaths : List Bytes) (missIndices : List Nat)
      (missingGroups chunkToGroup : List Int)
deriving Repr, DecidableEq

def missIndices (allPaths : List Bytes) (cpuHits : List Bool) : List Nat :=
  (cpuHits.zipIdx.filter fun entry =>
    decide (entry.2 < allPaths.length) && !entry.1).map Prod.snd

/-- One miss of the loop that collects the groups to load, each with the path
of the first miss that needs it. -/
def addMissingGroup (allPaths : List Bytes) (chunkToGroup : List Int)
    (groups : List (Int × Bytes)) (idx : Nat) : List (Int × Bytes) :=
  match chunkToGroup[idx]? with
  | none => groups
  | some group =>
    if group < 0 ∨ group ∈ groups.map Prod.fst then groups
    else groups ++ [(group, allPaths.getD idx [])]

def keySvPathOf (sharedKeySvPaths : List Bytes) (entry : Int × Bytes) : Bytes :=
  if 0 ≤ entry.1 ∧ entry.1 < sharedKeySvPaths.length then sharedKeySvPaths.getD entry.1.toNat []
  else keySvPath entry.2

def buildSplitPrefetchPlan (allPaths : List Bytes) (cpuHits : List Bool)
    (dedupKeySvGroups : Option DedupGroups) : SplitPrefetchPlan :=
  let misses := missIndices allPaths cpuHits
  let missPaths := misses.map fun idx => allPaths.getD idx []
  match dedupKeySvGroups with
  | none => .paired (missPaths.flatMap fun path => [keySvPath path, otherPath path]) misses
  | some dedup =>
    let groups := misses.foldl (addMissingGroup allPaths dedup.chunkToGroup) []
    .dedupKeySv (groups.map (keySvPathOf dedup.sharedKeySvPaths))
      (missPaths.map otherPath) misses (groups.map Prod.fst)
      dedup.chunkToGroup

/-- The object whose content `_merge_split_payloads_with_plan` merges as the
key_sv part of the chunk at this position. -/
def SplitPrefetchPlan.keySvObject (plan : SplitPrefetchPlan) (idx : Nat) : Option Bytes :=
  match plan with
  | .paired remotePaths misses =>
    (misses.idxOf? idx).bind fun offset => remotePaths[offset * 2]?
  | .dedupKeySv keySvPaths _ misses missingGroups chunkToGroup =>
    if idx ∈ misses then
      chunkToGroup[idx]?.bind fun group =>
        (missingGroups.idxOf? group).bind fun offset => keySvPaths[offset]?
    else none

section Plan

variable {allPaths : List Bytes} {chunkToGroup : List Int}

theorem mem_missIndices {cpuHits : List Bool} {idx : Nat} (hpath : idx < allPaths.length)
    (hmiss : cpuHits[idx]? = some false) : idx ∈ missIndices allPaths cpuHits := by
  refine List.mem_map.mpr ⟨(false, idx), List.mem_filter.mpr ⟨?_, ?_⟩, rfl⟩
  · exact List.mem_zipIdx_iff_getElem?.mpr hmiss
  · simp [hpath]

theorem mem_addMissingGroup_of_mem {groups : List (Int × Bytes)} {group : Int}
    (miss : Nat) (hold : group ∈ groups.map Prod.fst) :
    group ∈ (addMissingGroup allPaths chunkToGroup groups miss).map Prod.fst := by
  unfold addMissingGroup
  split
  · exact hold
  · split
    · exact hold
    · rw [List.map_append]
      exact List.mem_append_left _ hold

theorem mem_addMissingGroup (groups : List (Int × Bytes)) {group miss : Nat}
    (hgroup : chunkToGroup[miss]? = some (group : Int)) :
    (group : Int) ∈ (addMissingGroup allPaths chunkToGroup groups miss).map Prod.fst := by
  simp only [addMissingGroup, hgroup]
  split
  · next hskip =>
    rcases hskip with hneg | hold
    · omega
    · exact hold
  · simp

theorem mem_foldl_addMissingGroup {misses : List Nat} {group : Nat} (groups : List (Int × Bytes))
    (hgroup : (group : Int) ∈ groups.map Prod.fst ∨
      ∃ idx ∈ misses, chunkToGroup[idx]? = some (group : Int)) :
    (group : Int) ∈ (misses.foldl (addMissingGroup allPaths chunkToGroup) groups).map Prod.fst := by
  induction misses generalizing groups with
  | nil =>
    rcases hgroup with hold | ⟨idx, hidx, -⟩
    · exact hold
    · cases hidx
  | cons miss rest ih =>
    refine ih _ ?_
    rcases hgroup with hold | ⟨idx, hidx, hgroup⟩
    · exact Or.inl (mem_addMissingGroup_of_mem miss hold)
    · rcases List.mem_cons.mp hidx with rfl | hrest
      · exact Or.inl (mem_addMissingGroup groups hgroup)
      · exact Or.inr ⟨idx, hrest, hgroup⟩

theorem keySvObject_buildSplitPrefetchPlan {cpuHits : List Bool} {dedup : DedupGroups}
    {idx group : Nat} {name : Bytes} (hpath : idx < allPaths.length)
    (hmiss : cpuHits[idx]? = some false) (hgroup : dedup.chunkToGroup[idx]? = some (group : Int))
    (hshared : dedup.sharedKeySvPaths[group]? = some name) :
    (buildSplitPrefetchPlan allPaths cpuHits (some dedup)).keySvObject idx = some name := by
  have hmem := mem_missIndices hpath hmiss
  simp only [buildSplitPrefetchPlan, SplitPrefetchPlan.keySvObject, hmem,
    ↓reduceIte, hgroup, Option.bind_some]
  have hcollected : (group : Int) ∈ ((missIndices allPaths cpuHits).foldl
      (addMissingGroup allPaths dedup.chunkToGroup) []).map Prod.fst :=
    mem_foldl_addMissingGroup [] (Or.inr ⟨idx, hmem, hgroup⟩)
  generalize (missIndices allPaths cpuHits).foldl
    (addMissingGroup allPaths dedup.chunkToGroup) [] = groups at hcollected ⊢
  obtain ⟨offset, hoffset⟩ := Option.isSome_iff_exists.mp (List.isSome_idxOf?.mpr hcollected)
  obtain ⟨hlt, hentry, -⟩ := List.idxOf?_eq_some_iff.mp hoffset
  have hbound : offset < groups.length := by simpa using hlt
  have hfirst : groups[offset].1 = (group : Int) := by simpa using hentry
  obtain ⟨hrange, hname⟩ := List.getElem?_eq_some_iff.mp hshared
  rw [hoffset, Option.bind_some, List.getElem?_map,
    List.getElem?_eq_getElem hbound, Option.map_some, keySvPathOf, hfirst]
  simp [hrange, hname]

end Plan

end CatKV
