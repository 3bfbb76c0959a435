/-
The fetches of `_process_tokens_internal`: what one backend gives, what the loop
over the backends has collected, and which chunks stand under which backend.
-/
import CatKV.Retrieve

namespace CatKV

open List

variable {ν κ μ : Type} [DecidableEq ν]

/-! One backend. -/

variable {results : List (TokenChunk κ × Option μ)}

theorem collectBlocks_of_some (hnone : (collectBlocks results).2 = none) :
    (∀ chunk, (chunk, none) ∉ results) ∧
      (collectBlocks results).1.map Prod.fst = results.map Prod.fst := by
  induction results with
  | nil => simp [collectBlocks]
  | cons result rest ih =>
    obtain ⟨chunk, memoryObj⟩ := result
    cases memoryObj with
    | none => cases hnone
    | some memoryObj =>
      obtain ⟨hrest, hmap⟩ := ih hnone
      refine ⟨fun other hother => ?_, ?_⟩
      · rcases mem_cons.mp hother with heq | htail
        · cases heq
        · exact hrest other htail
      · simp [collectBlocks, hmap]

theorem collectBlocks_map_some {chunks : List (TokenChunk κ)} {memoryObjs : List μ} :
    collectBlocks (chunks.zip (memoryObjs.map some)) = (chunks.zip memoryObjs, none) := by
  induction chunks generalizing memoryObjs with
  | nil => rfl
  | cons chunk rest ih =>
    cases memoryObjs with
    | nil => rfl
    | cons memoryObj memoryObjs =>
      rw [map_cons, zip_cons_cons, collectBlocks, ih]
      rfl

theorem collectBlocks_of_failed {failed : Nat} (hfailed : (collectBlocks results).2 = some failed) :
    ∃ chunk, (chunk, none) ∈ results ∧ chunk.start = failed := by
  induction results with
  | nil => cases hfailed
  | cons result rest ih =>
    obtain ⟨chunk, memoryObj⟩ := result
    cases memoryObj with
    | none => exact ⟨chunk, mem_cons_self, Option.some.inj hfailed⟩
    | some memoryObj =>
      obtain ⟨other, hother, hstart⟩ := ih hfailed
      exact ⟨other, mem_cons_of_mem _ hother, hstart⟩

theorem mem_of_mem_collectBlocks {entry : TokenChunk κ × μ}
    (hentry : entry ∈ (collectBlocks results).1) : (entry.1, some entry.2) ∈ results := by
  induction results with
  | nil => cases hentry
  | cons result rest ih =>
    obtain ⟨chunk, memoryObj⟩ := result
    cases memoryObj with
    | none => cases hentry
    | some memoryObj =>
      rcases mem_cons.mp hentry with rfl | htail
      · exact mem_cons_self
      · exact mem_cons_of_mem _ (ih htail)

/-! All backends. -/

/-- The results that the loop gets for one entry of the mapping. -/
def entryResults (storage : StorageManager ν κ μ)
    (entry : ν × List (TokenChunk κ)) : List (TokenChunk κ × Option μ) :=
  entry.2.zip ((storage.batchedGet (entry.2.map (·.key)) entry.1).getD [])

/-- What the loop over the locations has after the entries it has seen: the
chunks of each up to its failure, and the largest of the failed starts. -/
structure FetchedFrom (storage : StorageManager ν κ μ)
    (seen : List (ν × List (TokenChunk κ))) (fetched : Fetched κ μ) : Prop where
  chunks : ∀ item, item ∈ fetched.reorderedChunks ↔ ∃ entry ∈ seen,
    item ∈ (collectBlocks (entryResults storage entry)).1
  largest : ∀ entry ∈ seen, ∀ start, (collectBlocks (entryResults storage entry)).2 = some start →
    ∃ last, fetched.lastFailedBlockStart = some last ∧ start ≤ last
  failed : ∀ last, fetched.lastFailedBlockStart = some last → ∃ entry ∈ seen,
    (collectBlocks (entryResults storage entry)).2 = some last

theorem laterStart_left {start : Nat} {kept : Option Nat} (hkept : kept = some start)
    (failed : Option Nat) : ∃ last, laterStart kept failed = some last ∧ start ≤ last := by
  subst hkept
  cases failed with
  | none => exact ⟨start, rfl, Nat.le_refl _⟩
  | some other =>
    by_cases hlt : start < other
    · exact ⟨other, if_pos hlt, Nat.le_of_lt hlt⟩
    · exact ⟨start, if_neg hlt, Nat.le_refl _⟩

theorem laterStart_right {start : Nat} {failed : Option Nat}
    (kept : Option Nat) (hfailed : failed = some start) :
    ∃ last, laterStart kept failed = some last ∧ start ≤ last := by
  subst hfailed
  cases kept with
  | none => exact ⟨start, rfl, Nat.le_refl _⟩
  | some other =>
    by_cases hlt : other < start
    · exact ⟨start, if_pos hlt, Nat.le_refl _⟩
    · exact ⟨other, if_neg hlt, Nat.le_of_not_lt hlt⟩

theorem laterStart_eq {kept failed : Option Nat} {last : Nat}
    (hlast : laterStart kept failed = some last) : kept = some last ∨ failed = some last := by
  unfold laterStart at hlast
  split at hlast
  · exact Or.inr hlast
  · exact Or.inl hlast
  · split at hlast
    · exact Or.inr hlast
    · exact Or.inl hlast

variable {storage : StorageManager ν κ μ} {entry : ν × List (TokenChunk κ)}

theorem FetchedFrom.fetchBlocks {seen : List (ν × List (TokenChunk κ))} {fetched : Fetched κ μ}
    (hfetched : FetchedFrom storage seen fetched) {memoryObjs : List (Option μ)}
    (hget : storage.batchedGet (entry.2.map (·.key)) entry.1 = some memoryObjs) :
    ∃ next, fetchBlocks storage fetched entry = some next ∧
      FetchedFrom storage (seen ++ [entry]) next := by
  have hresults : entryResults storage entry = entry.2.zip memoryObjs := by
    rw [entryResults, hget, Option.getD_some]
  refine ⟨_, by rw [CatKV.fetchBlocks, hget, Option.map_some], ?_, ?_, ?_⟩
  · intro item
    simp only [← hresults, mem_append, hfetched.chunks item,
      mem_singleton, or_and_right, exists_or, exists_eq_left]
  · intro other hother start hstart
    dsimp only
    rw [← hresults]
    rcases mem_append.mp hother with hold | hnew
    · obtain ⟨last, hlast, hle⟩ := hfetched.largest other hold start hstart
      obtain ⟨last', hlast', hle'⟩ := laterStart_left hlast
        (collectBlocks (entryResults storage entry)).2
      exact ⟨last', hlast', Nat.le_trans hle hle'⟩
    · rw [mem_singleton.mp hnew] at hstart
      exact laterStart_right _ hstart
  · intro last hlast
    dsimp only at hlast
    rw [← hresults] at hlast
    rcases laterStart_eq hlast with hkept | hnew
    · obtain ⟨other, hother, hstart⟩ := hfetched.failed last hkept
      exact ⟨other, mem_append_left _ hother, hstart⟩
    · exact ⟨entry, mem_append_right _ (mem_singleton.mpr rfl), hnew⟩

theorem FetchedFrom.foldlM (mapping : List (ν × List (TokenChunk κ))) {fetched : Fetched κ μ}
    {seen : List (ν × List (TokenChunk κ))} (hfetched : FetchedFrom storage seen fetched)
    (hget : ∀ entry ∈ mapping, ∃ memoryObjs,
      storage.batchedGet (entry.2.map (·.key)) entry.1 = some memoryObjs) :
    ∃ final, mapping.foldlM (CatKV.fetchBlocks storage) fetched = some final ∧
      FetchedFrom storage (seen ++ mapping) final := by
  induction mapping generalizing fetched seen with
  | nil => exact ⟨fetched, rfl, by rwa [append_nil]⟩
  | cons entry rest ih =>
    obtain ⟨memoryObjs, hentry⟩ := hget entry mem_cons_self
    obtain ⟨next, hnext, hseen⟩ := hfetched.fetchBlocks hentry
    obtain ⟨final, hfinal, hall⟩ := ih hseen fun other hother =>
      hget other (mem_cons_of_mem _ hother)
    refine ⟨final, ?_, by simpa using hall⟩
    rw [foldlM_cons, hnext]
    exact hfinal

/-! The mapping. -/

/-- Every location that was seen has one entry with its chunks in order. -/
structure Mapped (seen : List (ν × TokenChunk κ))
    (mapping : List (ν × List (TokenChunk κ))) : Prop where
  blocks : ∀ entry ∈ mapping, entry.2 = (seen.filter fun other => other.1 = entry.1).map Prod.snd
  found : ∀ location, location ∈ mapping.map Prod.fst ↔ location ∈ seen.map Prod.fst
  nodup : (mapping.map Prod.fst).Nodup

theorem map_fst_appendBlock (location : ν) (chunk : TokenChunk κ)
    (mapping : List (ν × List (TokenChunk κ))) :
    (appendBlock location chunk mapping).map Prod.fst =
      if location ∈ mapping.map Prod.fst then mapping.map Prod.fst
      else mapping.map Prod.fst ++ [location] := by
  induction mapping with
  | nil => rfl
  | cons entry rest ih =>
    obtain ⟨name, blocks⟩ := entry
    by_cases hname : name = location
    · simp [appendBlock, hname]
    · have hne : location ≠ name := Ne.symm hname
      simp only [appendBlock, if_neg hname, map_cons, ih, mem_cons, hne, false_or]
      split <;> rfl

theorem mem_appendBlock {location : ν} {chunk : TokenChunk κ}
    {mapping : List (ν × List (TokenChunk κ))} (hnodup : (mapping.map Prod.fst).Nodup)
    (hentry : entry ∈ appendBlock location chunk mapping) :
    (entry.1 ≠ location ∧ entry ∈ mapping) ∨ (∃ blocks, (location, blocks) ∈ mapping ∧
        entry = (location, blocks ++ [chunk])) ∨
      (location ∉ mapping.map Prod.fst ∧ entry = (location, [chunk])) := by
  induction mapping with
  | nil => exact Or.inr (Or.inr ⟨by simp, mem_singleton.mp hentry⟩)
  | cons head rest ih =>
    obtain ⟨name, blocks⟩ := head
    rw [map_cons, nodup_cons] at hnodup
    by_cases hname : name = location
    · subst hname
      rw [appendBlock, if_pos rfl] at hentry
      rcases mem_cons.mp hentry with rfl | hrest
      · exact Or.inr (Or.inl ⟨blocks, mem_cons_self, rfl⟩)
      · refine Or.inl ⟨fun heq => hnodup.1 ?_, mem_cons_of_mem _ hrest⟩
        exact mem_map.mpr ⟨entry, hrest, heq⟩
    · rw [appendBlock, if_neg hname] at hentry
      rcases mem_cons.mp hentry with rfl | hrest
      · exact Or.inl ⟨hname, mem_cons_self⟩
      · rcases ih hnodup.2 hrest with ⟨hne, hold⟩ | ⟨old, hold, heq⟩ | ⟨hnew, heq⟩
        · exact Or.inl ⟨hne, mem_cons_of_mem _ hold⟩
        · exact Or.inr (Or.inl ⟨old, mem_cons_of_mem _ hold, heq⟩)
        · refine Or.inr (Or.inr ⟨?_, heq⟩)
          rw [map_cons, mem_cons, not_or]
          exact ⟨Ne.symm hname, hnew⟩

theorem Mapped.appendBlock {seen : List (ν × TokenChunk κ)}
    {mapping : List (ν × List (TokenChunk κ))} (hmapped : Mapped seen mapping)
    (location : ν) (chunk : TokenChunk κ) :
    Mapped (seen ++ [(location, chunk)]) (appendBlock location chunk mapping) where
  blocks entry hentry := by
    rw [filter_append, map_append]
    rcases mem_appendBlock hmapped.nodup hentry with ⟨hne, hold⟩ | ⟨blocks, hold, rfl⟩ | ⟨hnew, rfl⟩
    · rw [hmapped.blocks entry hold]
      simp [Ne.symm hne]
    · have hblocks := hmapped.blocks _ hold
      dsimp only at hblocks ⊢
      rw [hblocks]
      simp
    · have hnone : seen.filter (fun other => other.1 = location) = [] := by
        rw [filter_eq_nil_iff]
        intro other hother heq
        rw [hmapped.found] at hnew
        exact hnew (mem_map.mpr ⟨other, hother, by simpa using heq⟩)
      simp [hnone]
  found other := by
    rw [map_fst_appendBlock, map_append, mem_append, ← hmapped.found other]
    split
    · next hold =>
      simp only [map_cons, map_nil, mem_singleton]
      exact ⟨Or.inl, fun hor => hor.elim id fun heq => heq ▸ hold⟩
    · rw [mem_append]
      rfl
  nodup := by
    rw [map_fst_appendBlock]
    split
    · exact hmapped.nodup
    · next hnew =>
      rw [nodup_append]
      refine ⟨hmapped.nodup, by simp, ?_⟩
      rintro other hother last hlast rfl
      exact hnew (mem_singleton.mp hlast ▸ hother)

theorem mapped_blockMapping (located : List (ν × TokenChunk κ)) :
    Mapped located (blockMapping located) := by
  suffices hfold : ∀ (seen : List (ν × TokenChunk κ)) mapping,
      Mapped seen mapping → Mapped (seen ++ located) (located.foldl (fun mapping entry =>
          CatKV.appendBlock entry.1 entry.2 mapping) mapping) from
    hfold [] [] ⟨by simp, by simp, nodup_nil⟩
  induction located with
  | nil =>
    intro seen mapping hmapped
    rwa [append_nil]
  | cons entry rest ih =>
    intro seen mapping hmapped
    have hnext := ih _ _ (hmapped.appendBlock entry.1 entry.2)
    simpa using hnext

theorem mem_of_mem_blockMapping {located : List (ν × TokenChunk κ)}
    (hentry : entry ∈ blockMapping located) {chunk : TokenChunk κ}
    (hchunk : chunk ∈ entry.2) : (entry.1, chunk) ∈ located := by
  rw [(mapped_blockMapping located).blocks entry hentry] at hchunk
  obtain ⟨⟨location, _⟩, hother, rfl⟩ := mem_map.mp hchunk
  obtain ⟨hmem, hsame⟩ := mem_filter.mp hother
  rw [← of_decide_eq_true hsame]
  exact hmem

theorem batchedGet_of_contains {key : κ} {location : ν}
    (hcontains : storage.contains key = some location) {keys : List κ} (hkeys : keys ≠ []) :
    ∃ memoryObjs, storage.batchedGet keys location = some memoryObjs ∧
      memoryObjs.length = keys.length := by
  obtain ⟨entry, hfind, hname⟩ := Option.map_eq_some_iff.mp hcontains
  have hne : ∀ backend : SyncBackend κ μ, (backend.batchedGetBlocking keys).isEmpty = false := by
    intro backend
    rw [isEmpty_eq_false_iff, ← length_pos_iff, backend.length_batchedGetBlocking]
    exact length_pos_of_ne_nil hkeys
  have hsome : (storage.batchedGet keys location).isSome := by
    refine findSome?_isSome_iff.mpr ⟨entry, mem_of_find?_eq_some hfind, ?_⟩
    simp [hname, hne]
  obtain ⟨memoryObjs, hget⟩ := Option.isSome_iff_exists.mp hsome
  refine ⟨memoryObjs, hget, ?_⟩
  obtain ⟨before, found, after, -, hfound, -⟩ := findSome?_eq_some_iff.mp hget
  by_cases hlocation : found.1 = location
  · simp only [hlocation, ne_eq, not_true_eq_false, if_false, hne,
      Bool.false_eq_true, Option.some.injEq] at hfound
    rw [← hfound, found.2.length_batchedGetBlocking]
  · simp [hlocation] at hfound

end CatKV
