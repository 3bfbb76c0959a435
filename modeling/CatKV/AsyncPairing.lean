/-
Which object a chunk gets on the asynchronous path.  The objects are loaded for
the first chunks of the lookup and consumed from the first chunk that is not
masked, so they fit together only if nothing shifts them.
-/
import CatKV.AsyncRetrieve

namespace CatKV

open List

variable {ν κ : Type}

/-- The keys that are loaded, each with its backend: a backend takes as many of
the remaining keys as it has in a row. -/
def served : List (AsyncBackend κ) → List κ → List (AsyncBackend κ × κ)
  | [], _ => []
  | backend :: rest, keys =>
    (keys.takeWhile backend.contains).map (backend, ·) ++
      served rest (keys.dropWhile backend.contains)

def searched [DecidableEq ν] (searchRange : Option (List ν))
    (storage : List (ν × AsyncBackend κ)) : List (AsyncBackend κ) :=
  (storage.filter fun entry => inSearchRange searchRange entry.1).map Prod.snd

/-- What is loaded for the tokens. -/
def lookupEntries [DecidableEq ν] (database : ChunkedTokenDatabase κ)
    (storage : List (ν × AsyncBackend κ)) (searchRange : Option (List ν))
    (tokens : List Nat) : List (AsyncBackend κ × κ) :=
  served (searched searchRange storage) ((database.chunks tokens).map (·.key))

/-- The keys that are still there when they are loaded. -/
def survivors (entries : List (AsyncBackend κ × κ)) : List κ :=
  (entries.filter fun entry => !entry.1.lost entry.2).map Prod.snd

/-- A chunk is lost that its backend does not drop; or more chunks are dropped
than masked; or the chunks that are left, in order, begin with those behind the
mask. -/
def ShiftFree (entries : List (AsyncBackend κ × κ)) (masked : Nat) : Prop :=
  (∃ entry ∈ entries, entry.1.lost entry.2 = true ∧ entry.1.missing ≠ .dropped) ∨
  (survivors entries).length < entries.length - masked ∨
  (survivors entries).take (entries.length - masked) = (entries.map Prod.snd).drop masked

/-- `_async_process_tokens_internal` raises or gives every chunk that it goes
through the object of its own key. -/
def OwnPairs (database : ChunkedTokenDatabase κ)
    (event : Option (Option (List (List (Option (LoadedObj κ))))))
    (tokens : List Nat) (mask : Option (List Bool)) : Prop :=
  ∀ retrieved, asyncProcessTokensInternal database event tokens mask = some retrieved →
    database.processTokens tokens (numFalses mask) = some (retrieved.reorderedChunks.map Prod.fst) ∧
      ∀ entry ∈ retrieved.reorderedChunks, entry.2.key = entry.1.key

/-- The reported length is the end of the last chunk of those loaded, and
`retrieve` on so many tokens keeps chunks and objects together. -/
def Lookup.OwnObjects (lookup : Lookup κ) (database : ChunkedTokenDatabase κ)
    (loaded : List (TokenChunk κ)) (tokens : List Nat)
    (mask : Option (List Bool)) : Prop :=
  lookup.retrievedLength = (loaded.getLast?.map (·.stop)).getD 0 ∧
    OwnPairs database lookup.event (tokens.take lookup.retrievedLength) mask

/-! The loop of the lookup. -/

theorem map_snd_served (backends : List (AsyncBackend κ)) (keys : List κ) :
    (served backends keys).map Prod.snd = keys.take (served backends keys).length := by
  induction backends generalizing keys with
  | nil => simp [served]
  | cons backend rest ih =>
    have hkeys := takeWhile_append_dropWhile (p := backend.contains) (l := keys)
    have htake := @take_length_add_append _
      (keys.takeWhile backend.contains) (keys.dropWhile backend.contains)
      (served rest (keys.dropWhile backend.contains)).length
    rw [hkeys] at htake
    simp [served, ih, htake, Function.comp_def]

theorem length_served_le (backends : List (AsyncBackend κ)) (keys : List κ) :
    (served backends keys).length ≤ keys.length := by
  have hlength := congrArg List.length (map_snd_served backends keys)
  rw [length_map, length_take] at hlength
  omega

theorem served_nil (backends : List (AsyncBackend κ)) : served backends [] = [] := by
  induction backends with
  | nil => rfl
  | cons backend rest ih => simp [served, ih]

/-- The keys of the loads, each with its backend. -/
def taskEntries (tasks : List (AsyncBackend κ × List κ)) : List (AsyncBackend κ × κ) :=
  tasks.flatMap fun task => task.2.map (task.1, ·)

theorem lookupLoop_served [DecidableEq ν] (searchRange : Option (List ν))
    (numTotalChunks : Nat) (storage : List (ν × AsyncBackend κ)) (hits : Nat)
    (keys : List κ) (htotal : hits + keys.length = numTotalChunks) :
    (lookupLoop searchRange numTotalChunks storage hits keys).1 =
        hits + (served (searched searchRange storage) keys).length ∧
      taskEntries (lookupLoop searchRange numTotalChunks storage hits keys).2 =
        served (searched searchRange storage) keys := by
  induction storage generalizing hits keys with
  | nil => exact ⟨rfl, rfl⟩
  | cons entry rest ih =>
    obtain ⟨name, backend⟩ := entry
    unfold lookupLoop
    cases hrange : inSearchRange searchRange name with
    | false => simpa [searched, hrange] using ih hits keys htotal
    | true =>
      have hsearched : searched searchRange ((name, backend) :: rest) =
          backend :: searched searchRange rest := by
        simp [searched, hrange]
      have hkeys := takeWhile_append_dropWhile (p := backend.contains) (l := keys)
      set hit := keys.takeWhile backend.contains with hhit
      set left := keys.dropWhile backend.contains with hleft
      have hcount : backend.batchedAsyncContains keys = hit.length := rfl
      have hlength : hit.length + left.length = keys.length := by
        rw [← hkeys, length_append]
      have htake : keys.take hit.length = hit := by simp [← hkeys]
      have hdrop : keys.drop hit.length = left := by simp [← hkeys]
      simp only [hsearched, served, ← hhit, ← hleft, hcount, htake, hdrop, length_append,
        length_map, Bool.not_true, Bool.false_eq_true, if_false]
      split_ifs with hnone hall
      · obtain hnil := length_eq_zero_iff.mp hnone
        have hleft' : left = keys := by rw [← hkeys, hnil, nil_append]
        simpa [hnil, hleft'] using ih hits keys htotal
      · have hnil : left = [] := length_eq_zero_iff.mp (by omega)
        simp [hnil, served_nil, taskEntries]
      · obtain ⟨hhits, hentries⟩ := ih (hits + hit.length) left (by omega)
        refine ⟨by rw [hhits, Nat.add_assoc], ?_⟩
        rw [taskEntries, flatMap_cons]
        exact congrArg _ hentries

/-! The loads. -/

/-- What the load of one key adds to the loaded objects, if no load raises. -/
def loadedOf (entry : AsyncBackend κ × κ) : List (Option (LoadedObj κ)) :=
  if entry.1.lost entry.2 then
    if entry.1.missing = .dropped then [] else [none]
  else [some ⟨entry.2⟩]

/-- The load of this key raises. -/
def RaisesAt (entry : AsyncBackend κ × κ) : Prop :=
  entry.1.lost entry.2 = true ∧ entry.1.missing = .raises

theorem loadedOf_dropped {backend : AsyncBackend κ} (hmissing : backend.missing = .dropped)
    (key : κ) : loadedOf (backend, key) = [backend.get key].filter (·.isSome) := by
  cases hlost : backend.lost key <;> simp [loadedOf, AsyncBackend.get, hlost, hmissing]

theorem loadedOf_kept {backend : AsyncBackend κ} (hmissing : backend.missing ≠ .dropped) (key : κ) :
    loadedOf (backend, key) = [backend.get key] := by
  cases hlost : backend.lost key <;> simp [loadedOf, AsyncBackend.get, hlost, hmissing]

theorem batchedGetNonBlocking_cases (backend : AsyncBackend κ) (keys : List κ) :
    (backend.batchedGetNonBlocking keys = none ∧ ∃ key ∈ keys, RaisesAt (backend, key)) ∨
      (backend.batchedGetNonBlocking keys = some (keys.flatMap fun key => loadedOf (backend, key)) ∧
        ∀ key ∈ keys, ¬ RaisesAt (backend, key)) := by
  unfold AsyncBackend.batchedGetNonBlocking
  cases hmissing : backend.missing with
  | raises =>
    by_cases hlost : keys.any backend.lost
    · refine Or.inl ⟨if_pos hlost, ?_⟩
      simpa [RaisesAt, hmissing] using hlost
    · refine Or.inr ⟨?_, by simpa [RaisesAt, hmissing] using hlost⟩
      have hkept := loadedOf_kept (show backend.missing ≠ .dropped by simp [hmissing])
      simp only [if_neg hlost, hkept, map_eq_flatMap]
  | keptNone =>
    refine Or.inr ⟨?_, by simp [RaisesAt, hmissing]⟩
    have hkept := loadedOf_kept (show backend.missing ≠ .dropped by simp [hmissing])
    simp only [hkept, map_eq_flatMap]
  | dropped =>
    refine Or.inr ⟨?_, by simp [RaisesAt, hmissing]⟩
    simp only [loadedOf_dropped hmissing, map_eq_flatMap, filter_flatMap]

theorem gather_cases (tasks : List (AsyncBackend κ × List κ)) :
    (gather tasks = none ∧ ∃ entry ∈ taskEntries tasks, RaisesAt entry) ∨
      ∃ loaded, gather tasks = some loaded ∧ loaded.flatten = (taskEntries tasks).flatMap loadedOf ∧
        ∀ entry ∈ taskEntries tasks, ¬ RaisesAt entry := by
  induction tasks with
  | nil => exact Or.inr ⟨[], rfl, rfl, by simp [taskEntries]⟩
  | cons task rest ih =>
    obtain ⟨backend, keys⟩ := task
    have hentries : taskEntries ((backend, keys) :: rest) =
        keys.map (backend, ·) ++ taskEntries rest := flatMap_cons
    have hgather : gather ((backend, keys) :: rest) =
        (backend.batchedGetNonBlocking keys).bind fun first =>
          (gather rest).map (first :: ·) := by
      simp only [gather, mapM_cons, Option.map_eq_bind]
      rfl
    rw [hentries, hgather]
    rcases batchedGetNonBlocking_cases backend keys with
      ⟨hload, key, hkey, hraises⟩ | ⟨hload, hfirst⟩
    · refine Or.inl ⟨by rw [hload]; rfl, (backend, key), ?_, hraises⟩
      exact mem_append_left _ (mem_map_of_mem hkey)
    · rcases ih with ⟨hrest, entry, hentry, hraises⟩ | ⟨loaded, hrest, hflatten, hnone⟩
      · refine Or.inl ⟨by rw [hload, hrest]; rfl, entry, ?_, hraises⟩
        exact mem_append_right _ hentry
      · refine Or.inr ⟨_, by rw [hload, hrest]; rfl, ?_, ?_⟩
        · rw [flatten_cons, hflatten, flatMap_append, flatMap_map]
        · intro entry hentry
          rcases mem_append.mp hentry with hmem | hmem
          · obtain ⟨key, hkey, rfl⟩ := mem_map.mp hmem
            exact hfirst key hkey
          · exact hnone entry hmem

/-! The pairing. -/

theorem pairChunks_eq_some_iff (memoryObjs : List (Option (LoadedObj κ))) (idx : Nat)
    (yielded : List (TokenChunk κ)) (chunks : List (TokenChunk κ × LoadedObj κ)) :
    pairChunks memoryObjs idx yielded = some chunks ↔ chunks.map Prod.fst = yielded ∧
        chunks.map (fun entry => some entry.2) = (memoryObjs.drop idx).take yielded.length := by
  induction yielded generalizing idx chunks with
  | nil =>
    simp only [pairChunks, Option.some.injEq, map_eq_nil_iff, length_nil, take_zero, and_self]
    exact eq_comm
  | cons chunk rest ih =>
    unfold pairChunks
    cases hobj : memoryObjs[idx]? with
    | none =>
      have hdrop : memoryObjs.drop idx = [] := by simpa using hobj
      cases chunks <;> simp [hdrop]
    | some memoryObj =>
      have hdrop : memoryObjs.drop idx = memoryObj :: memoryObjs.drop (idx + 1) := by
        obtain ⟨hidx, rfl⟩ := List.getElem?_eq_some_iff.mp hobj
        exact List.drop_eq_getElem_cons hidx
      rw [hdrop, length_cons, take_succ_cons]
      cases memoryObj with
      | none => cases chunks <;> simp
      | some memoryObj =>
        simp only [Option.map_eq_some_iff, ih]
        constructor
        · rintro ⟨later, ⟨hfst, hsnd⟩, rfl⟩
          simp [hfst, hsnd]
        · rintro ⟨hfst, hsnd⟩
          cases chunks with
          | nil => cases hfst
          | cons entry later =>
            obtain ⟨hchunk, hrest⟩ := List.cons.inj hfst
            obtain ⟨hobj, hobjs⟩ := List.cons.inj hsnd
            cases hchunk
            cases hobj
            exact ⟨later, ⟨hrest, hobjs⟩, rfl⟩

/-- What `_async_process_tokens_internal` gives is the chunks it goes through,
with the loaded objects one after the other; none of them is missing. -/
theorem asyncProcessTokensInternal_eq_some_iff {database : ChunkedTokenDatabase κ}
    {tokens : List Nat} {mask : Option (List Bool)} {yielded : List (TokenChunk κ)}
    (hyielded : database.processTokens tokens (numFalses mask) = some yielded)
    (loaded : List (List (Option (LoadedObj κ)))) (chunks : List (TokenChunk κ × LoadedObj κ)) :
    (∃ retrieved, asyncProcessTokensInternal database (some (some loaded))
        tokens mask = some retrieved ∧ retrieved.reorderedChunks = chunks) ↔
      chunks.map Prod.fst = yielded ∧ chunks.map (fun entry => some entry.2) =
          loaded.flatten.take yielded.length ∧
        none ∉ loaded.flatten := by
  have hpair := pairChunks_eq_some_iff loaded.flatten 0 yielded chunks
  rw [drop_zero] at hpair
  have hsome : none ∉ chunks.map (fun entry => some entry.2) := by simp
  constructor
  · rintro ⟨retrieved, hretrieved, rfl⟩
    simp only [asyncProcessTokensInternal, hyielded, Option.join_some,
      Option.bind_some, Option.bind_eq_some_iff] at hretrieved
    obtain ⟨chunks, hchunks, hretrieved⟩ := hretrieved
    split at hretrieved
    · cases hretrieved
    · next hrest =>
      cases hretrieved
      obtain ⟨hfst, hsnd⟩ := hpair.mp hchunks
      refine ⟨hfst, hsnd, fun hnone => ?_⟩
      rw [← take_append_drop yielded.length loaded.flatten, mem_append, ← hsnd] at hnone
      have hlength : chunks.length = yielded.length := by
        rw [← hfst, length_map]
      exact hnone.elim hsome fun hmem => hrest (any_eq_true.mpr ⟨none, by rwa [hlength], rfl⟩)
  · rintro ⟨hfst, hsnd, hnone⟩
    refine ⟨⟨markChunks chunks (List.replicate tokens.length false), chunks⟩, ?_, rfl⟩
    simp only [asyncProcessTokensInternal, hyielded, Option.join_some,
      Option.bind_some, hpair.mpr ⟨hfst, hsnd⟩]
    refine if_neg fun hany => ?_
    obtain ⟨obj, hobj, hisNone⟩ := any_eq_true.mp hany
    rw [Option.isNone_iff_eq_none.mp hisNone] at hobj
    exact hnone (mem_of_mem_drop hobj)

section Pairs

variable {database : ChunkedTokenDatabase κ} {tokens : List Nat}
  {mask : Option (List Bool)} {yielded : List (TokenChunk κ)}

theorem ownPairs_of_none_mem
    (hyielded : database.processTokens tokens (numFalses mask) = some yielded)
    {loaded : List (List (Option (LoadedObj κ)))} (hnone : none ∈ loaded.flatten) :
    OwnPairs database (some (some loaded)) tokens mask := by
  intro retrieved hretrieved
  have hpairs := (asyncProcessTokensInternal_eq_some_iff hyielded loaded
    retrieved.reorderedChunks).mp ⟨retrieved, hretrieved, rfl⟩
  exact absurd hnone hpairs.2.2

theorem map_objs_eq_iff (chunks : List (TokenChunk κ × LoadedObj κ)) (keys : List κ) :
    chunks.map (fun entry => some entry.2) = keys.map (fun key => some ⟨key⟩) ↔
      chunks.map (·.2.key) = keys := by
  have hinj : Function.Injective fun key : κ => some (LoadedObj.mk key) :=
    fun _ _ heq => by simpa using heq
  rw [← (map_injective_iff.mpr hinj).eq_iff, map_map]
  rfl

theorem exists_pairs {keys : List κ} (hle : yielded.length ≤ keys.length) :
    ∃ chunks : List (TokenChunk κ × LoadedObj κ), chunks.map Prod.fst = yielded ∧
        chunks.map (·.2.key) = keys.take yielded.length := by
  have hlength : ((keys.take yielded.length).map LoadedObj.mk).length =
      yielded.length := by simp [hle]
  refine ⟨yielded.zip ((keys.take yielded.length).map LoadedObj.mk),
    map_fst_zip (Nat.le_of_eq hlength.symm), ?_⟩
  have hsnd := map_snd_zip (Nat.le_of_eq hlength)
  simpa [Function.comp_def] using congrArg (List.map LoadedObj.key) hsnd

/-- With objects for these keys, the chunks have their own objects if there are
too few, or the first ones are for the keys of the chunks. -/
theorem ownPairs_iff (hyielded : database.processTokens tokens (numFalses mask) = some yielded)
    {loaded : List (List (Option (LoadedObj κ)))} {keys : List κ}
    (hloaded : loaded.flatten = keys.map fun key => some ⟨key⟩) :
    OwnPairs database (some (some loaded)) tokens mask ↔ keys.length < yielded.length ∨
        keys.take yielded.length = yielded.map (·.key) := by
  have hresult := asyncProcessTokensInternal_eq_some_iff hyielded loaded
  simp only [hloaded, ← map_take, map_objs_eq_iff] at hresult
  constructor
  · intro hown
    by_contra hnot
    simp only [not_or, Nat.not_lt] at hnot
    -- there are enough objects: the result is built, and its keys agree
    obtain ⟨chunks, hfst, hsnd⟩ := exists_pairs hnot.1
    obtain ⟨retrieved, hretrieved, heq⟩ := (hresult chunks).mpr ⟨hfst, hsnd, by simp⟩
    refine hnot.2 ?_
    rw [← hsnd, ← hfst, map_map, ← heq]
    exact map_congr_left (hown retrieved hretrieved).2
  · intro hcond retrieved hretrieved
    obtain ⟨hfst, hsnd, -⟩ := (hresult _).mp ⟨retrieved, hretrieved, rfl⟩
    refine ⟨by rw [hyielded, hfst], ?_⟩
    have hlength := congrArg List.length hsnd
    have hlength' := congrArg List.length hfst
    simp only [length_map, length_take] at hlength hlength'
    have hown := hcond.resolve_left (by omega)
    rw [← hsnd, ← hfst, map_map] at hown
    exact map_inj_left.mp hown

end Pairs

/-! From the lookup to the objects. -/

theorem none_mem_flatMap_loadedOf {entries : List (AsyncBackend κ × κ)} {entry : AsyncBackend κ × κ}
    (hentry : entry ∈ entries) (hlost : entry.1.lost entry.2 = true)
    (hkept : entry.1.missing ≠ .dropped) : none ∈ entries.flatMap loadedOf :=
  mem_flatMap.mpr ⟨entry, hentry, by simp [loadedOf, hlost, hkept]⟩

theorem flatMap_loadedOf {entries : List (AsyncBackend κ × κ)}
    (hdropped : ∀ entry ∈ entries, entry.1.lost entry.2 = true → entry.1.missing = .dropped) :
    entries.flatMap loadedOf = (survivors entries).map fun key => some ⟨key⟩ := by
  induction entries with
  | nil => rfl
  | cons entry rest ih =>
    have hrest := ih fun other hother =>
      hdropped other (mem_cons_of_mem _ hother)
    have hhead := hdropped entry mem_cons_self
    rw [flatMap_cons, hrest]
    cases hlost : entry.1.lost entry.2 with
    | false => simp [loadedOf, survivors, hlost]
    | true => simp [loadedOf, survivors, hlost, hhead hlost]

/-- The objects of a lookup against the chunks that `retrieve` goes through,
those behind the mask. -/
theorem ownPairs_gather_iff {database : ChunkedTokenDatabase κ} {tokens : List Nat}
    {mask : Option (List Bool)} {yielded : List (TokenChunk κ)} {masked : Nat}
    (hprocess : database.processTokens tokens (numFalses mask) = some yielded)
    (tasks : List (AsyncBackend κ × List κ)) (hkeys : yielded.map (·.key) =
      ((taskEntries tasks).map Prod.snd).drop masked) :
    OwnPairs database (some (gather tasks)) tokens mask ↔ ShiftFree (taskEntries tasks) masked := by
  rcases gather_cases tasks with ⟨hgather, entry, hentry, hraises⟩ | ⟨loaded, hgather, hflatten, -⟩
  · refine iff_of_true ?_ (Or.inl ⟨entry, hentry, hraises.1, ?_⟩)
    · simp [OwnPairs, asyncProcessTokensInternal, hgather]
    · simp [hraises.2]
  · rw [hgather]
    by_cases hkept : ∃ entry ∈ taskEntries tasks,
        entry.1.lost entry.2 = true ∧ entry.1.missing ≠ .dropped
    · obtain ⟨entry, hentry, hlost, hmissing⟩ := hkept
      refine iff_of_true (ownPairs_of_none_mem hprocess ?_)
        (Or.inl ⟨entry, hentry, hlost, hmissing⟩)
      rw [hflatten]
      exact none_mem_flatMap_loadedOf hentry hlost hmissing
    · have hdropped : ∀ entry ∈ taskEntries tasks,
          entry.1.lost entry.2 = true → entry.1.missing = .dropped := by
        simpa using hkept
      have hcount : yielded.length = (taskEntries tasks).length - masked := by
        simpa using congrArg List.length hkeys
      rw [flatMap_loadedOf hdropped] at hflatten
      rw [ownPairs_iff hprocess hflatten, ShiftFree, hcount, hkeys]
      exact (or_iff_right hkept).symm

section Lookup

variable [DecidableEq ν] (database : ChunkedTokenDatabase κ)
  (storage : List (ν × AsyncBackend κ)) (searchRange : Option (List ν))
  (tokens : List Nat)

theorem length_lookupEntries_le : (lookupEntries database storage searchRange tokens).length ≤
    database.chunkCount tokens.length := by
  simpa [lookupEntries] using length_served_le (searched searchRange storage)
    ((database.chunks tokens).map (·.key))

theorem asyncLookupAndPrefetch_eq :
    ∃ lookup, LMCacheEngine.asyncLookupAndPrefetch database storage searchRange
        tokens = some lookup ∧
      lookup.retrievedLength = min ((lookupEntries database storage searchRange tokens).length *
          database.chunkSize) tokens.length ∧
      ((lookupEntries database storage searchRange tokens = [] ∧ lookup.event = none) ∨
        ∃ tasks, taskEntries tasks = lookupEntries database storage searchRange tokens ∧
          lookup.event = some (gather tasks)) := by
  have hprocess : database.processTokens tokens 0 = some (database.chunks tokens) := by
    simpa using database.processTokens_eq tokens 0
  obtain ⟨hhits, htasks⟩ := lookupLoop_served searchRange
    ((database.chunks tokens).map (·.key)).length storage 0
    ((database.chunks tokens).map (·.key)) (Nat.zero_add _)
  rw [← lookupEntries, Nat.zero_add] at hhits
  rw [← lookupEntries] at htasks
  simp only [LMCacheEngine.asyncLookupAndPrefetch, hprocess, Option.bind_some,
    StorageManager.asyncLookupAndPrefetch, hhits]
  by_cases hnil : lookupEntries database storage searchRange tokens = []
  · exact ⟨⟨0, none⟩, by simp [hnil], by simp [hnil], Or.inl ⟨hnil, rfl⟩⟩
  · rw [if_neg (by simpa using hnil), database.cumChunkLengths_get
      (length_lookupEntries_le database storage searchRange tokens)]
    exact ⟨_, rfl, rfl, Or.inr ⟨_, htasks, rfl⟩⟩

/-- For every token list, whatever the backends hold, search range and
disappearing chunks, and for every mask of the reported length with whole chunks
in front. -/
theorem ownObjects_iff : ∃ lookup, LMCacheEngine.asyncLookupAndPrefetch database storage searchRange
      tokens = some lookup ∧
    ∀ mask masked, IsPrefixMask lookup.retrievedLength (masked * database.chunkSize) mask →
      (lookup.OwnObjects database ((database.chunks tokens).take
          (lookupEntries database storage searchRange tokens).length)
          tokens mask ↔
        ShiftFree (lookupEntries database storage searchRange tokens) masked) := by
  obtain ⟨lookup, hlookup, hreported, hevent⟩ :=
    asyncLookupAndPrefetch_eq database storage searchRange tokens
  have hlength := length_lookupEntries_le database storage searchRange tokens
  have hkeys : (lookupEntries database storage searchRange tokens).map Prod.snd =
      ((database.chunks tokens).map (·.key)).take
        (lookupEntries database storage searchRange tokens).length :=
    map_snd_served ..
  set entries := lookupEntries database storage searchRange tokens
  refine ⟨lookup, hlookup, fun mask masked hmask => ?_⟩
  rw [Lookup.OwnObjects, database.stop_getLast?_chunks hlength, hreported, eq_self, true_and]
  rcases hevent with ⟨hnil, hnone⟩ | ⟨tasks, htasks, hsome⟩
  · rw [hnone]
    simp [OwnPairs, asyncProcessTokensInternal, ShiftFree, hnil, survivors]
  · have hprocess : database.processTokens (tokens.take
        (min (entries.length * database.chunkSize) tokens.length))
        (numFalses mask) = some (((database.chunks tokens).take entries.length).drop masked) := by
      rw [hmask.numFalses_eq, database.processTokens_eq, database.chunks_cut hlength]
    rw [hsome, ← htasks]
    rw [← htasks] at hprocess hkeys
    refine ownPairs_gather_iff hprocess tasks ?_
    rw [hkeys, map_drop, map_take]

end Lookup

theorem shiftFree_zero (entries : List (AsyncBackend κ × κ)) : ShiftFree entries 0 := by
  by_cases hlost : ∃ entry ∈ entries, entry.1.lost entry.2 = true
  · refine Or.inr (Or.inl ?_)
    rw [survivors, length_map, Nat.sub_zero, length_filter_lt_length_iff_exists]
    simpa using hlost
  · refine Or.inr (Or.inr ?_)
    have hall : entries.filter (fun entry => !entry.1.lost entry.2) = entries := by
      simpa using hlost
    rw [survivors, hall, drop_zero, take_of_length_le (by simp)]

/-- A backend that has the keys of some lengths and drops those of others. -/
def droppingBackend (has lost : List Nat) : AsyncBackend (List Nat) where
  missing := .dropped
  contains key := has.contains key.length
  lost key := lost.contains key.length

/-- Two backends one after the other, and the last chunk with none of them. -/
theorem ownObjects_inTurn : ∃ lookup, LMCacheEngine.asyncLookupAndPrefetch tokenwise
      [(0, droppingBackend [1, 2] []), (1, droppingBackend [3] [])] none
      [5, 6, 7, 8] = some lookup ∧ lookup.retrievedLength = 3 ∧
    lookup.OwnObjects tokenwise ((tokenwise.chunks [5, 6, 7, 8]).take 3) [5, 6, 7, 8] none ∧
    (asyncProcessTokensInternal tokenwise lookup.event [5, 6, 7] none).isSome := by
  obtain ⟨lookup, hlookup, hown⟩ := ownObjects_iff tokenwise [(0, droppingBackend [1, 2] []),
    (1, droppingBackend [3] [])] none [5, 6, 7, 8]
  refine ⟨lookup, hlookup, ?_, (hown none 0 rfl).mpr (shiftFree_zero _), ?_⟩ <;>
    cases hlookup <;> decide +kernel

/-- The first chunk is masked.  The second one gets the object that was loaded
for the first. -/
theorem not_ownObjects_of_masked :
    ∃ lookup retrieved, LMCacheEngine.asyncLookupAndPrefetch tokenwise
        [((), droppingBackend [1, 2] [])] none [5, 6] = some lookup ∧
      lookup.retrievedLength = 2 ∧
      asyncProcessTokensInternal tokenwise lookup.event [5, 6]
        (some [false, true]) = some retrieved ∧
      retrieved.reorderedChunks = [(⟨1, 2, [5, 6]⟩, ⟨[5]⟩)] ∧
      ¬ lookup.OwnObjects tokenwise ((tokenwise.chunks [5, 6]).take 2) [5, 6]
        (some [false, true]) := by
  obtain ⟨lookup, hlookup⟩ : ∃ lookup, LMCacheEngine.asyncLookupAndPrefetch
      tokenwise [((), droppingBackend [1, 2] [])] none [5, 6] = some lookup := ⟨_, rfl⟩
  have hlength : lookup.retrievedLength = 2 := by
    cases hlookup
    rfl
  obtain ⟨retrieved, hretrieved⟩ : ∃ retrieved, asyncProcessTokensInternal
      tokenwise lookup.event [5, 6] (some [false, true]) = some retrieved := by
    cases hlookup
    exact ⟨_, rfl⟩
  have hchunks : retrieved.reorderedChunks = [(⟨1, 2, [5, 6]⟩, ⟨[5]⟩)] := by
    cases hlookup
    cases hretrieved
    decide +kernel
  refine ⟨lookup, retrieved, hlookup, hlength, hretrieved, hchunks, fun hown => ?_⟩
  have hpairs := hown.2
  rw [hlength] at hpairs
  have hkeys := (hpairs retrieved hretrieved).2
  rw [hchunks] at hkeys
  exact absurd (hkeys _ mem_cons_self) (by decide)

end CatKV
