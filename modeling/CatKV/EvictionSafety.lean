/-
What is in use stays in the hot cache.  Evicting one entry checks that very
entry; evicting a chunk checks one layer and frees them all, and clearing
takes the entries it should leave.
-/
import CatKV.LocalCpuBackend
import CatKV.ReferenceCount

namespace CatKV

open List hiding contains_iff

open OrderedDict

namespace LocalCpuBackend

variable {κ : Type} {backend next : LocalCpuBackend κ} {key : EngineKey κ} {id : Nat}

/-- LFU follows only keys of the cache. -/
def Tracked (backend : LocalCpuBackend κ) : Prop :=
  backend.policy = .lfu → ∀ key ∈ backend.frequencies.keys, key ∈ backend.hotCache.keys

theorem evictOrder_subset (htracked : backend.Tracked) :
    ∀ key ∈ backend.evictOrder, key ∈ backend.hotCache.keys := by
  intro key hkey
  unfold evictOrder at hkey
  split at hkey
  · exact hkey
  · exact hkey
  · exact mem_reverse.mp hkey
  · next hpolicy =>
    apply htracked hpolicy
    obtain ⟨entry, hentry, rfl⟩ := mem_map.mp hkey
    exact mem_map_of_mem ((perm_insertionSort _ _).mem_iff.mp hentry)

variable [DecidableEq κ]

/-! The policies change nothing but their own records and the order. -/

@[simp]
theorem updateOnForceEvict_memory : (backend.updateOnForceEvict key).memory = backend.memory := by
  unfold updateOnForceEvict
  split <;> rfl

@[simp]
theorem updateOnForceEvict_hotCache :
    (backend.updateOnForceEvict key).hotCache = backend.hotCache := by
  unfold updateOnForceEvict
  split <;> rfl

@[simp]
theorem updateOnForceEvict_policy : (backend.updateOnForceEvict key).policy = backend.policy := by
  unfold updateOnForceEvict
  split <;> rfl

@[simp]
theorem updateOnPut_memory : (backend.updateOnPut key).memory = backend.memory := by
  unfold updateOnPut
  split <;> rfl

@[simp]
theorem updateOnPut_hotCache : (backend.updateOnPut key).hotCache = backend.hotCache := by
  unfold updateOnPut
  split <;> rfl

theorem Tracked.put (htracked : backend.Tracked) {memory : List MemoryObj} :
    (updateOnPut { backend with
      memory := memory
      hotCache := backend.hotCache.set key id } key).Tracked := by
  intro hpolicy other hother
  rw [updateOnPut_hotCache]
  apply mem_keys_set.mpr
  unfold updateOnPut at hpolicy hother
  split at hother
  · next hlfu =>
    rcases mem_keys_set.mp hother with rfl | hold
    · exact Or.inl rfl
    · exact Or.inr (htracked hlfu other hold)
  · next hother' =>
    rw [if_neg hother'] at hpolicy
    exact absurd hpolicy hother'

theorem updateOnForceEvict_frequencies (hpolicy : backend.policy = .lfu) :
    (backend.updateOnForceEvict key).frequencies = backend.frequencies.pop key := by
  rw [updateOnForceEvict, if_pos hpolicy]

theorem Tracked.of_forgotten (htracked : backend.Tracked)
    (hpolicy : (backend.updateOnForceEvict key).policy = .lfu) {other : EngineKey κ}
    (hother : other ∈ (backend.updateOnForceEvict key).frequencies.keys) :
    other ∈ backend.hotCache.keys ∧ other ≠ key := by
  rw [updateOnForceEvict_policy] at hpolicy
  rw [updateOnForceEvict_frequencies hpolicy] at hother
  obtain ⟨hmem, hne⟩ := mem_keys_pop.mp hother
  exact ⟨htracked hpolicy other hmem, hne⟩

theorem Tracked.forget (htracked : backend.Tracked) : (backend.updateOnForceEvict key).Tracked := by
  intro hpolicy other hother
  rw [updateOnForceEvict_hotCache]
  exact (htracked.of_forgotten hpolicy hother).1

theorem Tracked.pop (htracked : backend.Tracked) : Tracked { backend.updateOnForceEvict key with
    hotCache := backend.hotCache.pop key } := by
  intro hpolicy other hother
  exact mem_keys_pop.mpr (htracked.of_forgotten hpolicy hother)

theorem updateOnHit_spec (hhit : backend.updateOnHit key = some next) :
    next.memory = backend.memory ∧
      next.hotCache.entries.Perm backend.hotCache.entries ∧
      (backend.Tracked → next.Tracked) := by
  have hmoved : ∀ moved, backend.policy ≠ .lfu → (if backend.hotCache.contains key then
        some { backend with hotCache := backend.hotCache.moveToEnd key }
      else none) = some moved → moved.memory = backend.memory ∧
          moved.hotCache.entries.Perm backend.hotCache.entries ∧
          (backend.Tracked → moved.Tracked) := by
    intro moved hpolicy hsome
    split at hsome
    · obtain rfl := Option.some.inj hsome
      exact ⟨rfl, perm_moveToEnd, fun _ hlfu => absurd hlfu hpolicy⟩
    · cases hsome
  unfold updateOnHit at hhit
  split at hhit
  · obtain rfl := Option.some.inj hhit
    exact ⟨rfl, List.Perm.refl _, (·)⟩
  · next hpolicy => exact hmoved next (by simp [hpolicy]) hhit
  · next hpolicy => exact hmoved next (by simp [hpolicy]) hhit
  · next hpolicy =>
    obtain ⟨currFreq, hfreq, rfl⟩ := Option.map_eq_some_iff.mp hhit
    refine ⟨rfl, List.Perm.refl _, fun htracked _ other hother => ?_⟩
    apply htracked hpolicy
    rcases mem_keys_set.mp hother with rfl | hpopped
    · exact mem_keys_of_get? hfreq
    · exact (mem_keys_pop.mp hpopped).1

theorem hitAll_spec (backend : LocalCpuBackend κ) (keys : List (EngineKey κ)) :
    (hitAll backend keys).1.memory = backend.memory ∧ (hitAll backend keys).1.hotCache.entries.Perm
        backend.hotCache.entries ∧
      (backend.Tracked → (hitAll backend keys).1.Tracked) := by
  induction keys generalizing backend with
  | nil => exact ⟨rfl, List.Perm.refl _, (·)⟩
  | cons key rest ih =>
    rw [hitAll]
    cases hhit : backend.updateOnHit key with
    | none => exact ⟨rfl, List.Perm.refl _, (·)⟩
    | some next =>
      obtain ⟨hmemory, hperm, hnext⟩ := updateOnHit_spec hhit
      obtain ⟨hmemory', hperm', hlast⟩ := ih next
      exact ⟨hmemory'.trans hmemory, hperm'.trans hperm, hlast ∘ hnext⟩

theorem touchCache_spec (backend : LocalCpuBackend κ) :
    backend.touchCache.1.memory = backend.memory ∧
      backend.touchCache.1.hotCache.entries.Perm backend.hotCache.entries ∧
      (backend.Tracked → backend.touchCache.1.Tracked) := by
  have hspec := hitAll_spec backend backend.keysInRequest.reverse
  unfold touchCache
  split
  · next hit => rwa [hit] at hspec
  · next hit => rwa [hit] at hspec

theorem firstEvictable_spec {order : List (EngineKey κ)}
    (horder : ∀ key ∈ order, key ∈ backend.hotCache.keys) :
    ∃ candidate, backend.firstEvictable order = some candidate ∧
      ∀ key ∈ candidate, ∃ id, (key, id) ∈ backend.hotCache.entries ∧
        backend.canEvict id = true := by
  induction order with
  | nil => exact ⟨none, rfl, by simp⟩
  | cons key rest ih =>
    obtain ⟨id, hid⟩ := mem_keys.mp (horder key mem_cons_self)
    rw [firstEvictable, get?_eq_some_iff.mpr hid]
    by_cases hevict : backend.canEvict id = true
    · refine ⟨some key, by simp [hevict], ?_⟩
      intro other hother
      obtain rfl := Option.some.inj hother
      exact ⟨id, hid, hevict⟩
    · obtain ⟨candidate, hfound, hcandidate⟩ :=
        ih fun other hother => horder other (mem_cons_of_mem _ hother)
      exact ⟨candidate, by simpa [hevict] using hfound, hcandidate⟩

theorem getEvictCandidates_spec (htracked : backend.Tracked) :
    backend.getEvictCandidates = some (none, backend) ∨ ∃ key id, backend.getEvictCandidates =
          some (some key, backend.updateOnForceEvict key) ∧
        (key, id) ∈ backend.hotCache.entries ∧
        backend.canEvict id = true := by
  obtain ⟨candidate, hfound, hcandidate⟩ := firstEvictable_spec (evictOrder_subset htracked)
  rw [getEvictCandidates, hfound]
  cases candidate with
  | none => exact Or.inl rfl
  | some key =>
    obtain ⟨id, hid, hevict⟩ := hcandidate key rfl
    exact Or.inr ⟨key, id, rfl, hid, hevict⟩

/-- What the loop over the layers of a chunk takes out. -/
structure Pops (backend : LocalCpuBackend κ) (keys : List (EngineKey κ))
    (ids : List Nat) (next : LocalCpuBackend κ) : Prop where
  memory : next.memory = backend.memory
  tracked : next.Tracked
  refs : backend.refs.Perm (ids ++ next.refs)
  rest : ∀ entry ∈ backend.hotCache.entries, entry.1 ∉ keys → entry ∈ next.hotCache.entries
  taken : ∀ id ∈ ids, ∃ key ∈ keys, (key, id) ∈ backend.hotCache.entries
  length : ids.length = keys.length

theorem popLayers_spec {keys : List (EngineKey κ)} (hnodup : keys.Nodup)
    (hkeys : ∀ key ∈ keys, key ∈ backend.hotCache.keys) (htracked : backend.Tracked) :
    ∃ ids next, popLayers backend keys = some (ids, next) ∧ Pops backend keys ids next := by
  induction keys generalizing backend with
  | nil =>
    exact ⟨[], backend, rfl, rfl, htracked, List.Perm.refl _,
      fun _ hentry _ => hentry, by simp, rfl⟩
  | cons key rest ih =>
    obtain ⟨hfirst, hrest⟩ := nodup_cons.mp hnodup
    obtain ⟨id, hid⟩ := mem_keys.mp (hkeys key mem_cons_self)
    have hkept : ∀ other ∈ rest, other ∈ (backend.hotCache.pop key).keys := by
      intro other hother
      refine mem_keys_pop.mpr ⟨hkeys other (mem_cons_of_mem _ hother), ?_⟩
      rintro rfl
      exact hfirst hother
    obtain ⟨ids, next, hpop, hpops⟩ := ih hrest hkept htracked.pop
    refine ⟨id :: ids, next, ?_, ?_⟩
    · rw [popLayers, get?_eq_some_iff.mpr hid, Option.bind_some]
      dsimp only
      rw [updateOnForceEvict_hotCache, hpop]
      rfl
    · constructor
      · rw [hpops.memory]
        exact updateOnForceEvict_memory
      · exact hpops.tracked
      · have hperm := (perm_pop hid).map Prod.snd
        exact hperm.trans (hpops.refs.cons id)
      · intro entry hentry hnot
        rw [mem_cons, not_or] at hnot
        exact hpops.rest entry (mem_pop.mpr ⟨hentry, hnot.1⟩) hnot.2
      · intro other hother
        rcases mem_cons.mp hother with rfl | htail
        · exact ⟨key, mem_cons_self, hid⟩
        · obtain ⟨layerKey, hlayer, hentry⟩ := hpops.taken other htail
          exact ⟨layerKey, mem_cons_of_mem _ hlayer, (mem_pop.mp hentry).1⟩
      · rw [length_cons, length_cons, hpops.length]

end LocalCpuBackend

theorem splitLayers_nodup {κ : Type} (key : κ) (numLayers : Nat) :
    (splitLayers key numLayers).Nodup := by
  apply nodup_range.map
  intro first second heq
  cases heq
  rfl

/-- The invariant of the cache: the references to an object are those of the
cache and of the callers. -/
structure HotCacheInv {κ : Type} (run : CpuRun κ) : Prop where
  counted : Counted run.backend.memory (run.backend.refs ++ run.users)
  tracked : run.backend.Tracked

namespace HotCacheInv

variable {κ : Type} {run next : CpuRun κ} {key : EngineKey κ} {id : Nat}

/-- A step to a state with the invariant that keeps the entries in use. -/
def Advances (run next : CpuRun κ) : Prop :=
  HotCacheInv next ∧ ∀ key id, (key, id) ∈ run.backend.hotCache.entries →
    run.InUse id → (key, id) ∈ next.backend.hotCache.entries

theorem Advances.keepsInUse (hadvances : Advances run next) : run.KeepsInUse next := by
  intro key id hentry huse
  have hkept := hadvances.2 key id hentry huse
  refine ⟨hkept, ?_⟩
  obtain ⟨obj, hobj, hvalid⟩ := hadvances.1.counted.alive id
    (mem_append_left _ (mem_map_of_mem hkept))
  rw [hobj]
  exact hvalid

theorem start (policy : CachePolicy) (useHot : Bool) :
    HotCacheInv (CpuRun.start policy useHot : CpuRun κ) where
  counted := Counted.nil
  tracked := by
    intro _ key hkey
    cases hkey

theorem mem_refs (hentry : (key, id) ∈ run.backend.hotCache.entries) :
    id ∈ run.backend.refs ++ run.users :=
  mem_append_left _ (mem_map_of_mem hentry)

theorem count_eq_one (hinv : HotCacheInv run) (hentry : (key, id) ∈ run.backend.hotCache.entries)
    (hevict : run.backend.canEvict id = true) : (run.backend.refs ++ run.users).count id = 1 := by
  obtain ⟨obj, hobj, hvalid⟩ := hinv.counted.alive id (mem_refs hentry)
  obtain ⟨hcount, -⟩ := hinv.counted.counts id obj hobj hvalid
  have hone : obj.refCount = 1 := by
    have hboth : (!obj.isPinned && obj.refCount == 1) = true := by
      simpa [LocalCpuBackend.canEvict, hobj, MemoryCounts.canEvict] using hevict
    simpa using (Bool.and_eq_true_iff.mp hboth).2
  omega

theorem not_inUse (hinv : HotCacheInv run) (hentry : (key, id) ∈ run.backend.hotCache.entries)
    (hevict : run.backend.canEvict id = true) : ¬ run.InUse id := by
  rintro (hpinned | huser)
  · obtain ⟨obj, hobj, -⟩ := hinv.counted.alive id (mem_refs hentry)
    rw [hobj, Option.any_some] at hpinned
    simp [LocalCpuBackend.canEvict, MemoryCounts.canEvict, hobj, hpinned] at hevict
  · have hone := hinv.count_eq_one hentry hevict
    have hcached : id ∈ run.backend.refs := mem_map_of_mem hentry
    have hpos := count_pos_iff.mpr hcached
    have hpos' := count_pos_iff.mpr huser
    rw [count_append] at hone
    omega

theorem same_entries {backend : LocalCpuBackend κ} {users : List Nat}
    (hperm : backend.hotCache.entries.Perm run.backend.hotCache.entries)
    (hcounted : Counted backend.memory (run.backend.refs ++ users))
    (htracked : backend.Tracked) : Advances run ⟨backend, users⟩ := by
  refine ⟨⟨?_, htracked⟩, fun key id hentry _ => hperm.mem_iff.mpr hentry⟩
  apply hcounted.perm
  exact ((hperm.map Prod.snd).append_right users).symm

theorem grant (hinv : HotCacheInv run) (batchSize : Nat) : Advances run
    { backend := { run.backend with
        memory := run.backend.memory ++ List.replicate batchSize ⟨⟨1, 0⟩, true⟩ }
      users := run.users ++ (List.range batchSize).map (run.backend.memory.length + ·) } := by
  refine same_entries .rfl ?_ hinv.tracked
  rw [← append_assoc]
  exact hinv.counted.grant batchSize

theorem release (hinv : HotCacheInv run) (huser : id ∈ run.users) : Advances run
    { backend := { run.backend with
        memory := callObject run.backend.memory id .refCountDown }
      users := run.users.erase id } := by
  refine same_entries .rfl ?_ hinv.tracked
  apply Counted.refCountDown
  apply hinv.counted.perm
  apply List.Perm.trans (List.Perm.append_left _ (perm_cons_erase huser))
  exact perm_middle

variable [DecidableEq κ]

section

variable (hinv : HotCacheInv run)

include hinv

theorem submitPutTask (huser : id ∈ run.users) : Advances run
    { run with backend := run.backend.submitPutTask key id } := by
  unfold LocalCpuBackend.submitPutTask
  split
  · exact ⟨hinv, fun _ _ hentry _ => hentry⟩
  · next hnew =>
    have hkey : key ∉ run.backend.hotCache.keys := by
      rwa [contains_iff] at hnew
    refine ⟨⟨?_, hinv.tracked.put⟩, fun other found hentry _ => ?_⟩
    · rw [LocalCpuBackend.refs, LocalCpuBackend.updateOnPut_memory,
        LocalCpuBackend.updateOnPut_hotCache, set_of_not_mem hkey, map_append]
      apply (hinv.counted.refCountUp (mem_append_right _ huser)).perm
      rw [append_assoc]
      exact perm_middle.symm
    · rw [LocalCpuBackend.updateOnPut_hotCache, set_of_not_mem hkey]
      exact mem_append_left _ hentry

theorem getBlocking : Advances run ⟨(run.backend.getBlocking key).2,
    run.users ++ (run.backend.getBlocking key).1.toList⟩ := by
  unfold LocalCpuBackend.getBlocking
  split
  · refine same_entries .rfl ?_ hinv.tracked
    simpa using hinv.counted
  · next id hfound =>
    have hentry := get?_eq_some_iff.mp hfound
    refine same_entries .rfl ?_ hinv.tracked
    apply (hinv.counted.refCountUp (mem_refs hentry)).perm
    rw [← append_assoc]
    exact (perm_append_singleton _ _).symm

theorem callKey {objectCall : ObjectCall} (hcall : objectCall = .pin ∨ objectCall = .unpin) :
    Advances run { run with backend := run.backend.callKey key objectCall } := by
  unfold LocalCpuBackend.callKey
  split
  · exact ⟨hinv, fun _ _ hentry _ => hentry⟩
  · next id hfound =>
    have hentry := get?_eq_some_iff.mp hfound
    exact same_entries .rfl (hinv.counted.pins (mem_refs hentry) hcall) hinv.tracked

theorem contains (pin : Bool) : Advances run
    { run with backend := (run.backend.contains key pin).2 } := by
  unfold LocalCpuBackend.contains
  split
  · exact ⟨hinv, fun _ _ hentry _ => hentry⟩
  · next id hfound =>
    have hentry := get?_eq_some_iff.mp hfound
    split
    · exact same_entries .rfl
        (hinv.counted.pins (mem_refs hentry) (Or.inl rfl)) hinv.tracked
    · exact ⟨hinv, fun _ _ hentry _ => hentry⟩

theorem touchCache : Advances run { run with backend := run.backend.touchCache.1 } := by
  obtain ⟨hmemory, hperm, htracked⟩ := LocalCpuBackend.touchCache_spec run.backend
  refine same_entries hperm ?_ (htracked hinv.tracked)
  rw [hmemory]
  exact hinv.counted

theorem evict : ∃ backend, run.backend.evict = some backend ∧
    Advances run { run with backend := backend } ∧
    (backend.memory = run.backend.memory ∨ ∃ id,
      backend.memory = callObject run.backend.memory id .refCountDown) := by
  have hsame : Advances run run := ⟨hinv, fun _ _ hentry _ => hentry⟩
  unfold LocalCpuBackend.evict
  split
  · rcases LocalCpuBackend.getEvictCandidates_spec hinv.tracked with
      hnone | ⟨key, id, hsome, hentry, hevict⟩
    · exact ⟨run.backend, by rw [hnone]; rfl, hsame, Or.inl rfl⟩
    · refine ⟨{ run.backend.updateOnForceEvict key with
        hotCache := run.backend.hotCache.pop key
        memory := callObject run.backend.memory id .refCountDown },
        ?_, ⟨⟨?_, ?_⟩, ?_⟩, Or.inr ⟨id, rfl⟩⟩
      · rw [hsome, Option.map_some, Option.elim_some, LocalCpuBackend.remove,
          LocalCpuBackend.updateOnForceEvict_hotCache, get?_eq_some_iff.mpr hentry]
        simp
      · apply Counted.refCountDown
        apply hinv.counted.perm
        exact ((perm_pop hentry).map Prod.snd).append_right _
      · exact hinv.tracked.pop
      · intro other found hfound huse
        refine mem_pop.mpr ⟨hfound, ?_⟩
        rintro rfl
        obtain rfl := value_unique hfound hentry
        exact hinv.not_inUse hentry hevict huse
  · exact ⟨run.backend, rfl, hsame, Or.inl rfl⟩

theorem batchedEvict {batchSize : Nat} (hwhole : run.Whole (.batchedEvict batchSize)) :
    ∃ backend, run.backend.batchedEvict batchSize = some backend ∧
      Advances run { run with backend := backend } := by
  obtain ⟨hpos, hlayers⟩ := hwhole
  unfold LocalCpuBackend.batchedEvict
  split
  · rcases LocalCpuBackend.getEvictCandidates_spec hinv.tracked with
      hnone | ⟨key, id, hsome, hentry, hevict⟩
    · refine ⟨run.backend, by rw [hnone]; rfl, hinv, ?_⟩
      exact fun _ _ hentry _ => hentry
    · have hfound : ∀ layerKey ∈ splitLayers key.chunkKey batchSize,
          ∃ id, (layerKey, id) ∈ run.backend.hotCache.entries ∧ run.backend.canEvict id = true := by
        intro layerKey hlayer
        have hcan := hlayers (key, id) hentry hevict layerKey hlayer
        cases hget : run.backend.hotCache.get? layerKey with
        | none => simp [hget] at hcan
        | some id =>
          rw [hget, Option.any_some] at hcan
          exact ⟨id, get?_eq_some_iff.mp hget, hcan⟩
      obtain ⟨ids, popped, hpop, hpops⟩ := LocalCpuBackend.popLayers_spec
        (splitLayers_nodup key.chunkKey batchSize)
        (show ∀ layerKey ∈ splitLayers key.chunkKey batchSize,
          layerKey ∈ (run.backend.updateOnForceEvict key).hotCache.keys by
          intro layerKey hlayer
          obtain ⟨id, hid, -⟩ := hfound layerKey hlayer
          rw [LocalCpuBackend.updateOnForceEvict_hotCache]
          exact mem_keys.mpr ⟨id, hid⟩)
        hinv.tracked.forget
      have hentries : (run.backend.updateOnForceEvict key).hotCache =
          run.backend.hotCache := LocalCpuBackend.updateOnForceEvict_hotCache
      have hmany : ids ≠ [] := by
        intro hnil
        have hlength := hpops.length
        rw [hnil, splitLayers, length_map, length_range, length_nil] at hlength
        omega
      have hperm : (run.backend.refs ++ run.users).Perm (ids ++ (popped.refs ++ run.users)) := by
        rw [← append_assoc]
        apply List.Perm.append_right
        have hrefs := hpops.refs
        rwa [LocalCpuBackend.refs, hentries] at hrefs
      refine ⟨{ popped with memory := freeObjects popped.memory ids }, ?_, ⟨?_, hpops.tracked⟩, ?_⟩
      · rw [hsome, Option.bind_some]
        dsimp only
        rw [hpop, Option.bind_some, if_neg hmany]
      · apply Counted.free
        · rw [hpops.memory, LocalCpuBackend.updateOnForceEvict_memory]
          exact hinv.counted.perm hperm
        · intro freed hfreed
          obtain ⟨layerKey, hlayer, hmem⟩ := hpops.taken freed hfreed
          rw [hentries] at hmem
          obtain ⟨id, hid, hcan⟩ := hfound layerKey hlayer
          obtain rfl := value_unique hid hmem
          refine (hperm.count_eq _).symm.trans ?_
          exact hinv.count_eq_one hid hcan
      · intro other found hmem huse
        apply hpops.rest
        · rw [hentries]
          exact hmem
        · intro hlayer
          obtain ⟨id, hid, hcan⟩ := hfound other hlayer
          obtain rfl := value_unique hid hmem
          exact hinv.not_inUse hid hcan huse
  · exact ⟨run.backend, rfl, hinv, fun _ _ hentry _ => hentry⟩

theorem step {action : CpuAction κ} (hwhole : run.Whole action) :
    ∃ next, run.step action = some next ∧ Advances run next := by
  have hsame : Advances run run := ⟨hinv, fun _ _ hentry _ => hentry⟩
  cases action with
  | grant batchSize => exact ⟨_, rfl, hinv.grant batchSize⟩
  | submitPutTask key id =>
    rw [CpuRun.step]
    split
    · next huser => exact ⟨_, rfl, hinv.submitPutTask huser⟩
    · exact ⟨_, rfl, hsame⟩
  | getBlocking key => exact ⟨_, rfl, hinv.getBlocking⟩
  | contains key pin => exact ⟨_, rfl, hinv.contains pin⟩
  | touchCache => exact ⟨_, rfl, hinv.touchCache⟩
  | pin key => exact ⟨_, rfl, hinv.callKey (Or.inl rfl)⟩
  | unpin key => exact ⟨_, rfl, hinv.callKey (Or.inr rfl)⟩
  | release id =>
    rw [CpuRun.step]
    split
    · next huser => exact ⟨_, rfl, hinv.release huser⟩
    · exact ⟨_, rfl, hsame⟩
  | evict =>
    obtain ⟨backend, hevict, hadvances, -⟩ := hinv.evict
    exact ⟨_, congrArg (Option.map _) hevict, hadvances⟩
  | batchedEvict batchSize =>
    obtain ⟨backend, hevict, hadvances⟩ := hinv.batchedEvict hwhole
    exact ⟨_, congrArg (Option.map _) hevict, hadvances⟩
  | clear =>
    refine ⟨_, rfl, ?_⟩
    have hclear : run.backend.clear = run.backend := by
      unfold LocalCpuBackend.clear
      split
      · next hhot =>
        rw [LocalCpuBackend.clearKeys, hwhole.2 hhot]
        rfl
      · rfl
    rw [hclear]
    exact hsame

theorem protects {action : CpuAction κ} (hwhole : run.Whole action) : run.Protects action := by
  obtain ⟨next, hstep, hadvances⟩ := hinv.step hwhole
  refine ⟨next, hstep, hadvances.keepsInUse, ?_⟩
  rintro rfl entry hentry hevict
  rw [hwhole.1 entry hentry] at hevict
  cases hevict

end

end HotCacheInv

/-- In a run whose batched evictions find whole chunks, and which does not
clear a cache with entries, every step protects what is in use. -/
theorem protects_of_whole {κ : Type} [DecidableEq κ] {policy : CachePolicy}
    {useHot : Bool} {actions : List (CpuAction κ)}
    (hmeets : Meets CpuRun.step CpuRun.Whole (CpuRun.start policy useHot) actions) :
    Meets CpuRun.step CpuRun.Protects (CpuRun.start policy useHot) actions := by
  apply Meets.of_invariant _ _ (HotCacheInv.start policy useHot) hmeets
  · intro run action next hinv hwhole hstep
    obtain ⟨next', hstep', hadvances⟩ := hinv.step hwhole
    obtain rfl := Option.some.inj (hstep'.symm.trans hstep)
    exact hadvances.1
  · intro run action hinv hwhole
    exact hinv.protects hwhole

instance CpuRun.wholeDecidable {κ : Type} [DecidableEq κ] (run : CpuRun κ) :
    ∀ action, Decidable (run.Whole action)
  | .grant _ | .submitPutTask _ _ | .getBlocking _ | .contains _ _
  | .touchCache | .pin _ | .unpin _ | .release _ | .evict =>
    inferInstanceAs (Decidable True)
  | .batchedEvict _ => inferInstanceAs (Decidable (_ ∧ _))
  | .clear => inferInstanceAs (Decidable (_ ∧ (_ → _)))

/-- Two chunks of two layers, one of them in use while the other is
evicted. -/
def twoChunks : List (CpuAction Nat) :=
  [.grant 4, .submitPutTask (.layer 0 0) 0, .submitPutTask (.layer 0 1) 1,
    .submitPutTask (.layer 1 0) 2, .submitPutTask (.layer 1 1) 3,
    .release 0, .release 1, .release 2, .release 3,
    .contains (.layer 0 0) true, .getBlocking (.layer 0 1),
    .batchedEvict 2, .unpin (.layer 0 0), .evict]

theorem protects_twoChunks : Meets CpuRun.step CpuRun.Protects
    (CpuRun.start .lru true : CpuRun Nat) twoChunks :=
  protects_of_whole (by decide +kernel)

/-- One layer can be evicted, the other is pinned. -/
def layerPinned : List (CpuAction Nat) :=
  [.grant 2, .submitPutTask (.layer 0 0) 0, .submitPutTask (.layer 0 1) 1,
    .release 0, .release 1, .pin (.layer 0 1)]

/-- The pinned layer is freed with the other one; an evicted chunk with one
layer raises; `clear` takes the entry that a caller still holds. -/
theorem not_protects_layerPinned :
    (∃ run, runFrom CpuRun.step (CpuRun.start .lru true) layerPinned =
      some run ∧ ¬ run.Protects (.batchedEvict 2)) ∧
    (∃ run, runFrom CpuRun.step (CpuRun.start .lru true)
      (layerPinned.take 2 ++ [.release 0]) = some run ∧ run.step (.batchedEvict 2) = none) ∧
    ∃ run, runFrom CpuRun.step (CpuRun.start .lru true)
      (layerPinned.take 2) = some run ∧ ¬ run.Protects .clear := by
  refine ⟨⟨_, rfl, ?_⟩, ⟨_, rfl, rfl⟩, ⟨_, rfl, ?_⟩⟩
  · rintro ⟨next, hstep, hkeeps, -⟩
    obtain rfl := Option.some.inj hstep
    have hkept := (hkeeps (.layer 0 1) 1 (by decide) (Or.inl rfl)).1
    exact absurd hkept (by decide)
  · rintro ⟨next, hstep, hkeeps, -⟩
    obtain rfl := Option.some.inj hstep
    have hkept := (hkeeps (.layer 0 0) 0 (by decide) (Or.inr (by decide))).1
    exact absurd hkept (by decide)

end CatKV
