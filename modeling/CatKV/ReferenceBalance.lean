/-
Store and retrieve give back the references they take.  The references are
those of the cache, of the put jobs and of the call in progress; the counts
follow them as long as nothing that was fetched is dropped and every job
gives back the reference it was started with.
-/
import CatKV.EngineReferences
import CatKV.EvictionSafety
import CatKV.FetchBlocks

namespace CatKV

open List Option

variable {κ : Type}

/-! References besides those of the cache. -/

namespace HotCacheInv

variable {cpu : LocalCpuBackend κ} {users users' : List Nat} {id : Nat}

theorem perm_users (hinv : HotCacheInv ⟨cpu, users⟩)
    (hperm : users.Perm users') : HotCacheInv ⟨cpu, users'⟩ where
  counted := hinv.counted.perm (hperm.append_left _)
  tracked := hinv.tracked

theorem refCountUp (hinv : HotCacheInv ⟨cpu, users⟩) (hid : id ∈ users) :
    HotCacheInv ⟨{ cpu with memory := callObject cpu.memory id .refCountUp }, id :: users⟩ where
  counted := by
    apply (hinv.counted.refCountUp (mem_append_right _ hid)).perm
    exact perm_middle.symm
  tracked := hinv.tracked

theorem refCountDown (hinv : HotCacheInv ⟨cpu, id :: users⟩) :
    HotCacheInv ⟨{ cpu with memory := callObject cpu.memory id .refCountDown }, users⟩ where
  counted := by
    apply Counted.refCountDown
    exact hinv.counted.perm perm_middle
  tracked := hinv.tracked

theorem refCountDowns {ids : List Nat} (hinv : HotCacheInv ⟨cpu, ids ++ users⟩) :
    HotCacheInv ⟨{ cpu with
      memory := ids.foldl (callObject · · .refCountDown) cpu.memory },
      users⟩ := by
  induction ids generalizing cpu with
  | nil => exact hinv
  | cons id rest ih => exact ih hinv.refCountDown

theorem isPinned_callObject {memory : List MemoryObj} {id other : Nat} {objectCall : ObjectCall}
    (hcall : objectCall = .refCountUp ∨ objectCall = .refCountDown)
    (hpinned : (memory[id]?).any (·.isPinned) = true) :
    ((callObject memory other objectCall)[id]?).any (·.isPinned) = true := by
  by_cases hsame : id = other
  · subst hsame
    cases hobj : memory[id]? with
    | none => simp [hobj] at hpinned
    | some obj =>
      rw [getElem?_callObject_self objectCall hobj]
      rw [hobj] at hpinned
      rcases hcall with rfl | rfl <;> exact hpinned
  · rw [getElem?_callObject_ne hsame]
    exact hpinned

/-- An entry that is not evicted while a call runs: it is pinned, or the call
evicts nothing. -/
def Stays (quiet : Prop) (cpu : LocalCpuBackend κ) (key : EngineKey κ) : Prop :=
  ∃ id, (key, id) ∈ cpu.hotCache.entries ∧ (quiet ∨ (cpu.memory[id]?).any (·.isPinned) = true)

/-- A part of a call that keeps the counts, for some users, and such
entries. -/
structure Keeps (quiet : Prop) (cpu next : LocalCpuBackend κ) (users : List Nat) : Prop where
  inv : HotCacheInv ⟨next, users⟩
  stays : ∀ key, Stays quiet cpu key → Stays quiet next key

variable {quiet : Prop}

theorem Keeps.refl (hinv : HotCacheInv ⟨cpu, users⟩) : Keeps quiet cpu cpu users :=
  ⟨hinv, fun _ hstays => hstays⟩

theorem Keeps.trans {next last : LocalCpuBackend κ} (hfirst : Keeps quiet cpu next users)
    (hsecond : Keeps quiet next last users') : Keeps quiet cpu last users' :=
  ⟨hsecond.inv, fun key hstays =>
    hsecond.stays key (hfirst.stays key hstays)⟩

/-- A get that finds its chunk whatever the gets before it evict. -/
def Gives (quiet : Prop) (outcome : EngineKey κ → GetOutcome)
    (cpu : LocalCpuBackend κ) (key : EngineKey κ) : Location → Prop
  | .cpu => Stays quiet cpu key
  | .backend _ => ∃ evictions, outcome key = .loaded evictions ∧ (quiet → evictions = 0)

variable {outcome : EngineKey κ → GetOutcome} {location : Location}

theorem Keeps.gives {next : LocalCpuBackend κ} {key : EngineKey κ}
    (hkeeps : Keeps quiet cpu next users) (hgives : Gives quiet outcome cpu key location) :
    Gives quiet outcome next key location := by
  cases location with
  | cpu => exact hkeeps.stays key hgives
  | backend index => exact hgives

variable [DecidableEq κ]

theorem keeps_evictTimes (hinv : HotCacheInv ⟨cpu, users⟩)
    {evictions : Nat} (hquiet : quiet → evictions = 0) :
    ∃ next, LocalCpuBackend.evictTimes evictions cpu = some next ∧ Keeps quiet cpu next users := by
  induction evictions generalizing cpu with
  | zero => exact ⟨cpu, rfl, Keeps.refl hinv⟩
  | succ evictions ih =>
    have hloud : ¬ quiet := fun hyes => nomatch hquiet hyes
    obtain ⟨next, hevict, ⟨hnext, hkept⟩, hmemory⟩ := hinv.evict
    obtain ⟨last, hlast, hkeeps⟩ := ih hnext fun hyes => absurd hyes hloud
    refine ⟨last, ?_, Keeps.trans ⟨hnext, ?_⟩ hkeeps⟩
    · rw [LocalCpuBackend.evictTimes]
      exact (congrArg (Option.bind · _) hevict).trans hlast
    · rintro key ⟨id, hentry, hyes | hpinned⟩
      · exact absurd hyes hloud
      · refine ⟨id, hkept key id hentry (Or.inl hpinned), Or.inr ?_⟩
        rcases hmemory with hsame | ⟨other, hdown⟩
        · rw [hsame]
          exact hpinned
        · rw [hdown]
          exact isPinned_callObject (Or.inr rfl) hpinned

theorem keeps_allocate (hinv : HotCacheInv ⟨cpu, users⟩)
    {outcome : AllocOutcome} (hquiet : quiet → outcome.evictions = 0) :
    ∃ found next, cpu.allocate outcome = some (found, next) ∧
      Keeps quiet cpu next (users ++ found.toList) ∧
      (outcome.granted = true → found.isSome = true) := by
  obtain ⟨evicted, hevicted, hkeeps⟩ := keeps_evictTimes hinv hquiet
  rw [LocalCpuBackend.allocate, hevicted, map_some]
  cases hgranted : outcome.granted with
  | false =>
    refine ⟨none, evicted, rfl, ?_, by simp⟩
    rwa [toList_none, append_nil]
  | true =>
    refine ⟨some evicted.memory.length, _, rfl, ?_, by simp⟩
    refine Keeps.trans hkeeps ⟨(hkeeps.inv.grant 1).1, ?_⟩
    rintro key ⟨id, hentry, hpinned⟩
    refine ⟨id, hentry, hpinned.imp_right fun hpinned => ?_⟩
    have hlt : id < evicted.memory.length := by
      obtain ⟨obj, hobj, -⟩ := hkeeps.inv.counted.alive id (mem_refs hentry)
      exact (List.getElem?_eq_some_iff.mp hobj).1
    dsimp only
    rwa [getElem?_append_left hlt]

/-! The loops over the chunks of a call. -/

theorem allocateChunks (hinv : HotCacheInv ⟨cpu, users⟩)
    (chunks : List (EngineKey κ × AllocOutcome)) :
    ∃ items next, EngineRun.allocateChunks chunks cpu = some (items, next) ∧
      HotCacheInv ⟨next, users ++ items.map Prod.snd⟩ := by
  induction chunks generalizing cpu users with
  | nil => exact ⟨[], cpu, rfl, by simpa using hinv⟩
  | cons chunk rest ih =>
    obtain ⟨key, outcome⟩ := chunk
    have hloud : False → outcome.evictions = 0 := False.elim
    obtain ⟨found, next, hallocate, hkeeps, -⟩ := keeps_allocate hinv hloud
    rw [EngineRun.allocateChunks, hallocate, bind_some]
    cases found with
    | none => exact ⟨[], next, rfl, by simpa using hkeeps.inv⟩
    | some id =>
      obtain ⟨items, last, hrest, hlast⟩ := ih hkeeps.inv
      refine ⟨(key, id) :: items, last, ?_, by simpa using hlast⟩
      dsimp only
      rw [hrest]
      rfl

theorem keeps_getBlocking {key : EngineKey κ} (hinv : HotCacheInv ⟨cpu, users⟩)
    (hgives : Gives quiet outcome cpu key location) :
    ∃ id next, EngineRun.getBlocking location outcome cpu key = some (some id, next) ∧
      Keeps quiet cpu next (users ++ [id]) := by
  cases location with
  | cpu =>
    obtain ⟨id, hentry, -⟩ := hgives
    have hget := OrderedDict.get?_eq_some_iff.mpr hentry
    have hadvances : Advances ⟨cpu, users⟩ ⟨(cpu.getBlocking key).2,
      users ++ (cpu.getBlocking key).1.toList⟩ := hinv.getBlocking
    rw [LocalCpuBackend.getBlocking, hget] at hadvances
    refine ⟨id, { cpu with
      memory := callObject cpu.memory id .refCountUp }, ?_,
      hadvances.1, ?_⟩
    · rw [EngineRun.getBlocking, LocalCpuBackend.getBlocking, hget]
    · rintro other ⟨found, hother, hpinned⟩
      exact ⟨found, hother, hpinned.imp_right (isPinned_callObject (Or.inl rfl))⟩
  | backend index =>
    obtain ⟨evictions, houtcome, hevictions⟩ := hgives
    have hquiet : quiet → AllocOutcome.evictions ⟨evictions, true⟩ = 0 := hevictions
    obtain ⟨found, next, hallocate, hkeeps, hsome⟩ := keeps_allocate hinv hquiet
    obtain ⟨id, rfl⟩ := isSome_iff_exists.mp (hsome rfl)
    refine ⟨id, next, ?_, hkeeps⟩
    rw [EngineRun.getBlocking, houtcome]
    exact hallocate

theorem keeps_batchedGetBlocking {keys : List (EngineKey κ)} (hinv : HotCacheInv ⟨cpu, users⟩)
    (hgives : ∀ key ∈ keys, Gives quiet outcome cpu key location) :
    ∃ ids next, EngineRun.batchedGetBlocking location outcome cpu keys =
        some (ids.map some, next) ∧ ids.length = keys.length ∧
      Keeps quiet cpu next (users ++ ids) := by
  induction keys generalizing cpu users with
  | nil => exact ⟨[], cpu, rfl, rfl, Keeps.refl (by simpa using hinv)⟩
  | cons key rest ih =>
    obtain ⟨id, next, hget, hkeeps⟩ := keeps_getBlocking hinv (hgives key mem_cons_self)
    obtain ⟨ids, last, hrest, hlength, hlast⟩ := ih hkeeps.inv
      fun other hother =>
        hkeeps.gives (hgives other (mem_cons_of_mem _ hother))
    refine ⟨id :: ids, last, ?_, congrArg (· + 1) hlength, ?_⟩
    · rw [EngineRun.batchedGetBlocking, hget, bind_some, hrest]
      rfl
    · rw [append_assoc] at hlast
      exact hkeeps.trans hlast

theorem keeps_fetchLocations {mapping : List (Location × List (TokenChunk (EngineKey κ)))}
    {chunks : List (TokenChunk (EngineKey κ) × Nat)}
    (hinv : HotCacheInv ⟨cpu, users ++ chunks.map Prod.snd⟩)
    (hgives : ∀ entry ∈ mapping, ∀ chunk ∈ entry.2, Gives quiet outcome cpu chunk.key entry.1) :
    ∃ fetched next, mapping.foldlM (EngineRun.fetchLocation outcome)
        (⟨chunks, none⟩, cpu) = some (⟨fetched, none⟩, next) ∧
      HotCacheInv ⟨next, users ++ fetched.map Prod.snd⟩ := by
  induction mapping generalizing cpu chunks with
  | nil => exact ⟨chunks, cpu, rfl, hinv⟩
  | cons entry rest ih =>
    obtain ⟨location, blocks⟩ := entry
    have hfirst : ∀ key ∈ blocks.map (·.key), Gives quiet outcome cpu key location := by
      intro key hkey
      obtain ⟨chunk, hchunk, rfl⟩ := mem_map.mp hkey
      exact hgives _ mem_cons_self chunk hchunk
    obtain ⟨ids, next, hget, hlength, hkeeps⟩ := keeps_batchedGetBlocking hinv hfirst
    have hids : (blocks.zip ids).map Prod.snd = ids := by
      apply map_snd_zip
      rw [hlength, length_map]
    have hnext : HotCacheInv ⟨next, users ++ (chunks ++ blocks.zip ids).map Prod.snd⟩ := by
      rw [map_append, hids, ← append_assoc]
      exact hkeeps.inv
    obtain ⟨fetched, last, hrest, hlast⟩ := ih hnext fun other hother chunk hchunk => hkeeps.gives
        (hgives other (mem_cons_of_mem _ hother) chunk hchunk)
    refine ⟨fetched, last, ?_, hlast⟩
    rw [foldlM_cons, EngineRun.fetchLocation]
    dsimp only
    rw [hget, map_some, collectBlocks_map_some]
    exact hrest

end HotCacheInv

/-! Nothing is there. -/

section Missing

variable [DecidableEq κ] {cpu : LocalCpuBackend κ} {outcome : EngineKey κ → GetOutcome}

theorem batchedGetBlocking_of_missing {keys : List (EngineKey κ)} {location : Location}
    (hmissing : ∀ key ∈ keys, EngineRun.getBlocking location outcome cpu key = some (none, cpu)) :
    EngineRun.batchedGetBlocking location outcome cpu keys =
      some (keys.map fun _ => none, cpu) := by
  induction keys with
  | nil => rfl
  | cons key rest ih =>
    rw [EngineRun.batchedGetBlocking, hmissing key mem_cons_self, bind_some,
      ih fun other hother => hmissing other (mem_cons_of_mem _ hother)]
    rfl

theorem fetchLocations_of_missing {mapping : List (Location × List (TokenChunk (EngineKey κ)))}
    {failed : Option Nat} (hmissing : ∀ entry ∈ mapping, ∀ chunk ∈ entry.2,
      EngineRun.getBlocking entry.1 outcome cpu chunk.key = some (none, cpu)) :
    ∃ last, mapping.foldlM (EngineRun.fetchLocation outcome)
      (⟨[], failed⟩, cpu) = some (⟨[], last⟩, cpu) := by
  induction mapping generalizing failed with
  | nil => exact ⟨failed, rfl⟩
  | cons entry rest ih =>
    have hfirst : ∀ key ∈ entry.2.map (·.key),
        EngineRun.getBlocking entry.1 outcome cpu key = some (none, cpu) := by
      intro key hkey
      obtain ⟨chunk, hchunk, rfl⟩ := mem_map.mp hkey
      exact hmissing entry mem_cons_self chunk hchunk
    have hnone : (collectBlocks (entry.2.zip
        ((entry.2.map (·.key)).map fun _ => (none : Option Nat)))).1 = [] := by
      cases entry.2 <;> rfl
    obtain ⟨last, hlast⟩ := ih fun other hother =>
      hmissing other (mem_cons_of_mem _ hother)
    refine ⟨last, ?_⟩
    rw [foldlM_cons, EngineRun.fetchLocation, batchedGetBlocking_of_missing hfirst, map_some]
    dsimp only
    rw [hnone]
    exact hlast

end Missing

/-! The engine. -/

def jobRefs (jobs : List (PutJob κ)) : List Nat := jobs.flatMap fun job => job.entries.map Prod.snd

theorem foldl_call (run : EngineRun κ) (items : List (EngineKey κ × Nat)) :
    items.foldl (fun run item => run.call item.2 .refCountDown) run =
      { run with cpu := { run.cpu with
        memory := (items.map Prod.snd).foldl (callObject · · .refCountDown) run.cpu.memory } } := by
  induction items generalizing run with
  | nil => rfl
  | cons item rest ih =>
    rw [foldl_cons, ih]
    rfl

/-- The references are those of the cache, of the jobs and those held by the
call in progress. -/
structure EngineHolds (run : EngineRun κ) (held : List Nat) : Prop where
  cache : HotCacheInv ⟨run.cpu, jobRefs run.jobs ++ held⟩
  single : ∀ job ∈ run.jobs, job.batched = false
  known : ∀ job ∈ run.jobs, job.backend < run.backends.length

namespace EngineHolds

variable {run : EngineRun κ} {held : List Nat} {key : EngineKey κ} {id index : Nat}

theorem of_cpu {cpu : LocalCpuBackend κ} {held' : List Nat} (hholds : EngineHolds run held)
    (hcache : HotCacheInv ⟨cpu, jobRefs run.jobs ++ held'⟩) :
    EngineHolds { run with cpu := cpu } held' where
  cache := hcache
  single := hholds.single
  known := hholds.known

theorem of_backends {backends : List (PutBackend κ)} (hholds : EngineHolds run held)
    (hlength : backends.length = run.backends.length) :
    EngineHolds { run with backends := backends } held where
  cache := hholds.cache
  single := hholds.single
  known job hjob := by
    dsimp only
    rw [hlength]
    exact hholds.known job hjob

theorem insertPutTask (hholds : EngineHolds run held) :
    EngineHolds (run.insertPutTask index key) held :=
  hholds.of_backends (length_modify _ _ _)

theorem up (hholds : EngineHolds run held) (hid : id ∈ held) :
    EngineHolds (run.call id .refCountUp) (id :: held) := by
  apply hholds.of_cpu
  apply (hholds.cache.refCountUp (mem_append_right _ hid)).perm_users
  exact perm_middle.symm

theorem down (hholds : EngineHolds run (id :: held)) :
    EngineHolds (run.call id .refCountDown) held := by
  apply hholds.of_cpu
  apply HotCacheInv.refCountDown
  exact hholds.cache.perm_users perm_middle

theorem downAll {items : List (EngineKey κ × Nat)}
    (hholds : EngineHolds run (items.map Prod.snd ++ held)) :
    EngineHolds (items.foldl (fun run item =>
      run.call item.2 .refCountDown) run) held := by
  rw [foldl_call]
  apply hholds.of_cpu
  apply HotCacheInv.refCountDowns
  apply hholds.cache.perm_users
  rw [← append_assoc, ← append_assoc]
  exact perm_append_comm.append_right held

theorem serialize (hholds : EngineHolds run held) (hid : id ∈ held) :
    EngineHolds (run.serialize id) (id :: held) :=
  ((hholds.up hid).up mem_cons_self).down

theorem addJob (hholds : EngineHolds run (id :: held)) (hindex : index < run.backends.length) :
    EngineHolds (run.addJob ⟨index, false, [(key, id)]⟩) held where
  cache := by
    apply hholds.cache.perm_users
    simp [jobRefs, EngineRun.addJob]
  single job hjob := by
    rcases mem_append.mp hjob with hold | hnew
    · exact hholds.single job hold
    · rw [mem_singleton.mp hnew]
  known job hjob := by
    rcases mem_append.mp hjob with hold | hnew
    · exact hholds.known job hold
    · rw [mem_singleton.mp hnew]
      exact hindex

theorem start (policy : CachePolicy) (useHot : Bool) (backends : List (BackendKind × Bool)) :
    EngineHolds (EngineRun.start policy useHot backends : EngineRun κ) [] where
  cache := HotCacheInv.start policy useHot
  single := by simp [EngineRun.start]
  known := by simp [EngineRun.start]

theorem conserved (hholds : EngineHolds run []) : run.Conserved := by
  intro hjobs
  have hcounted := hholds.cache.counted
  rw [hjobs] at hcounted
  simpa [jobRefs] using hcounted

variable [DecidableEq κ]

theorem submitPutTask (hholds : EngineHolds run held) (hid : id ∈ held) (admits : Bool) :
    EngineHolds (run.submitPutTask index admits key id) held := by
  unfold EngineRun.submitPutTask
  cases hbackend : run.backends[index]? with
  | none => exact hholds
  | some backend =>
    have hindex : index < run.backends.length := (List.getElem?_eq_some_iff.mp hbackend).1
    have hmodified : index < (run.insertPutTask index key).backends.length :=
      (length_modify _ _ _).symm ▸ hindex
    dsimp only
    split
    · split
      · exact hholds
      · split
        · exact hholds.insertPutTask
        · exact (hholds.insertPutTask.up hid).addJob hmodified
    · exact ((hholds.up hid).insertPutTask).addJob hmodified
    · split
      · exact hholds
      · exact (hholds.insertPutTask.serialize hid).addJob hmodified

end EngineHolds

/-! Puts do not change which backends there are. -/

section Routes

variable {run : EngineRun κ} {index : Nat}

def TakesSingly (run : EngineRun κ) : Prop := ∀ backend ∈ run.backends, backend.TakesSingly = true

theorem TakesSingly.insertPutTask {key : EngineKey κ} (hsingly : TakesSingly run) :
    TakesSingly (run.insertPutTask index key) := by
  intro backend hbackend
  obtain ⟨position, hposition⟩ := getElem?_of_mem hbackend
  rw [EngineRun.insertPutTask, getElem?_modify] at hposition
  obtain ⟨old, hold, rfl⟩ := map_eq_some_iff.mp hposition
  have hfirst := hsingly old (mem_of_getElem? hold)
  split <;> exact hfirst

theorem TakesSingly.submitPutTask [DecidableEq κ] {key : EngineKey κ} {id : Nat}
    (hsingly : TakesSingly run) (admits : Bool) :
    TakesSingly (run.submitPutTask index admits key id) := by
  unfold EngineRun.submitPutTask
  repeat' split
  all_goals first
    | exact hsingly
    | exact hsingly.insertPutTask

end Routes

namespace EngineHolds

variable [DecidableEq κ] {run : EngineRun κ} {held : List Nat}

variable {items : List (EngineKey κ × Nat)}

theorem submitEach {index : Nat} {admits : EngineKey κ → Bool} (hholds : EngineHolds run held)
    (hsingly : TakesSingly run) (hitems : ∀ item ∈ items, item.2 ∈ held) :
    EngineHolds (items.foldl (fun run item =>
      run.submitPutTask index (admits item.1) item.1 item.2) run) held ∧
    TakesSingly (items.foldl (fun run item =>
      run.submitPutTask index (admits item.1) item.1 item.2) run) := by
  induction items generalizing run with
  | nil => exact ⟨hholds, hsingly⟩
  | cons item rest ih =>
    exact ih (hholds.submitPutTask (hitems item mem_cons_self) _) (hsingly.submitPutTask _)
      fun other hother => hitems other (mem_cons_of_mem _ hother)

theorem batchedSubmitPutTask {index : Nat} {admits : EngineKey κ → Bool}
    (hholds : EngineHolds run held) (hsingly : TakesSingly run)
    (hitems : ∀ item ∈ items, item.2 ∈ held) :
    EngineHolds (run.batchedSubmitPutTask index admits items) held ∧
      TakesSingly (run.batchedSubmitPutTask index admits items) := by
  unfold EngineRun.batchedSubmitPutTask
  cases hbackend : run.backends[index]? with
  | none => exact ⟨hholds, hsingly⟩
  | some backend =>
    have hone := hsingly backend (mem_of_getElem? hbackend)
    dsimp only
    split
    · next hkind =>
      rw [PutBackend.TakesSingly, hkind] at hone
      rw [if_pos hone]
      exact ⟨hholds, hsingly⟩
    · split
      · exact ⟨hholds, hsingly⟩
      · exact hholds.submitEach hsingly hitems
    · exact hholds.submitEach hsingly hitems
    · exact hholds.submitEach hsingly hitems

theorem batchedPut {admits : Nat → EngineKey κ → Bool}
    (hholds : EngineHolds run (items.map Prod.snd)) (hsingly : TakesSingly run) :
    EngineHolds (run.batchedPut admits items) [] := by
  have hitems : ∀ item ∈ items, item.2 ∈ items.map Prod.snd :=
    fun item hitem => mem_map_of_mem hitem
  unfold EngineRun.batchedPut
  apply downAll
  rw [append_nil]
  refine (List.foldlRecOn (motive := fun run =>
    EngineHolds run (items.map Prod.snd) ∧ TakesSingly run) _ _ ?_ ?_).1
  · split
    · refine ⟨hholds.of_cpu ?_, hsingly⟩
      apply List.foldlRecOn (motive := fun cpu => HotCacheInv
        ⟨cpu, jobRefs run.jobs ++ items.map Prod.snd⟩) _ _ hholds.cache
      intro cpu hcpu item hitem
      exact (hcpu.submitPutTask (mem_append_right _ (hitems item hitem))).1
    · exact ⟨hholds, hsingly⟩
  · intro run hrun index _
    exact hrun.1.batchedSubmitPutTask hrun.2 hitems

theorem store {chunks : List (EngineKey κ × AllocOutcome)} {admits : Nat → EngineKey κ → Bool}
    (hholds : EngineHolds run []) (hsingly : TakesSingly run) :
    ∃ next, run.store chunks admits = some next ∧ EngineHolds next [] := by
  obtain ⟨items, cpu, hallocate, hcpu⟩ := hholds.cache.allocateChunks chunks
  rw [EngineRun.store, hallocate, map_some]
  rw [append_nil] at hcpu
  refine ⟨_, rfl, ?_⟩
  dsimp only
  split
  · next hnil =>
    apply hholds.of_cpu
    simpa [hnil] using hcpu
  · exact (hholds.of_cpu hcpu).batchedPut hsingly

variable {outcome : EngineKey κ → GetOutcome}

theorem gives_of_fetches {located : List (Location × TokenChunk (EngineKey κ))}
    {entry : Location × TokenChunk (EngineKey κ)} (hentry : entry ∈ located)
    (hfetches : run.Fetches outcome (quietGets outcome located) entry = true) :
    HotCacheInv.Gives (quietGets outcome located = true) outcome run.cpu entry.2.key entry.1 := by
  obtain ⟨location, chunk⟩ := entry
  cases location with
  | cpu =>
    cases hget : run.cpu.hotCache.get? chunk.key with
    | none => simp [EngineRun.Fetches, hget] at hfetches
    | some id =>
      refine ⟨id, OrderedDict.get?_eq_some_iff.mp hget, ?_⟩
      simpa [EngineRun.Fetches, hget] using hfetches
  | backend index =>
    cases houtcome : outcome chunk.key with
    | missing => simp [EngineRun.Fetches, houtcome, GetOutcome.isLoaded] at hfetches
    | lost evictions =>
      simp [EngineRun.Fetches, houtcome, GetOutcome.isLoaded] at hfetches
    | loaded evictions =>
      refine ⟨evictions, houtcome, fun hquiet => ?_⟩
      have hzero := all_eq_true.mp hquiet _ hentry
      simpa [houtcome] using hzero

theorem getBlocking_of_misses {entry : Location × TokenChunk (EngineKey κ)}
    (hmisses : run.Misses outcome entry = true) :
    EngineRun.getBlocking entry.1 outcome run.cpu entry.2.key = some (none, run.cpu) := by
  obtain ⟨location, chunk⟩ := entry
  cases location with
  | cpu =>
    have hnone : run.cpu.hotCache.get? chunk.key = none := by
      rw [OrderedDict.get?_eq_none_iff, ← OrderedDict.contains_iff]
      simpa [EngineRun.Misses] using hmisses
    rw [EngineRun.getBlocking, LocalCpuBackend.getBlocking, hnone]
  | backend index =>
    have hmissing : outcome chunk.key = .missing := by
      simpa [EngineRun.Misses] using hmisses
    rw [EngineRun.getBlocking, hmissing]

theorem retrieve {located : List (Location × TokenChunk (EngineKey κ))}
    (hholds : EngineHolds run []) (hbalanced : run.Balanced (.retrieve located outcome)) :
    ∃ next, run.retrieve located outcome = some next ∧ EngineHolds next [] := by
  rw [EngineRun.retrieve]
  rcases hbalanced with hall | hnone
  · have hstart : HotCacheInv ⟨run.cpu, jobRefs run.jobs ++
        List.map Prod.snd ([] : List (TokenChunk (EngineKey κ) × Nat))⟩ :=
      hholds.cache
    obtain ⟨chunks, next, hfetch, hnext⟩ :=
      HotCacheInv.keeps_fetchLocations hstart fun entry hentry chunk hchunk =>
          have hmem := mem_of_mem_blockMapping hentry hchunk
          gives_of_fetches hmem (hall _ hmem)
    rw [hfetch]
    refine ⟨_, rfl, hholds.of_cpu ?_⟩
    rw [append_nil]
    apply HotCacheInv.refCountDowns
    exact hnext.perm_users perm_append_comm
  · obtain ⟨failed, hfetch⟩ := fetchLocations_of_missing
      fun entry hentry chunk hchunk =>
        getBlocking_of_misses (hnone _ (mem_of_mem_blockMapping hentry hchunk))
    rw [hfetch]
    refine ⟨_, rfl, ?_⟩
    cases failed <;> exact hholds

theorem endJob_eq {job : PutJob κ} {backend : PutBackend κ} {succeeded : Bool}
    (hbackend : run.backends[job.backend]? = some backend) (hsingle : job.batched = false)
    (hgives : backend.GivesBack succeeded = true) :
    run.endJob job succeeded = (job.entries.foldl (fun run item =>
        run.call item.2 .refCountDown) run).removePutTasks job.backend
          (job.entries.map Prod.fst) := by
  unfold EngineRun.endJob
  rw [hbackend]
  unfold PutBackend.GivesBack at hgives
  dsimp only
  cases hkind : backend.kind with
  | localDisk | gds =>
    rw [hkind] at hgives
    exact if_pos hgives
  | remote supportBatchedPut mlaWorkerIdAs0 releasesItself =>
    rw [hkind] at hgives
    have honce : (releasesItself && succeeded) = false := Bool.not_eq_eq_eq_not.mp hgives
    dsimp only
    rw [hsingle, honce]
    rfl

theorem endJob {job : PutJob κ} {index : Nat} {succeeded : Bool} (hholds : EngineHolds run [])
    (hjob : run.jobs[index]? = some job) (hbalanced : run.Balanced (.endJob index succeeded)) :
    EngineHolds { run.endJob job succeeded with
      jobs := run.jobs.eraseIdx index } [] := by
  have hmem := mem_of_getElem? hjob
  obtain ⟨backend, hbackend⟩ : ∃ backend, run.backends[job.backend]? = some backend :=
    ⟨_, getElem?_eq_getElem (hholds.known job hmem)⟩
  have hperm : (jobRefs run.jobs).Perm
      (job.entries.map Prod.snd ++ jobRefs (run.jobs.eraseIdx index)) := by
    obtain ⟨hindex, rfl⟩ := List.getElem?_eq_some_iff.mp hjob
    exact ((List.getElem_cons_eraseIdx_perm hindex).symm).flatMap_right _
  have hrest : EngineHolds { run with jobs := run.jobs.eraseIdx index }
      (job.entries.map Prod.snd ++ []) := by
    constructor
    · apply hholds.cache.perm_users
      rw [append_nil, append_nil]
      exact hperm.trans perm_append_comm
    · exact fun other hother =>
        hholds.single other (mem_of_mem_eraseIdx hother)
    · exact fun other hother =>
        hholds.known other (mem_of_mem_eraseIdx hother)
  have hdown := hrest.downAll
  rw [foldl_call] at hdown
  have hgives : backend.GivesBack succeeded = true := by
    simpa [EngineRun.Balanced, hjob, hbackend] using hbalanced
  rw [endJob_eq hbackend (hholds.single job hmem) hgives, foldl_call]
  exact hdown.of_backends (length_modify _ _ _)

theorem step {action : EngineAction κ} (hholds : EngineHolds run [])
    (hbalanced : run.Balanced action) :
    ∃ next, run.step action = some next ∧ EngineHolds next [] := by
  cases action with
  | store chunks admits => exact hholds.store hbalanced
  | retrieve located outcome => exact hholds.retrieve hbalanced
  | pin key =>
    exact ⟨_, rfl, hholds.of_cpu (hholds.cache.callKey (Or.inl rfl)).1⟩
  | unpin key =>
    exact ⟨_, rfl, hholds.of_cpu (hholds.cache.callKey (Or.inr rfl)).1⟩
  | connection index connected =>
    exact ⟨_, rfl, hholds.of_backends (length_modify _ _ _)⟩
  | endJob index succeeded =>
    rw [EngineRun.step]
    cases hjob : run.jobs[index]? with
    | none => exact ⟨run, rfl, hholds⟩
    | some job => exact ⟨_, rfl, hholds.endJob hjob hbalanced⟩

end EngineHolds

/-- In a run whose steps are balanced nothing raises, and every state that is
reached without jobs has the counts of the cache. -/
theorem conserved_of_balanced {κ : Type} [DecidableEq κ] {policy : CachePolicy} {useHot : Bool}
    {backends : List (BackendKind × Bool)} {actions : List (EngineAction κ)}
    (hmeets : Meets EngineRun.step EngineRun.Balanced
      (EngineRun.start policy useHot backends) actions) :
    ∃ final, runFrom EngineRun.step (EngineRun.start policy useHot backends) actions =
        some final ∧ final.Conserved := by
  obtain ⟨final, hrun, hfinal⟩ := run_progress
    (fun run action hholds hbalanced => EngineHolds.step hholds hbalanced)
    (EngineHolds.start policy useHot backends) hmeets
  exact ⟨final, hrun, hfinal.conserved⟩

instance EngineRun.balancedDecidable {κ : Type} [DecidableEq κ]
    (run : EngineRun κ) : ∀ action, Decidable (run.Balanced action)
  | .store _ _ => inferInstanceAs (Decidable (∀ backend ∈ run.backends, backend.TakesSingly = true))
  | .retrieve located outcome => inferInstanceAs (Decidable ((∀ entry ∈ located,
        run.Fetches outcome (quietGets outcome located) entry = true) ∨
          ∀ entry ∈ located, run.Misses outcome entry = true))
  | .endJob _ _ => inferInstanceAs (Decidable (_ = true))
  | .pin _ | .unpin _ | .connection _ _ => inferInstanceAs (Decidable True)

/-- Two chunks are put to disk and to a remote server, one of them is lost
there, and both are read back from the CPU memory and then from the disk. -/
def storeAndReadTwice : List (EngineAction Nat) :=
  let chunks : List (TokenChunk (EngineKey Nat)) := [⟨0, 256, .chunk 7⟩, ⟨256, 512, .chunk 8⟩]
  [.store (chunks.map fun chunk => (chunk.key, ⟨0, true⟩)) fun _ _ => true,
    .endJob 0 true, .endJob 1 true, .endJob 0 true, .endJob 0 false,
    .pin (.chunk 7),
    .retrieve (chunks.map (Location.cpu, ·)) fun _ => .missing,
    .unpin (.chunk 7),
    .retrieve (chunks.map (Location.backend 0, ·)) fun _ => .loaded 1,
    .retrieve (chunks.map (Location.backend 1, ·)) fun _ => .missing]

theorem conserved_storeAndReadTwice : ∃ final, runFrom EngineRun.step (EngineRun.start .lru true
      [(.localDisk, true), (.remote false false false, true)])
    storeAndReadTwice = some final ∧ final.Conserved := by
  have hmeets : Meets EngineRun.step EngineRun.Balanced (EngineRun.start .lru true
        [(.localDisk, true), (.remote false false false, true)])
      storeAndReadTwice := by decide +kernel
  exact conserved_of_balanced hmeets

/-- Three runs that leave wrong counts: a get that fails after another has
succeeded, a batched put, and a connector that gives back the reference which
its wrapper gives back too. -/
theorem not_conserved_secondMissing : (∃ final, runFrom EngineRun.step
      (EngineRun.start .lru true [(.localDisk, true)])
      [.retrieve [(.backend 0, ⟨0, 256, .chunk 7⟩), (.backend 0, ⟨256, 512, .chunk 8⟩)] fun key =>
          if key = .chunk 7 then .loaded 0 else .missing] = some final ∧
        ¬ final.Conserved) ∧
    (∃ final, runFrom EngineRun.step (EngineRun.start .lru true [(.remote true false false, true)])
      [.store [(.chunk 7, ⟨0, true⟩)] fun _ _ => true,
        .endJob 0 true] = some final ∧ ¬ final.Conserved) ∧
    ∃ final, runFrom EngineRun.step (EngineRun.start .lru true [(.remote false false true, true)])
      [.store [(.chunk 7, ⟨0, true⟩)] fun _ _ => true,
        .endJob 0 true] = some final ∧ ¬ final.Conserved := by
  refine ⟨⟨_, rfl, fun hconserved => ?_⟩, ⟨_, rfl, fun hconserved => ?_⟩,
    ⟨_, rfl, fun hconserved => ?_⟩⟩
  · -- one reference, and no cache has it
    have hcounts := ((hconserved rfl).counts 0 _ rfl rfl).1
    exact absurd hcounts (by decide +kernel)
  · -- two references, one of them of the cache
    have hcounts := ((hconserved rfl).counts 0 _ rfl rfl).1
    exact absurd hcounts (by decide +kernel)
  · -- freed, and still in the cache
    obtain ⟨obj, hobj, hvalid⟩ := (hconserved rfl).alive 0 (by decide +kernel)
    obtain rfl := Option.some.inj hobj
    cases hvalid

end CatKV
