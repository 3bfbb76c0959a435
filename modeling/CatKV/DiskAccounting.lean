/-
The disk backend's accounts: the size it reckons with, the bytes of its files
and the marks of puts in progress.  They agree while every put fits, is written
in full to a path of its own and stays until it is evicted.
-/
import CatKV.LocalDiskBackend

namespace CatKV

open List OrderedDict

variable {κ π : Type} {itemsize : TorchDtype → Nat}

namespace LocalDiskBackend

variable (backend : LocalDiskBackend κ π)

def storedSize : Nat := backend.dict.total fun entry => entry.2.size

def evictableSize : Nat :=
  backend.dict.total fun entry =>
    if entry.2.canEvict then entry.2.size else 0

def fileBytes : Nat := backend.files.total fun entry => entry.2.length

end LocalDiskBackend

/-- The size of a save whose entry is not there yet. -/
def SaveJob.pendingSize (job : SaveJob κ itemsize) : Nat :=
  if job.stage = .inserted then 0 else job.obj.physicalSize

/-- The key whose file a call has found missing. -/
def ReadCall.missingKey : ReadCall κ π itemsize → Option κ
  | .missing _ located _ _ => some located.key
  | _ => none

namespace DiskRun

variable (keyToPath : κ → π) (run : DiskRun κ π itemsize)

/-- The accepted puts that have no entry yet. -/
def pendingSize : Nat := (run.saves.map (·.pendingSize)).sum

/-- The keys whose puts are in progress, from their marks to their end. -/
def inProgress : List κ := (run.submits.filter (·.marked)).map (·.key) ++ run.saves.map (·.key)

structure Accounted : Prop where
  cacheSize : run.backend.currentCacheSize = (run.backend.storedSize + run.pendingSize : Nat)
  bounded : run.backend.currentCacheSize ≤ run.backend.config.maxCacheSize
  usage : run.backend.usage = run.backend.fileBytes
  putTasks : run.backend.putTasks.Perm run.inProgress

/-- A put fits, where need be after evictions by a policy without frequencies;
a save does not fail and writes as many bytes as are reckoned, to a path where
there is no file; nothing stored is removed or lost, and a file that is found
missing has no entry. -/
def Accountable : DiskAction κ π itemsize → Prop
  | .reserve index => ∀ call ∈ run.submits[index]?,
      run.backend.currentCacheSize + call.obj.physicalSize ≤ run.backend.config.maxCacheSize ∨
        run.backend.policy.policy ≠ .lfu ∧ run.backend.currentCacheSize + call.obj.physicalSize ≤
            run.backend.config.maxCacheSize + run.backend.evictableSize
  | .save index => ∀ job ∈ run.saves[index]?, job.stage = .queued →
      keyToPath job.key ∉ run.backend.files.keys ∧ job.obj.byteArray.length = job.obj.physicalSize
  | .saveFails _ _ => False
  | .read index _ => ∀ call ∈ run.reads[index]?, ∀ key ∈ call.missingKey,
      key ∉ run.backend.dict.keys
  | .remove key => key ∉ run.backend.dict.keys
  | .lose path => path ∉ run.backend.files.keys
  | _ => True

instance decidableAccountable [DecidableEq κ] [DecidableEq π] :
    ∀ action, Decidable (run.Accountable keyToPath action)
  | .reserve _ | .save _ => inferInstanceAs (Decidable (∀ _ ∈ _, _))
  | .saveFails _ _ => isFalse id
  | .read _ _ => inferInstanceAs (Decidable (∀ _ ∈ _, _))
  | .remove _ | .lose _ => inferInstanceAs (Decidable (¬ _))
  | .submit _ _ | .mark _ | .getBlocking _ | .batchedGet _
  | .changePins _ _ | .touchCache _ => isTrue trivial

end DiskRun

/-! Steps that move and pin entries. -/

/-- What the accounts see of an entry. -/
def accountOf (entry : κ × DiskCacheMetadata π) : κ × π × Nat :=
  (entry.1, entry.2.path, entry.2.size)

structure SameSizes (backend next : LocalDiskBackend κ π) : Prop where
  config : next.config = backend.config
  cacheSize : next.currentCacheSize = backend.currentCacheSize
  usage : next.usage = backend.usage
  putTasks : next.putTasks = backend.putTasks
  files : next.files = backend.files
  entries : (next.dict.entries.map accountOf).Perm (backend.dict.entries.map accountOf)

section SameSizes

variable {backend next last : LocalDiskBackend κ π}

theorem SameSizes.refl (backend : LocalDiskBackend κ π) : SameSizes backend backend :=
  ⟨rfl, rfl, rfl, rfl, rfl, List.Perm.refl _⟩

theorem SameSizes.trans (hfirst : SameSizes backend next)
    (hsecond : SameSizes next last) : SameSizes backend last where
  config := hsecond.config.trans hfirst.config
  cacheSize := hsecond.cacheSize.trans hfirst.cacheSize
  usage := hsecond.usage.trans hfirst.usage
  putTasks := hsecond.putTasks.trans hfirst.putTasks
  files := hsecond.files.trans hfirst.files
  entries := hsecond.entries.trans hfirst.entries

variable [DecidableEq κ]

theorem sameSizes_updateOnHit {key : κ}
    (hhit : backend.updateOnHit key = some next) : SameSizes backend next := by
  obtain ⟨moved, hmoved, rfl⟩ := Option.map_eq_some_iff.mp hhit
  exact ⟨rfl, rfl, rfl, rfl, rfl, (PolicyState.perm_of_updateOnHit hmoved).1.map accountOf⟩

theorem sameSizes_hitAll (keys : List κ) (backend : LocalDiskBackend κ π) :
    SameSizes backend (backend.hitAll keys).1 := by
  induction keys generalizing backend with
  | nil => exact SameSizes.refl backend
  | cons key rest ih =>
    unfold LocalDiskBackend.hitAll
    split
    · exact SameSizes.refl backend
    · next hit hhit => exact (sameSizes_updateOnHit hhit).trans (ih hit)

theorem sameSizes_changePins (key : κ) (change : Int) :
    SameSizes backend (backend.changePins key change) := by
  unfold LocalDiskBackend.changePins
  split
  · exact SameSizes.refl backend
  · next entry hentry =>
    have hold := perm_pop (get?_eq_some_iff.mp hentry)
    exact ⟨rfl, rfl, rfl, rfl, rfl, (perm_set.map accountOf).trans (hold.map accountOf).symm⟩

variable [DecidableEq π]

theorem sameSizes_advance {call : ReadCall κ π itemsize} {buffer : Option (List UInt8)}
    {result : LocalDiskBackend κ π × ReadOutcome κ π itemsize}
    (hmissing : ∀ key ∈ call.missingKey, key ∉ backend.dict.keys)
    (hadvance : call.advance backend buffer = some result) : SameSizes backend result.1 := by
  cases call with
  | found key =>
    cases hadvance
    unfold ReadCall.locate
    split
    · exact SameSizes.refl backend
    · next hit hhit =>
      have hsame := sameSizes_updateOnHit hhit
      split
      · exact hsame
      · exact hsame
  | opening key path layout =>
    cases buffer with
    | none =>
      cases hadvance
      exact SameSizes.refl backend
    | some bytes =>
      obtain ⟨located, -, rfl⟩ := Option.map_eq_some_iff.mp hadvance
      exact SameSizes.refl backend
  | gathering keys located =>
    cases keys with
    | nil =>
      cases hadvance
      exact SameSizes.refl backend
    | cons key rest =>
      have hgather : ReadCall.gather backend buffer key rest located = some result := hadvance
      unfold ReadCall.gather at hgather
      split at hgather
      · next entry hit bytes hentry hhit =>
        have hpins := (sameSizes_updateOnHit hhit).trans (sameSizes_changePins key 1)
        split at hgather
        · cases hgather
          exact hpins
        · next second hsecond =>
          obtain ⟨found, -, rfl⟩ := Option.map_eq_some_iff.mp hgather
          exact hpins.trans (sameSizes_updateOnHit hsecond)
      · next entry hit hentry hhit =>
        cases hgather
        exact sameSizes_updateOnHit hhit
      · cases hgather
        exact SameSizes.refl backend
  | reading blocking todo done =>
    cases todo with
    | nil =>
      cases hadvance
      exact SameSizes.refl backend
    | cons located todo =>
      cases hadvance
      exact SameSizes.refl backend
  | missing blocking located todo done =>
    cases hadvance
    have hpop := pop_of_not_mem (hmissing located.key rfl)
    refine ⟨rfl, rfl, rfl, rfl, rfl, ?_⟩
    rw [hpop]
  | unpinning key todo done =>
    cases hadvance
    unfold ReadCall.unpin
    split
    · exact SameSizes.refl backend
    · exact sameSizes_changePins key (-1)

end SameSizes

/-! What is kept of the backend: `pending` has been reserved, and the files of
`busy` paths belong to saves. -/

variable [DecidableEq π]

structure Kept (keyToPath : κ → π) (pending : Nat) (busy : List π)
    (backend : LocalDiskBackend κ π) : Prop where
  cacheSize : backend.currentCacheSize = (backend.storedSize + pending : Nat)
  usage : backend.usage = backend.fileBytes
  entries : ∀ entry ∈ backend.dict.entries, entry.2.path = keyToPath entry.1 ∧
      ∃ file, backend.files.get? entry.2.path = some file ∧ file.length = entry.2.size
  distinct : (backend.dict.keys.map keyToPath ++ busy).Nodup

section Kept

variable {keyToPath : κ → π} {pending : Nat} {busy : List π} {backend next : LocalDiskBackend κ π}

section

variable (hkept : Kept keyToPath pending busy backend)

include hkept

theorem Kept.sameSizes (hsame : SameSizes backend next) : Kept keyToPath pending busy next where
  cacheSize := by
    have hsizes := (hsame.entries.map fun seen => seen.2.2).sum_nat
    rw [map_map, map_map] at hsizes
    have hstored : next.storedSize = backend.storedSize := hsizes
    rw [hsame.cacheSize, hkept.cacheSize, hstored]
  usage := by
    rw [hsame.usage, hkept.usage, LocalDiskBackend.fileBytes,
      LocalDiskBackend.fileBytes, hsame.files]
  entries entry hentry := by
    have hmem : accountOf entry ∈ backend.dict.entries.map accountOf :=
      hsame.entries.mem_iff.mp (mem_map_of_mem hentry)
    obtain ⟨old, hold, hseen⟩ := mem_map.mp hmem
    obtain ⟨hkey, hpath, hsize⟩ : old.1 = entry.1 ∧
        old.2.path = entry.2.path ∧ old.2.size = entry.2.size := by
      simpa [accountOf] using hseen
    rw [← hkey, ← hpath, ← hsize, hsame.files]
    exact hkept.entries old hold
  distinct := by
    have hkeys := hsame.entries.map fun seen => keyToPath seen.1
    rw [map_map, map_map] at hkeys
    have hpaths : (next.dict.keys.map keyToPath).Perm (backend.dict.keys.map keyToPath) := by
      rw [OrderedDict.keys, OrderedDict.keys, map_map, map_map]
      exact hkeys
    exact (hpaths.append_right busy).nodup_iff.mpr hkept.distinct

theorem Kept.not_mem_busy {entry : κ × DiskCacheMetadata π}
    (hentry : entry ∈ backend.dict.entries) : keyToPath entry.1 ∉ busy := by
  intro hbusy
  have hpath : keyToPath entry.1 ∈ backend.dict.keys.map keyToPath :=
    mem_map_of_mem (mem_map_of_mem hentry)
  exact (nodup_append.mp hkept.distinct).2.2 _ hpath _ hbusy rfl

theorem Kept.key_eq {entry other : κ × DiskCacheMetadata π} (hentry : entry ∈ backend.dict.entries)
    (hother : other ∈ backend.dict.entries) (hpath : keyToPath entry.1 = keyToPath other.1) :
    entry.1 = other.1 :=
  inj_on_of_nodup_map (nodup_append.mp hkept.distinct).1
    (mem_map_of_mem hentry) (mem_map_of_mem hother) hpath

theorem Kept.write {path : π} (hfree : path ∉ backend.files.keys)
    (hbusy : ∀ other ∈ busy, other ∈ backend.files.keys) (bytes : List UInt8) :
    Kept keyToPath pending (path :: busy) { backend with
      usage := backend.usage + bytes.length
      files := backend.files.set path bytes } where
  cacheSize := hkept.cacheSize
  usage := by
    have hbytes : (backend.files.set path bytes).total
        (fun entry => entry.2.length) = bytes.length + backend.fileBytes := by
      rw [total_set, total_pop_of_not_mem _ hfree]
      rfl
    have husage := hkept.usage
    change backend.usage + (bytes.length : Int) =
      ((backend.files.set path bytes).total fun entry => entry.2.length : Nat)
    omega
  entries entry hentry := by
    obtain ⟨hpath, file, hfile, hlength⟩ := hkept.entries entry hentry
    have hne : entry.2.path ≠ path := by
      rintro rfl
      exact hfree (mem_keys_of_get? hfile)
    exact ⟨hpath, file, (get?_set _).trans ((if_neg hne).trans hfile), hlength⟩
  distinct := by
    apply perm_middle.nodup_iff.mpr
    rw [nodup_cons, mem_append]
    refine ⟨?_, hkept.distinct⟩
    rintro (hstored | hother)
    · obtain ⟨key, hkey, rfl⟩ := mem_map.mp hstored
      obtain ⟨entry, hentry⟩ := mem_keys.mp hkey
      obtain ⟨hpath, file, hfile, -⟩ := hkept.entries _ hentry
      rw [hpath] at hfile
      exact hfree (mem_keys_of_get? hfile)
    · exact hfree (hbusy path hother)

end

variable [DecidableEq κ]

theorem Kept.evict (hkept : Kept keyToPath pending busy backend) {key : κ}
    {entry : DiskCacheMetadata π} (policy : PolicyState κ)
    (hentry : backend.dict.get? key = some entry) :
    ∃ next, { backend with
          policy := policy
          currentCacheSize := backend.currentCacheSize - entry.size
        }.removeEntry key entry = (next, false) ∧
      Kept keyToPath pending busy next ∧
      next.dict = backend.dict.pop key ∧ next.policy = policy ∧
      next.currentCacheSize = backend.currentCacheSize - entry.size ∧
      next.config = backend.config ∧ next.putTasks = backend.putTasks ∧
      ∀ path ∈ busy, next.files.get? path = backend.files.get? path := by
  have hmem := get?_eq_some_iff.mp hentry
  obtain ⟨hpath, file, hfile, hlength⟩ := hkept.entries _ hmem
  have hcontains : backend.files.contains entry.path = true := by
    rw [OrderedDict.contains, hfile]
    rfl
  refine ⟨_, if_pos hcontains, ?_, rfl, rfl, rfl, rfl, rfl, ?_⟩
  · constructor
    · have hstored : backend.storedSize = entry.size +
          (backend.dict.pop key).total fun entry => entry.2.size :=
        total_pop _ hmem
      have hsize := hkept.cacheSize
      change backend.currentCacheSize - (entry.size : Int) =
        (((backend.dict.pop key).total fun entry => entry.2.size) + pending : Nat)
      omega
    · have hbytes : backend.fileBytes = file.length +
          (backend.files.pop entry.path).total fun entry => entry.2.length :=
        total_pop _ (get?_eq_some_iff.mp hfile)
      have husage := hkept.usage
      have hlengths : file.length = entry.size := hlength
      change backend.usage - (entry.size : Int) = ((backend.files.pop entry.path).total fun entry =>
          entry.2.length : Nat)
      omega
    · intro other hother
      obtain ⟨hold, hne⟩ := mem_pop.mp hother
      obtain ⟨hotherPath, hfiles⟩ := hkept.entries other hold
      refine ⟨hotherPath, ?_⟩
      have hdiffer : other.2.path ≠ entry.path := by
        rw [hotherPath, hpath]
        exact fun heq => hne (hkept.key_eq hold hmem heq)
      rw [get?_pop, if_neg hdiffer]
      exact hfiles
    · have hsub : ((backend.dict.pop key).keys.map keyToPath).Sublist
          (backend.dict.keys.map keyToPath) :=
        (filter_sublist.map Prod.fst).map keyToPath
      exact hkept.distinct.sublist (hsub.append_right busy)
  · intro other hbusy
    refine (get?_pop other).trans (if_neg ?_)
    rintro rfl
    rw [hpath] at hbusy
    exact hkept.not_mem_busy hmem hbusy

/-- What the loop that makes room has done when it ends. -/
structure MadeRoom (keyToPath : κ → π) (pending : Nat) (busy : List π)
    (backend next : LocalDiskBackend κ π) : Prop where
  kept : Kept keyToPath pending busy next
  bounded : next.currentCacheSize ≤ next.config.maxCacheSize
  putTasks : next.putTasks = backend.putTasks
  files : ∀ path ∈ busy, next.files.get? path = backend.files.get? path

theorem Kept.makeRoom_of_le (hkept : Kept keyToPath pending busy backend) {requiredSize : Nat}
    (hroom : backend.currentCacheSize + requiredSize ≤ backend.config.maxCacheSize) (rounds : Nat) :
    ∃ next, LocalDiskBackend.makeRoom requiredSize (rounds + 1) backend = (next, .made) ∧
      MadeRoom keyToPath (pending + requiredSize) busy backend next := by
  refine ⟨_, if_pos hroom, ?_, hroom, rfl, fun _ _ => rfl⟩
  refine ⟨?_, hkept.usage, hkept.entries, hkept.distinct⟩
  have hsize := hkept.cacheSize
  change backend.currentCacheSize + requiredSize =
    (backend.storedSize + (pending + requiredSize) : Nat)
  omega

theorem Kept.makeRoom (hkept : Kept keyToPath pending busy backend) {requiredSize rounds : Nat}
    (hpolicy : backend.policy.policy ≠ .lfu) (hroom : backend.currentCacheSize + requiredSize ≤
      backend.config.maxCacheSize + backend.evictableSize)
    (hrounds : backend.dict.entries.length < rounds) :
    ∃ next, LocalDiskBackend.makeRoom requiredSize rounds backend = (next, .made) ∧
      MadeRoom keyToPath (pending + requiredSize) busy backend next := by
  induction rounds generalizing backend with
  | zero => cases hrounds
  | succ rounds ih =>
    by_cases hfits : backend.currentCacheSize + requiredSize ≤ backend.config.maxCacheSize
    · exact hkept.makeRoom_of_le hfits rounds
    · rw [LocalDiskBackend.makeRoom, if_neg hfits, LocalDiskBackend.evictOne]
      rcases PolicyState.getEvictCandidates_of_ne_lfu hpolicy
          DiskCacheMetadata.canEvict backend.dict with
        ⟨key, hcandidate⟩ | ⟨-, hnone⟩
      · obtain ⟨entry, hentry, hcan⟩ := PolicyState.getEvictCandidates_some hcandidate
        have hmem := get?_eq_some_iff.mp hentry
        obtain ⟨next, hnext, hnextKept, hdict, hnextPolicy, hcurrent,
          hconfig, hputTasks, hfiles⟩ := hkept.evict backend.policy hentry
        have hevictable : backend.evictableSize = entry.size + next.evictableSize := by
          rw [LocalDiskBackend.evictableSize, total_pop _ hmem, if_pos hcan,
            LocalDiskBackend.evictableSize, hdict]
        have hlength := (perm_pop hmem).length_eq
        rw [length_cons, ← hdict] at hlength
        obtain ⟨final, hfinal, hmade⟩ := ih hnextKept (by rw [hnextPolicy]; exact hpolicy)
          (by rw [hcurrent, hconfig]; omega) (by omega)
        refine ⟨final, ?_, hmade.kept, hmade.bounded, hmade.putTasks.trans hputTasks, ?_⟩
        · rw [hcandidate]
          simp only [hentry, hnext]
          exact hfinal
        · intro path hpath
          exact (hmade.files path hpath).trans (hfiles path hpath)
      · -- nothing can be evicted, so there was room from the start
        have hzero : backend.evictableSize = 0 := by
          apply total_eq_zero
          intro entry hentry
          rw [hnone entry hentry]
          rfl
        omega

theorem Kept.insert {key : κ} {size : Nat}
    (hkept : Kept keyToPath (pending + size) (keyToPath key :: busy) backend)
    {file : List UInt8} (hfile : backend.files.get? (keyToPath key) = some file)
    (hlength : file.length = size) (layout : TensorLayout) :
    Kept keyToPath pending busy (backend.insertKey key (keyToPath key) size layout) := by
  have hnew : key ∉ backend.dict.keys := by
    intro hkey
    obtain ⟨entry, hentry⟩ := mem_keys.mp hkey
    exact hkept.not_mem_busy hentry mem_cons_self
  have hpop := pop_of_not_mem hnew
  constructor
  · have hstored : (backend.insertKey key (keyToPath key) size
        layout).storedSize = size + backend.storedSize := by
      rw [LocalDiskBackend.storedSize]
      refine (total_set _).trans ?_
      rw [total_pop_of_not_mem _ not_mem_keys_pop, total_pop_of_not_mem _ hnew]
      rfl
    have hsize := hkept.cacheSize
    change backend.currentCacheSize = _
    omega
  · exact hkept.usage
  · intro entry hentry
    rcases mem_set.mp hentry with rfl | ⟨hmem, -⟩
    · exact ⟨rfl, file, hfile, hlength⟩
    · exact hkept.entries entry (mem_pop.mp hmem).1
  · have hkeys : (backend.insertKey key (keyToPath key) size
        layout).dict.keys.Perm (key :: backend.dict.keys) := by
      have hgone : key ∉ (backend.dict.pop key).keys := not_mem_keys_pop
      rw [OrderedDict.keys, LocalDiskBackend.insertKey, set_of_not_mem hgone, hpop, map_append]
      exact perm_append_singleton _ _
    apply ((hkeys.map keyToPath).append_right busy).nodup_iff.mpr
    exact perm_middle.nodup_iff.mp hkept.distinct

end Kept

/-! Runs. -/

/-- The paths of files that have no entry yet. -/
def busyPaths (keyToPath : κ → π) (saves : List (SaveJob κ itemsize)) : List π :=
  (saves.filter fun job => decide (job.stage = .written)).map fun job => keyToPath job.key

structure AccountInv (keyToPath : κ → π) (run : DiskRun κ π itemsize) : Prop where
  kept : Kept keyToPath run.pendingSize (busyPaths keyToPath run.saves) run.backend
  bounded : run.backend.currentCacheSize ≤ run.backend.config.maxCacheSize
  written : ∀ job ∈ run.saves, job.stage = .written →
    ∃ file, run.backend.files.get? (keyToPath job.key) = some file ∧
      file.length = job.obj.physicalSize
  putTasks : run.backend.putTasks.Perm run.inProgress

section AccountInv

variable {keyToPath : κ → π} {run : DiskRun κ π itemsize}

variable {before after : List (SaveJob κ itemsize)} {job : SaveJob κ itemsize}

section

variable (hinv : AccountInv keyToPath run)

include hinv

theorem AccountInv.accounted : run.Accounted :=
  ⟨hinv.kept.cacheSize, hinv.bounded, hinv.kept.usage, hinv.putTasks⟩

theorem AccountInv.busy_mem_files : ∀ path ∈ busyPaths keyToPath run.saves,
    path ∈ run.backend.files.keys := by
  intro path hpath
  obtain ⟨job, hjob, rfl⟩ := mem_map.mp hpath
  obtain ⟨hmem, hstage⟩ := mem_filter.mp hjob
  obtain ⟨file, hfile, -⟩ := hinv.written job hmem (by simpa using hstage)
  exact mem_keys_of_get? hfile

omit hinv in
theorem accountInv_start (config : DiskConfig) (policy : CachePolicy) : AccountInv keyToPath
      (DiskRun.start config policy : DiskRun κ π itemsize) where
  kept := ⟨rfl, rfl, by rintro _ ⟨⟩, nodup_nil⟩
  bounded := Int.natCast_nonneg _
  written _ hjob := by cases hjob
  putTasks := List.Perm.refl _

theorem AccountInv.sameSizes {backend : LocalDiskBackend κ π}
    (hsame : SameSizes run.backend backend) (reads : List (ReadCall κ π itemsize))
    (returned : List (κ × TensorObject itemsize)) :
    AccountInv keyToPath { run with
      backend := backend, reads := reads, returned := returned } where
  kept := hinv.kept.sameSizes hsame
  bounded := by
    change backend.currentCacheSize ≤ backend.config.maxCacheSize
    rw [hsame.cacheSize, hsame.config]
    exact hinv.bounded
  written job hjob hstage := by
    change ∃ file, backend.files.get? _ = some file ∧ _
    rw [hsame.files]
    exact hinv.written job hjob hstage
  putTasks := by
    change backend.putTasks.Perm run.inProgress
    rw [hsame.putTasks]
    exact hinv.putTasks

theorem AccountInv.stepRead (before after : List (ReadCall κ π itemsize))
    {result : LocalDiskBackend κ π × ReadOutcome κ π itemsize}
    (hsame : SameSizes run.backend result.1) :
    AccountInv keyToPath (run.stepRead before after result) := by
  obtain ⟨next, outcome⟩ := result
  cases outcome with
  | going | returned | raised => exact hinv.sameSizes hsame _ _

theorem AccountInv.write (hsaves : run.saves = before ++ job :: after)
    (hstage : job.stage = .queued) (hfree : keyToPath job.key ∉ run.backend.files.keys)
    (hlength : job.obj.byteArray.length = job.obj.physicalSize) :
    AccountInv keyToPath { run with
      backend := run.writeSave keyToPath job job.obj.byteArray
      saves := before ++ { job with stage := .written } :: after } := by
  have hfile : run.backend.config.writeFile
      (run.backend.files.get? (keyToPath job.key)) job.obj.byteArray
        job.obj.byteArray.length = job.obj.byteArray := by
    rw [get?_eq_none_iff.mpr hfree, DiskConfig.writeFile]
    split
    · rfl
    · simp
  have hbackend : run.writeSave keyToPath job job.obj.byteArray = { run.backend with
        usage := run.backend.usage + job.obj.byteArray.length
        files := run.backend.files.set (keyToPath job.key) job.obj.byteArray } := by
    rw [DiskRun.writeSave, hfile]
  have hbusy : (busyPaths keyToPath (before ++ { job with stage := .written } :: after)).Perm
        (keyToPath job.key :: busyPaths keyToPath run.saves) := by
    rw [hsaves]
    simp only [busyPaths, filter_append, filter_cons, hstage,
      map_append, decide_true, if_true, map_cons]
    exact perm_middle
  have hpending : DiskRun.pendingSize { run with
      saves := before ++ { job with stage := .written } :: after } = run.pendingSize := by
    rw [DiskRun.pendingSize, DiskRun.pendingSize, hsaves]
    simp [SaveJob.pendingSize, hstage]
  rw [hbackend]
  constructor
  · have hkept := hinv.kept.write hfree hinv.busy_mem_files job.obj.byteArray
    rw [← hpending] at hkept
    refine ⟨hkept.cacheSize, hkept.usage, hkept.entries, ?_⟩
    exact ((hbusy.append_left _).nodup_iff).mpr hkept.distinct
  · exact hinv.bounded
  · apply forall_mem_replace
    · intro other hother hwritten
      obtain ⟨file, hfound, hsize⟩ := hinv.written other (mem_of_mem_others hsaves hother) hwritten
      have hne : keyToPath other.key ≠ keyToPath job.key := by
        intro heq
        rw [heq] at hfound
        exact hfree (mem_keys_of_get? hfound)
      exact ⟨file, (get?_set _).trans ((if_neg hne).trans hfound), hsize⟩
    · intro _
      exact ⟨_, (get?_set _).trans (if_pos rfl), hlength⟩
  · have hprogress := hinv.putTasks
    rw [DiskRun.inProgress, hsaves] at hprogress
    rw [DiskRun.inProgress]
    simpa using hprogress

theorem AccountInv.mark {before after : List (SubmitCall κ itemsize)} {key : κ}
    {obj : TensorObject itemsize} (hsubmits : run.submits = before ++ ⟨key, obj, false⟩ :: after) :
    AccountInv keyToPath { run with
      backend := { run.backend with
        putTasks := run.backend.putTasks ++ [key] }
      submits := before ++ ⟨key, obj, true⟩ :: after } where
  kept := ⟨hinv.kept.cacheSize, hinv.kept.usage, hinv.kept.entries, hinv.kept.distinct⟩
  bounded := hinv.bounded
  written := hinv.written
  putTasks := by
    have hprogress := hinv.putTasks
    rw [DiskRun.inProgress, hsubmits] at hprogress
    apply (perm_append_singleton _ _).trans
    apply (hprogress.cons key).trans
    simp only [DiskRun.inProgress, filter_append, filter_cons, map_append, Bool.false_eq_true,
      if_false, if_true, map_cons, append_assoc]
    exact perm_middle.symm

theorem AccountInv.submit (key : κ) (obj : TensorObject itemsize) : AccountInv keyToPath { run with
      submits := run.submits ++ [⟨key, obj, false⟩] } where
  kept := hinv.kept
  bounded := hinv.bounded
  written := hinv.written
  putTasks := by
    have hprogress := hinv.putTasks
    simpa [DiskRun.inProgress] using hprogress

end

variable [DecidableEq κ]

section

variable (hinv : AccountInv keyToPath run)

include hinv

theorem AccountInv.insert (hsaves : run.saves = before ++ job :: after)
    (hstage : job.stage = .written) :
    AccountInv keyToPath { run with
      backend := run.backend.insertKey job.key (keyToPath job.key)
        job.obj.physicalSize job.obj.layout
      saves := before ++ { job with stage := .inserted } :: after } := by
  have hbusy : (keyToPath job.key :: busyPaths keyToPath
      (before ++ { job with stage := .inserted } :: after)).Perm
        (busyPaths keyToPath run.saves) := by
    rw [hsaves]
    simp only [busyPaths, filter_append, filter_cons, hstage,
      map_append, decide_true, if_true, map_cons]
    exact perm_middle.symm
  have hpending : run.pendingSize = DiskRun.pendingSize { run with
      saves := before ++ { job with stage := .inserted } :: after } + job.obj.physicalSize := by
    rw [DiskRun.pendingSize, DiskRun.pendingSize, hsaves]
    simp [SaveJob.pendingSize, hstage]
    omega
  have hjob : job ∈ run.saves := by simp [hsaves]
  constructor
  · have hkept := hinv.kept
    rw [hpending] at hkept
    obtain ⟨file, hfile, hlength⟩ := hinv.written job hjob hstage
    refine Kept.insert ⟨hkept.cacheSize, hkept.usage, hkept.entries, ?_⟩ hfile hlength _
    exact ((hbusy.append_left _).nodup_iff).mpr hkept.distinct
  · exact hinv.bounded
  · apply forall_mem_replace
    · intro other hother
      exact hinv.written other (mem_of_mem_others hsaves hother)
    · intro hwritten
      cases hwritten
  · have hprogress := hinv.putTasks
    rw [DiskRun.inProgress, hsaves] at hprogress
    rw [DiskRun.inProgress]
    simpa [LocalDiskBackend.insertKey] using hprogress

theorem AccountInv.unmark (hsaves : run.saves = before ++ job :: after)
    (hstage : job.stage = .inserted) :
    AccountInv keyToPath { run with
      backend := { run.backend with
        putTasks := run.backend.putTasks.erase job.key }
      saves := before ++ after } := by
  have hbusy : busyPaths keyToPath run.saves = busyPaths keyToPath (before ++ after) := by
    rw [hsaves]
    simp [busyPaths, hstage]
  have hpending : run.pendingSize = DiskRun.pendingSize { run with saves := before ++ after } := by
    rw [DiskRun.pendingSize, DiskRun.pendingSize, hsaves]
    simp [SaveJob.pendingSize, hstage]
  constructor
  · have hkept := hinv.kept
    rw [hbusy, hpending] at hkept
    exact ⟨hkept.cacheSize, hkept.usage, hkept.entries, hkept.distinct⟩
  · exact hinv.bounded
  · intro other hother
    exact hinv.written other (mem_of_mem_others hsaves hother)
  · have hprogress : run.inProgress.Perm (job.key :: ((run.submits.filter (·.marked)).map (·.key) ++
          (before ++ after).map (·.key))) := by
      rw [DiskRun.inProgress, hsaves, map_append, map_append,
        map_cons, ← append_assoc, ← append_assoc]
      exact perm_middle
    have herase := (hinv.putTasks.trans hprogress).erase job.key
    rw [erase_cons_head] at herase
    exact herase

theorem AccountInv.reserve {before after : List (SubmitCall κ itemsize)}
    {call : SubmitCall κ itemsize} (hsubmits : run.submits = before ++ call :: after)
    (hmarked : call.marked = true) (hroom : run.backend.currentCacheSize + call.obj.physicalSize ≤
        run.backend.config.maxCacheSize ∨
      run.backend.policy.policy ≠ .lfu ∧ run.backend.currentCacheSize + call.obj.physicalSize ≤
          run.backend.config.maxCacheSize + run.backend.evictableSize) :
    AccountInv keyToPath (run.stepReserve before call after) := by
  obtain ⟨next, hnext, hmade⟩ : ∃ next, LocalDiskBackend.makeRoom call.obj.physicalSize
          (run.backend.dict.entries.length + 1) run.backend = (next, .made) ∧
        MadeRoom keyToPath (run.pendingSize + call.obj.physicalSize)
          (busyPaths keyToPath run.saves) run.backend next := by
    rcases hroom with hle | ⟨hpolicy, hle⟩
    · exact hinv.kept.makeRoom_of_le hle _
    · exact hinv.kept.makeRoom hpolicy hle (Nat.lt_succ_self _)
  rw [DiskRun.stepReserve, hnext]
  constructor
  · have hbusy : busyPaths keyToPath (run.saves ++ [⟨call.key, call.obj, .queued⟩]) =
          busyPaths keyToPath run.saves := by
      simp [busyPaths]
    have hpending : DiskRun.pendingSize { run with
        saves := run.saves ++ [⟨call.key, call.obj, .queued⟩] } =
          run.pendingSize + call.obj.physicalSize := by
      simp [DiskRun.pendingSize, SaveJob.pendingSize]
    have hkept := hmade.kept
    rw [← hpending, ← hbusy] at hkept
    exact ⟨hkept.cacheSize, hkept.usage, hkept.entries, hkept.distinct⟩
  · exact hmade.bounded
  · intro job hjob hstage
    rcases mem_append.mp hjob with hold | hnew
    · obtain ⟨file, hfile, hlength⟩ := hinv.written job hold hstage
      refine ⟨file, (hmade.files _ ?_).trans hfile, hlength⟩
      exact mem_map_of_mem (mem_filter.mpr ⟨hold, by simpa using hstage⟩)
    · obtain rfl := mem_singleton.mp hnew
      cases hstage
  · have hprogress := hinv.putTasks
    rw [DiskRun.inProgress, hsubmits] at hprogress
    change next.putTasks.Perm _
    rw [hmade.putTasks]
    apply hprogress.trans
    simp only [DiskRun.inProgress, filter_append, filter_cons, hmarked, if_true, map_append,
      map_cons, map_nil, append_assoc, cons_append]
    apply List.Perm.append_left
    rw [← append_assoc]
    exact (perm_append_singleton _ _).symm

theorem AccountInv.stepSave (hsaves : run.saves = before ++ job :: after)
    (hfits : job.stage = .queued → keyToPath job.key ∉ run.backend.files.keys ∧
        job.obj.byteArray.length = job.obj.physicalSize) :
    AccountInv keyToPath (run.stepSave keyToPath before job after) := by
  unfold DiskRun.stepSave
  split
  · next hstage =>
    exact hinv.write hsaves hstage (hfits hstage).1 (hfits hstage).2
  · next hstage => exact hinv.insert hsaves hstage
  · next hstage => exact hinv.unmark hsaves hstage

theorem AccountInv.step {action : DiskAction κ π itemsize} {next : DiskRun κ π itemsize}
    (haccountable : run.Accountable keyToPath action)
    (hstep : run.step keyToPath action = some next) : AccountInv keyToPath next := by
  cases action with
  | submit key obj =>
    simp only [DiskRun.step] at hstep
    split at hstep
    · cases hstep
      exact hinv
    · cases hstep
      exact hinv.submit key obj
  | mark index =>
    simp only [DiskRun.step] at hstep
    split at hstep
    · next hpick =>
      cases hstep
      exact hinv.mark (pick_eq hpick)
    · cases hstep
  | reserve index =>
    simp only [DiskRun.step] at hstep
    split at hstep
    · next hpick =>
      cases hstep
      exact hinv.reserve (pick_eq hpick) rfl (haccountable _ (getElem?_of_pick hpick))
    · cases hstep
  | save index =>
    simp only [DiskRun.step] at hstep
    split at hstep
    · next hpick =>
      cases hstep
      exact hinv.stepSave (pick_eq hpick) (haccountable _ (getElem?_of_pick hpick))
    · cases hstep
  | saveFails index written => exact haccountable.elim
  | getBlocking key =>
    simp only [DiskRun.step] at hstep
    split at hstep
    · split at hstep
      · cases hstep
        exact hinv
      · next hit hhit =>
        cases hstep
        exact hinv.sameSizes (sameSizes_updateOnHit hhit) _ _
    · cases hstep
      exact hinv
  | batchedGet keys =>
    cases hstep
    exact hinv.sameSizes (SameSizes.refl _) _ _
  | read index buffer =>
    simp only [DiskRun.step] at hstep
    split at hstep
    · next hpick =>
      obtain ⟨result, hadvance, rfl⟩ := Option.map_eq_some_iff.mp hstep
      exact hinv.stepRead _ _ (sameSizes_advance (haccountable _ (getElem?_of_pick hpick)) hadvance)
    · cases hstep
  | remove key =>
    cases hstep
    have hnone := get?_eq_none_iff.mpr haccountable
    rw [LocalDiskBackend.remove, hnone]
    exact hinv
  | changePins key change =>
    cases hstep
    exact hinv.sameSizes (sameSizes_changePins key change) _ _
  | touchCache keys =>
    cases hstep
    exact hinv.sameSizes (sameSizes_hitAll _ _) _ _
  | lose path =>
    cases hstep
    have hfiles : run.backend.files.pop path = run.backend.files := by
      apply OrderedDict.ext
      exact pop_of_not_mem haccountable
    rw [hfiles]
    exact hinv

end

end AccountInv

/-- In every run in which all puts fit, are written in full to free paths and
stay until they are evicted, the accounts of the disk backend are right. -/
theorem accounted_of_accountable [DecidableEq κ] (keyToPath : κ → π) (config : DiskConfig)
    (policy : CachePolicy) {actions : List (DiskAction κ π itemsize)} {final : DiskRun κ π itemsize}
    (hmeets : Meets (DiskRun.step keyToPath) (DiskRun.Accountable keyToPath)
      (DiskRun.start config policy) actions)
    (hrun : runFrom (DiskRun.step keyToPath) (DiskRun.start config policy) actions = some final) :
    final.Accounted :=
  (run_invariant (fun _ _ _ hinv haccountable hstep =>
    AccountInv.step hinv haccountable hstep) (accountInv_start config policy) hmeets hrun).accounted

instance decidableAccounted [DecidableEq κ] (run : DiskRun κ π itemsize) :
    Decidable run.Accounted :=
  decidable_of_iff (run.backend.currentCacheSize =
        (run.backend.storedSize + run.pendingSize : Nat) ∧
      run.backend.currentCacheSize ≤ run.backend.config.maxCacheSize ∧
      run.backend.usage = run.backend.fileBytes ∧
      run.backend.putTasks.Perm run.inProgress)
    ⟨fun ⟨hsize, hbounded, husage, hmarks⟩ =>
      ⟨hsize, hbounded, husage, hmarks⟩,
      fun ⟨hsize, hbounded, husage, hmarks⟩ =>
        ⟨hsize, hbounded, husage, hmarks⟩⟩

/-- The third put evicts the first, and the fourth is under way. -/
def putsInTurn : List (DiskAction Nat Nat fun _ => 1) :=
  putOnDisk 0 (twoBytes 5 6) ++ putOnDisk 1 (twoBytes 7 8) ++ putOnDisk 2 (twoBytes 1 2) ++
    [.getBlocking 1, .submit 3 (twoBytes 3 4), .mark 0, .reserve 0, .save 0]

theorem accounted_putsInTurn : ∃ final, runFrom (DiskRun.step id)
      (DiskRun.start ⟨4, 4096, false⟩ .lru) putsInTurn = some final ∧
    final.Accounted := by
  have hmeets : Meets (DiskRun.step id) (DiskRun.Accountable id)
      (DiskRun.start ⟨4, 4096, false⟩ .lru) putsInTurn := by
    decide +kernel
  exact ⟨_, rfl, accounted_of_accountable id _ _ hmeets rfl⟩

/-- A stored key is removed; a key is put again; a put is refused; a write
fails. -/
def unaccountedRuns : List (List (DiskAction Nat Nat fun _ => 1)) :=
  [putOnDisk 0 (twoBytes 5 6) ++ [.remove 0],
    putOnDisk 0 (twoBytes 5 6) ++ putOnDisk 0 (twoBytes 5 6),
    putOnDisk 0 (twoBytes 5 6) ++ [.changePins 0 1] ++
      putOnDisk 1 (twoBytes 5 6) ++ [.changePins 1 1, .submit 2 (twoBytes 7 8),
        .mark 0, .reserve 0],
    [.submit 0 (twoBytes 5 6), .mark 0, .reserve 0, .saveFails 0 none]]

theorem not_accounted_unaccountedRuns :
    unaccountedRuns.Forall fun actions => ∃ final, runFrom (DiskRun.step id)
        (DiskRun.start ⟨4, 4096, false⟩ .lru) actions = some final ∧
      ¬ final.Accounted := by
  have hruns : ∀ actions ∈ unaccountedRuns, ((runFrom (DiskRun.step id)
      (DiskRun.start ⟨4, 4096, false⟩ .lru) actions).any
        fun final => decide (¬ final.Accounted)) = true := by
    decide +kernel
  rw [forall_iff_forall_mem]
  intro actions hactions
  have hany := hruns actions hactions
  cases hfinal : runFrom (DiskRun.step id) (DiskRun.start ⟨4, 4096, false⟩ .lru) actions with
  | none =>
    rw [hfinal] at hany
    cases hany
  | some final =>
    rw [hfinal, Option.any_some, decide_eq_true_eq] at hany
    exact ⟨final, rfl, hany⟩

end CatKV
