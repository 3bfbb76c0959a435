/-
What the disk backend returns.  While no file that a call is about to read is
taken away or rewritten otherwise, every object that is returned holds what
was put under its key.
-/
import CatKV.LocalDiskBackend

namespace CatKV

open OrderedDict LocalDiskBackend List

variable {κ π : Type} {itemsize : TorchDtype → Nat}

/-- An object that holds what was put under its key. -/
def Genuine (puts : List (κ × TensorObject itemsize)) (result : κ × TensorObject itemsize) : Prop :=
  ∃ put ∈ puts, put.1 = result.1 ∧ put.2.layout = result.2.layout ∧
    put.2.tensorBytes = result.2.tensorBytes

/-- The keys whose files a call has still to read. -/
def ReadCall.pending : ReadCall κ π itemsize → List κ
  | .found _ => []
  | .opening key _ _ => [key]
  | .gathering _ located => located.map (·.key)
  | .reading _ todo _ => todo.map (·.key)
  | .missing _ located todo _ => located.key :: todo.map (·.key)
  | .unpinning _ todo _ => todo.map (·.key)

namespace DiskRun

variable [DecidableEq π] (keyToPath : κ → π) (run : DiskRun κ π itemsize)

/-- A file that a call has looked up and not read yet, or that a save has
written and not entered yet. -/
def Uses (path : π) : Prop :=
  (∃ call ∈ run.reads, ∃ key ∈ call.pending, keyToPath key = path) ∨
    ∃ job ∈ run.saves, job.stage = .written ∧ keyToPath job.key = path

instance decidableUses (path : π) : Decidable (run.Uses keyToPath path) :=
  inferInstanceAs (Decidable (_ ∨ _))

/-- Files in use stay.  Keys that were put have paths of their own, and are put
with one layout; a removal, an eviction, a write that fails and a loss from
outside meet no file that is in use. -/
def Undisturbed : DiskAction κ π itemsize → Prop
  | .reserve index => ∀ call ∈ run.submits[index]?,
      (∀ put ∈ run.puts, keyToPath put.1 = keyToPath call.key →
        put.1 = call.key ∧ put.2.layout = call.obj.layout) ∧
      (run.backend.currentCacheSize + call.obj.physicalSize ≤ run.backend.config.maxCacheSize ∨
        ∀ entry ∈ run.backend.dict.entries, entry.2.canEvict = true →
          ¬ run.Uses keyToPath (keyToPath entry.1))
  | .saveFails index _ => ∀ job ∈ run.saves[index]?, ¬ run.Uses keyToPath (keyToPath job.key) ∧
        ∀ entry ∈ run.backend.dict.entries, keyToPath entry.1 ≠ keyToPath job.key
  | .remove key => key ∈ run.backend.dict.keys → ¬ run.Uses keyToPath (keyToPath key)
  | .lose path => ¬ run.Uses keyToPath path ∧
      ∀ entry ∈ run.backend.dict.entries, keyToPath entry.1 ≠ path
  | _ => True

instance decidableUndisturbed [DecidableEq κ] :
    ∀ action, Decidable (run.Undisturbed keyToPath action)
  | .reserve _ | .saveFails _ _ => inferInstanceAs (Decidable (∀ _ ∈ _, _))
  | .remove _ => inferInstanceAs (Decidable (_ → _))
  | .lose _ => inferInstanceAs (Decidable (_ ∧ _))
  | .submit _ _ | .mark _ | .save _ | .getBlocking _ | .batchedGet _
  | .read _ _ | .changePins _ _ | .touchCache _ => isTrue trivial

end DiskRun

/-! Files that hold what was put. -/

def TensorObject.HeldBy (obj : TensorObject itemsize) (file : List UInt8) : Prop :=
  file.take (obj.layout.getSize itemsize) = obj.tensorBytes

theorem TensorObject.length_tensorBytes (obj : TensorObject itemsize) :
    obj.tensorBytes.length = obj.layout.getSize itemsize := by
  rw [tensorBytes, length_take]
  exact Nat.min_eq_left obj.getSize_le

theorem TensorObject.HeldBy.getSize_le {obj : TensorObject itemsize} {file : List UInt8}
    (hheld : obj.HeldBy file) : obj.layout.getSize itemsize ≤ file.length := by
  have hlength := congrArg List.length hheld
  rw [length_take, obj.length_tensorBytes] at hlength
  omega

theorem heldBy_writeFile (config : DiskConfig) (old : Option (List UInt8))
    (obj : TensorObject itemsize) :
    obj.HeldBy (config.writeFile old obj.byteArray obj.byteArray.length) := by
  unfold TensorObject.HeldBy DiskConfig.writeFile
  split
  · rfl
  · rw [take_append_of_le_length obj.getSize_le]
    rfl

variable [DecidableEq π]

/-- The file of a key holds a put of the key with a layout. -/
def Backed (keyToPath : κ → π) (puts : List (κ × TensorObject itemsize))
    (files : OrderedDict π (List UInt8)) (key : κ) (layout : TensorLayout) :
    Prop :=
  ∃ put ∈ puts, put.1 = key ∧ put.2.layout = layout ∧
    ∃ file, files.get? (keyToPath key) = some file ∧ put.2.HeldBy file

section Backed

variable {keyToPath : κ → π} {puts : List (κ × TensorObject itemsize)}
  {files : OrderedDict π (List UInt8)} {key : κ} {layout : TensorLayout}

theorem Backed.mono (hbacked : Backed keyToPath puts files key layout)
    (more : List (κ × TensorObject itemsize)) :
    Backed keyToPath (puts ++ more) files key layout := by
  obtain ⟨put, hput, hrest⟩ := hbacked
  exact ⟨put, mem_append_left _ hput, hrest⟩

theorem Backed.of_same (hbacked : Backed keyToPath puts files key layout)
    {other : OrderedDict π (List UInt8)}
    (hsame : other.get? (keyToPath key) = files.get? (keyToPath key)) :
    Backed keyToPath puts other key layout := by
  obtain ⟨put, hput, hkey, hlayout, file, hfile, hheld⟩ := hbacked
  exact ⟨put, hput, hkey, hlayout, file, hsame.trans hfile, hheld⟩

theorem Backed.genuine_load {located : Located κ π itemsize}
    (hpath : located.path = keyToPath located.key)
    (hbacked : Backed keyToPath puts files located.key located.layout) :
    ∃ file, files.get? located.path = some file ∧ Genuine puts (located.load file) := by
  obtain ⟨put, hput, hkey, hlayout, file, hfile, hheld⟩ := hbacked
  refine ⟨file, hpath ▸ hfile, put, hput, hkey, hlayout, ?_⟩
  have hsize := hheld.getSize_le
  rw [hlayout] at hsize
  change _ = (readInto file located.buffer).take (located.layout.getSize itemsize)
  rw [← hheld, hlayout, readInto, take_append_of_le_length (by
      rw [length_take]
      exact Nat.le_min.mpr ⟨located.getSize_le, hsize⟩),
    take_take, Nat.min_eq_left located.getSize_le]

end Backed

/-- What a call has looked up is backed, and what it has read is genuine. -/
def Located.Sound (keyToPath : κ → π) (puts : List (κ × TensorObject itemsize))
    (files : OrderedDict π (List UInt8)) (located : Located κ π itemsize) :
    Prop :=
  located.path = keyToPath located.key ∧ Backed keyToPath puts files located.key located.layout

def ReadCall.Sound (keyToPath : κ → π) (puts : List (κ × TensorObject itemsize))
    (files : OrderedDict π (List UInt8)) : ReadCall κ π itemsize → Prop
  | .found _ => True
  | .opening key path layout =>
    path = keyToPath key ∧ Backed keyToPath puts files key layout
  | .gathering _ located => ∀ found ∈ located, found.Sound keyToPath puts files
  | .reading _ todo done | .unpinning _ todo done =>
    (∀ found ∈ todo, found.Sound keyToPath puts files) ∧ ∀ result ∈ done, Genuine puts result
  | .missing _ _ _ _ => False

theorem ReadCall.Sound.of_same {keyToPath : κ → π} {puts more : List (κ × TensorObject itemsize)}
    {files other : OrderedDict π (List UInt8)} {call : ReadCall κ π itemsize}
    (hsound : call.Sound keyToPath puts files) (hkept : ∀ key ∈ call.pending, ∀ layout,
      Backed keyToPath puts files key layout → Backed keyToPath more other key layout)
    (hgenuine : ∀ result, Genuine puts result → Genuine more result) :
    call.Sound keyToPath more other := by
  have hlist : ∀ located : List (Located κ π itemsize),
      (∀ found ∈ located, found.Sound keyToPath puts files) →
      (∀ key ∈ located.map (·.key), ∀ layout, Backed keyToPath puts files key layout →
          Backed keyToPath more other key layout) →
      ∀ found ∈ located, found.Sound keyToPath more other := by
    intro located hall hkeys found hfound
    obtain ⟨hpath, hbacked⟩ := hall found hfound
    exact ⟨hpath, hkeys found.key (mem_map_of_mem hfound) _ hbacked⟩
  cases call with
  | found key => trivial
  | opening key path layout =>
    exact ⟨hsound.1, hkept key (mem_singleton_self key) _ hsound.2⟩
  | gathering keys located => exact hlist located hsound hkept
  | reading _ todo | unpinning _ todo =>
    exact ⟨hlist todo hsound.1 hkept,
      fun result hresult => hgenuine result (hsound.2 result hresult)⟩
  | missing blocking located todo done => exact hsound.elim

/-! Steps that only take entries and their files away. -/

/-- Entries keep their paths and layouts, and a file goes only with an entry
that may go. -/
structure Cleared (may : κ → Prop) (backend next : LocalDiskBackend κ π) : Prop where
  entries : ∀ entry ∈ next.dict.entries, ∃ old, (entry.1, old) ∈ backend.dict.entries ∧
      old.path = entry.2.path ∧ old.layout = entry.2.layout
  files : ∀ path, next.files.get? path = backend.files.get? path ∨
    ∃ entry ∈ backend.dict.entries, may entry.1 ∧ entry.2.path = path ∧ entry.1 ∉ next.dict.keys

section Cleared

variable {may : κ → Prop} {backend next last : LocalDiskBackend κ π}

theorem Cleared.of_perm (hentries : next.dict.entries.Perm backend.dict.entries)
    (hfiles : next.files = backend.files) : Cleared may backend next where
  entries entry hentry := ⟨entry.2, hentries.mem_iff.mp hentry, rfl, rfl⟩
  files _ := Or.inl (by rw [hfiles])

theorem Cleared.keys (hcleared : Cleared may backend next) {key : κ}
    (hkey : key ∈ next.dict.keys) : key ∈ backend.dict.keys := by
  obtain ⟨entry, hentry⟩ := mem_keys.mp hkey
  obtain ⟨old, hold, -⟩ := hcleared.entries _ hentry
  exact mem_keys.mpr ⟨old, hold⟩

theorem Cleared.trans (hfirst : Cleared may backend next)
    (hsecond : Cleared may next last) : Cleared may backend last where
  entries entry hentry := by
    obtain ⟨middle, hmiddle, hpath, hlayout⟩ := hsecond.entries entry hentry
    obtain ⟨old, hold, hpath', hlayout'⟩ := hfirst.entries _ hmiddle
    exact ⟨old, hold, hpath'.trans hpath, hlayout'.trans hlayout⟩
  files path := by
    rcases hsecond.files path with hsame | ⟨entry, hentry, hmay, hpath, hgone⟩
    · rw [hsame]
      rcases hfirst.files path with hold | ⟨entry, hentry, hmay, hpath, hgone⟩
      · exact Or.inl hold
      · exact Or.inr ⟨entry, hentry, hmay, hpath, fun hkey => hgone (hsecond.keys hkey)⟩
    · obtain ⟨old, hold, hpath', -⟩ := hfirst.entries entry hentry
      exact Or.inr ⟨(entry.1, old), hold, hmay, hpath'.trans hpath, hgone⟩

theorem Cleared.imp (hcleared : Cleared may backend next) {other : κ → Prop}
    (himp : ∀ key, may key → other key) : Cleared other backend next where
  entries := hcleared.entries
  files path := by
    rcases hcleared.files path with hsame | ⟨entry, hentry, hmay, hrest⟩
    · exact Or.inl hsame
    · exact Or.inr ⟨entry, hentry, himp _ hmay, hrest⟩

variable [DecidableEq κ]

theorem dict_removeEntry (backend : LocalDiskBackend κ π) (key : κ) (entry : DiskCacheMetadata π) :
    (backend.removeEntry key entry).1.dict = backend.dict.pop key := by
  unfold removeEntry
  dsimp only
  split <;> rfl

theorem cleared_removeEntry {key : κ} {entry : DiskCacheMetadata π}
    (hentry : backend.dict.get? key = some entry) (hmay : may key) :
    Cleared may backend (backend.removeEntry key entry).1 := by
  have hdict := dict_removeEntry backend key entry
  constructor
  · intro other hother
    rw [hdict, mem_pop] at hother
    exact ⟨other.2, hother.1, rfl, rfl⟩
  · intro path
    by_cases hpath : entry.path = path
    · right
      refine ⟨(key, entry), get?_eq_some_iff.mp hentry, hmay, hpath, ?_⟩
      rw [hdict]
      exact not_mem_keys_pop
    · left
      unfold removeEntry
      dsimp only
      split
      · exact (get?_pop path).trans (if_neg (Ne.symm hpath))
      · rfl

theorem cleared_remove (key : κ) : Cleared (· = key) backend (backend.remove key) := by
  unfold remove
  split
  · exact Cleared.of_perm .rfl rfl
  · next entry hentry =>
    have hcleared : Cleared (· = key) backend _ := cleared_removeEntry hentry rfl
    split
    · next removed hremoved =>
      rw [hremoved] at hcleared
      exact hcleared
    · next removed hremoved =>
      rw [hremoved] at hcleared
      exact hcleared.trans (Cleared.of_perm .rfl rfl)

theorem cleared_evictOne (backend : LocalDiskBackend κ π) :
    Cleared (fun key => ∃ entry, (key, entry) ∈ backend.dict.entries ∧
        entry.canEvict = true) backend backend.evictOne.1 ∧
      ∀ entry ∈ backend.evictOne.1.dict.entries, entry ∈ backend.dict.entries := by
  have hperm := List.Perm.refl backend.dict.entries
  unfold evictOne
  split
  · exact ⟨Cleared.of_perm hperm rfl, fun _ hentry => hentry⟩
  · exact ⟨Cleared.of_perm hperm rfl, fun _ hentry => hentry⟩
  · next key policy hcandidate =>
    obtain ⟨entry, hentry, hcan⟩ := PolicyState.getEvictCandidates_some hcandidate
    have hmay : ∃ entry, (key, entry) ∈ backend.dict.entries ∧ entry.canEvict = true :=
      ⟨entry, get?_eq_some_iff.mp hentry, hcan⟩
    have hcharged : { backend with
        policy := policy
        currentCacheSize := backend.currentCacheSize - entry.size
      }.dict.get? key = some entry := hentry
    simp only [hentry]
    refine ⟨Cleared.trans ?_ (cleared_removeEntry hcharged hmay), ?_⟩
    · exact Cleared.of_perm hperm rfl
    · intro other hother
      rw [dict_removeEntry] at hother
      exact (mem_pop.mp hother).1

theorem cleared_makeRoom (requiredSize rounds : Nat) (backend : LocalDiskBackend κ π) :
    Cleared (fun key => ∃ entry, (key, entry) ∈ backend.dict.entries ∧
        entry.canEvict = true) backend
      (makeRoom requiredSize rounds backend).1 := by
  induction rounds generalizing backend with
  | zero => exact Cleared.of_perm .rfl rfl
  | succ rounds ih =>
    obtain ⟨hcleared, hsubset⟩ := cleared_evictOne backend
    unfold makeRoom
    split
    · exact Cleared.of_perm .rfl rfl
    · split
      · next next room hnext =>
        rw [hnext] at hcleared
        exact hcleared
      · next next hnext =>
        rw [hnext] at hcleared hsubset
        apply hcleared.trans
        apply (ih next).imp
        rintro key ⟨entry, hentry, hcan⟩
        exact ⟨entry, hsubset _ hentry, hcan⟩

theorem cleared_makeRoom_of_le {requiredSize rounds : Nat}
    (hroom : backend.currentCacheSize + requiredSize ≤ backend.config.maxCacheSize) :
    Cleared (fun _ => False) backend (makeRoom requiredSize (rounds + 1) backend).1 := by
  rw [makeRoom, if_pos hroom]
  exact Cleared.of_perm .rfl rfl

theorem cleared_changePins (key : κ) (change : Int) :
    Cleared may backend (backend.changePins key change) := by
  unfold changePins
  split
  · exact Cleared.of_perm .rfl rfl
  · next entry hentry =>
    constructor
    · intro other hother
      rcases mem_set.mp hother with rfl | ⟨hmem, -⟩
      · exact ⟨entry, get?_eq_some_iff.mp hentry, rfl, rfl⟩
      · exact ⟨other.2, hmem, rfl, rfl⟩
    · exact fun _ => Or.inl rfl

theorem cleared_updateOnHit (may : κ → Prop) {key : κ}
    (hhit : backend.updateOnHit key = some next) :
    Cleared may backend next ∧ next.files = backend.files := by
  obtain ⟨moved, hmoved, rfl⟩ := Option.map_eq_some_iff.mp hhit
  have hperm := PolicyState.perm_of_updateOnHit hmoved
  exact ⟨Cleared.of_perm hperm.1 rfl, rfl⟩

theorem cleared_hitAll (may : κ → Prop) (keys : List κ) (backend : LocalDiskBackend κ π) :
    Cleared may backend (backend.hitAll keys).1 := by
  induction keys generalizing backend with
  | nil => exact Cleared.of_perm .rfl rfl
  | cons key rest ih =>
    unfold hitAll
    split
    · exact Cleared.of_perm .rfl rfl
    · next hit hhit => exact (cleared_updateOnHit may hhit).1.trans (ih hit)

end Cleared

/-! The invariant of runs. -/

structure ReadInv (keyToPath : κ → π) (run : DiskRun κ π itemsize) : Prop where
  consistent : ∀ put ∈ run.puts, ∀ other ∈ run.puts, keyToPath put.1 = keyToPath other.1 →
      put.1 = other.1 ∧ put.2.layout = other.2.layout
  saves : ∀ job ∈ run.saves, (job.key, job.obj) ∈ run.puts
  entries : ∀ entry ∈ run.backend.dict.entries, entry.2.path = keyToPath entry.1 ∧
      Backed keyToPath run.puts run.backend.files entry.1 entry.2.layout
  written : ∀ job ∈ run.saves, job.stage = .written →
    Backed keyToPath run.puts run.backend.files job.key job.obj.layout
  reads : ∀ call ∈ run.reads, call.Sound keyToPath run.puts run.backend.files
  returned : ∀ result ∈ run.returned, Genuine run.puts result

section ReadInv

variable {keyToPath : κ → π} {run : DiskRun κ π itemsize}

theorem readInv_start (config : DiskConfig) (policy : CachePolicy) : ReadInv keyToPath
      (DiskRun.start config policy : DiskRun κ π itemsize) where
  consistent _ hput := by cases hput
  saves _ hjob := by cases hjob
  entries _ hentry := by cases hentry
  written _ hjob := by cases hjob
  reads _ hcall := by cases hcall
  returned _ hresult := by cases hresult

variable {backend : LocalDiskBackend κ π}

theorem ReadInv.withBackend (hinv : ReadInv keyToPath run)
    (hentries : ∀ entry ∈ backend.dict.entries, entry.2.path = keyToPath entry.1 ∧
        Backed keyToPath run.puts backend.files entry.1 entry.2.layout)
    (hused : ∀ key layout, run.Uses keyToPath (keyToPath key) →
      Backed keyToPath run.puts run.backend.files key layout →
        Backed keyToPath run.puts backend.files key layout) :
    ReadInv keyToPath { run with backend := backend } where
  consistent := hinv.consistent
  saves := hinv.saves
  entries := hentries
  written job hjob hstage :=
    hused _ _ (Or.inr ⟨job, hjob, hstage, rfl⟩) (hinv.written job hjob hstage)
  reads call hcall := (hinv.reads call hcall).of_same (fun key hkey layout hbacked =>
        hused key layout (Or.inl ⟨call, hcall, key, hkey, rfl⟩) hbacked)
      fun _ hgenuine => hgenuine
  returned := hinv.returned

theorem Backed.put {puts : List (κ × TensorObject itemsize)} {files : OrderedDict π (List UInt8)}
    {key : κ} {layout : TensorLayout} (hbacked : Backed keyToPath puts files key layout) :
    ∃ obj, (key, obj) ∈ puts ∧ obj.layout = layout := by
  obtain ⟨put, hput, rfl, hlayout, -⟩ := hbacked
  exact ⟨put.2, hput, hlayout⟩

section

variable (hinv : ReadInv keyToPath run)

include hinv

theorem ReadInv.cleared {may : κ → Prop} (hcleared : Cleared may run.backend backend)
    (hmay : ∀ entry ∈ run.backend.dict.entries, may entry.1 →
      ¬ run.Uses keyToPath (keyToPath entry.1)) :
    ReadInv keyToPath { run with backend := backend } := by
  apply hinv.withBackend
  · intro entry hentry
    obtain ⟨old, hold, hpath, hlayout⟩ := hcleared.entries entry hentry
    obtain ⟨holdPath, hbacked⟩ := hinv.entries _ hold
    refine ⟨hpath.symm.trans holdPath, ?_⟩
    rw [hlayout] at hbacked
    apply hbacked.of_same
    rcases hcleared.files (keyToPath entry.1) with
      hsame | ⟨gone, hgone, -, hgonePath, hnot⟩
    · exact hsame
    · -- the entry that went has the same path, so it is this one
      obtain ⟨obj, hobj, -⟩ := hbacked.put
      obtain ⟨other, hother, -⟩ := (hinv.entries gone hgone).2.put
      have hkey := (hinv.consistent _ hother _ hobj
        ((hinv.entries gone hgone).1.symm.trans hgonePath)).1
      rw [show gone.1 = entry.1 from hkey] at hnot
      exact absurd (mem_keys.mpr ⟨entry.2, hentry⟩) hnot
  · intro key layout huses hbacked
    apply hbacked.of_same
    rcases hcleared.files (keyToPath key) with
      hsame | ⟨gone, hgone, hgoes, hgonePath, -⟩
    · exact hsame
    · have hpath := (hinv.entries gone hgone).1.symm.trans hgonePath
      rw [← hpath] at huses
      exact absurd huses (hmay gone hgone hgoes)

theorem ReadInv.calm (hcleared : Cleared (fun _ => False) run.backend backend) :
    ReadInv keyToPath { run with backend := backend } :=
  hinv.cleared hcleared fun _ _ hfalse => hfalse.elim

theorem ReadInv.withSaves {saves : List (SaveJob κ itemsize)}
    (hsaves : ∀ job ∈ saves, (job.key, job.obj) ∈ run.puts ∧ (job.stage = .written →
        Backed keyToPath run.puts run.backend.files job.key job.obj.layout)) :
    ReadInv keyToPath { run with saves := saves } where
  consistent := hinv.consistent
  saves job hjob := (hsaves job hjob).1
  entries := hinv.entries
  written job hjob := (hsaves job hjob).2
  reads := hinv.reads
  returned := hinv.returned

theorem ReadInv.withReads {reads : List (ReadCall κ π itemsize)}
    {returned : List (κ × TensorObject itemsize)} (hreads : ∀ call ∈ reads,
      call.Sound keyToPath run.puts run.backend.files)
    (hreturned : ∀ result ∈ returned, Genuine run.puts result) :
    ReadInv keyToPath { run with reads := reads, returned := returned } where
  consistent := hinv.consistent
  saves := hinv.saves
  entries := hinv.entries
  written := hinv.written
  reads := hreads
  returned := hreturned

theorem ReadInv.withSubmits (submits : List (SubmitCall κ itemsize)) :
    ReadInv keyToPath { run with submits := submits } where
  consistent := hinv.consistent
  saves := hinv.saves
  entries := hinv.entries
  written := hinv.written
  reads := hinv.reads
  returned := hinv.returned

end

theorem Genuine.mono {puts : List (κ × TensorObject itemsize)} {result : κ × TensorObject itemsize}
    (hgenuine : Genuine puts result) (more : List (κ × TensorObject itemsize)) :
    Genuine (puts ++ more) result := by
  obtain ⟨put, hput, hrest⟩ := hgenuine
  exact ⟨put, mem_append_left _ hput, hrest⟩

theorem ReadInv.withPut (hinv : ReadInv keyToPath run) {key : κ} {obj : TensorObject itemsize}
    (hput : ∀ put ∈ run.puts, keyToPath put.1 = keyToPath key →
      put.1 = key ∧ put.2.layout = obj.layout) :
    ReadInv keyToPath { run with
      puts := run.puts ++ [(key, obj)]
      saves := run.saves ++ [⟨key, obj, .queued⟩] } where
  consistent put hmem other hother hpath := by
    rcases mem_append.mp hmem with hold | hnew
    · rcases mem_append.mp hother with hold' | hnew'
      · exact hinv.consistent put hold other hold' hpath
      · obtain rfl := mem_singleton.mp hnew'
        exact hput put hold hpath
    · obtain rfl := mem_singleton.mp hnew
      rcases mem_append.mp hother with hold' | hnew'
      · obtain ⟨hkey, hlayout⟩ := hput other hold' hpath.symm
        exact ⟨hkey.symm, hlayout.symm⟩
      · obtain rfl := mem_singleton.mp hnew'
        exact ⟨rfl, rfl⟩
  saves := forall_mem_concat (fun job hold => mem_append_left _ (hinv.saves job hold))
    (mem_append_right _ (mem_singleton_self _))
  entries entry hentry := ⟨(hinv.entries entry hentry).1, (hinv.entries entry hentry).2.mono _⟩
  written := forall_mem_concat (fun job hold hstage => (hinv.written job hold hstage).mono _)
    fun hstage => by cases hstage
  reads call hcall :=
    (hinv.reads call hcall).of_same (fun _ _ _ hbacked => hbacked.mono _)
      fun _ hgenuine => hgenuine.mono _
  returned result hresult := (hinv.returned result hresult).mono _

/-! The steps. -/

variable {job : SaveJob κ itemsize}

/-- A save that writes: the file of its key holds its object, which is a put
of the key with the layout of all of them. -/
theorem ReadInv.write (hinv : ReadInv keyToPath run) (hjob : job ∈ run.saves) :
    ReadInv keyToPath { run with
        backend := run.writeSave keyToPath job job.obj.byteArray } ∧
      Backed keyToPath run.puts (run.writeSave keyToPath job job.obj.byteArray).files job.key
        job.obj.layout := by
  have hwritten : Backed keyToPath run.puts
      (run.writeSave keyToPath job job.obj.byteArray).files job.key job.obj.layout := by
    refine ⟨_, hinv.saves job hjob, rfl, rfl, _, (get?_set _).trans (if_pos rfl), ?_⟩
    exact heldBy_writeFile _ _ job.obj
  have hkept : ∀ key layout, Backed keyToPath run.puts run.backend.files key layout →
        Backed keyToPath run.puts
          (run.writeSave keyToPath job job.obj.byteArray).files key layout := by
    intro key layout hbacked
    by_cases hpath : keyToPath key = keyToPath job.key
    · obtain ⟨obj, hobj, hlayout⟩ := hbacked.put
      obtain ⟨hkey, hsame⟩ := hinv.consistent _ hobj _ (hinv.saves job hjob) hpath
      rw [← hlayout, show obj.layout = job.obj.layout from hsame, show key = job.key from hkey]
      exact hwritten
    · apply hbacked.of_same
      exact (get?_set _).trans (if_neg hpath)
  refine ⟨hinv.withBackend ?_ fun key layout _ => hkept key layout, hwritten⟩
  intro entry hentry
  obtain ⟨hpath, hbacked⟩ := hinv.entries entry hentry
  exact ⟨hpath, hkept _ _ hbacked⟩

theorem ReadInv.withFile (hinv : ReadInv keyToPath run) {path : π}
    (hdict : backend.dict = run.backend.dict) (hfiles : ∀ other, other ≠ path →
      backend.files.get? other = run.backend.files.get? other) (huses : ¬ run.Uses keyToPath path)
    (hstored : ∀ entry ∈ run.backend.dict.entries,
      keyToPath entry.1 ≠ path) : ReadInv keyToPath { run with backend := backend } := by
  apply hinv.withBackend
  · intro entry hentry
    rw [hdict] at hentry
    obtain ⟨hpath, hbacked⟩ := hinv.entries entry hentry
    exact ⟨hpath, hbacked.of_same (hfiles _ (hstored entry hentry))⟩
  · intro key layout hused hbacked
    apply hbacked.of_same
    apply hfiles
    rintro rfl
    exact huses hused

/-- What a step of a reading call leaves behind. -/
def ReadOutcome.Sound (keyToPath : κ → π) (puts : List (κ × TensorObject itemsize))
    (files : OrderedDict π (List UInt8)) : ReadOutcome κ π itemsize → Prop
  | .going call => call.Sound keyToPath puts files
  | .returned objs => ∀ result ∈ objs, Genuine puts result
  | .raised => True

/-- A step of a reading call takes nothing away and finds what it looked
up. -/
structure Advances (keyToPath : κ → π) (run : DiskRun κ π itemsize)
    (result : LocalDiskBackend κ π × ReadOutcome κ π itemsize) : Prop where
  cleared : Cleared (fun _ => False) run.backend result.1
  files : result.1.files = run.backend.files
  sound : result.2.Sound keyToPath run.puts run.backend.files

theorem advances_same {outcome : ReadOutcome κ π itemsize}
    (hsound : outcome.Sound keyToPath run.puts run.backend.files) :
    Advances keyToPath run (run.backend, outcome) :=
  ⟨Cleared.of_perm .rfl rfl, rfl, hsound⟩

theorem ReadInv.readFile (blocking : Bool) {located : Located κ π itemsize}
    {todo : List (Located κ π itemsize)} {done : List (κ × TensorObject itemsize)}
    (htodo : ∀ found ∈ located :: todo, found.Sound keyToPath run.puts run.backend.files)
    (hdone : ∀ result ∈ done, Genuine run.puts result) :
    (ReadCall.readFile run.backend blocking located todo done).Sound keyToPath
      run.puts run.backend.files := by
  obtain ⟨hpath, hbacked⟩ := htodo located mem_cons_self
  obtain ⟨file, hfile, hgenuine⟩ := Backed.genuine_load hpath hbacked
  have hrest : ∀ found ∈ todo, found.Sound keyToPath run.puts run.backend.files :=
    fun found hfound => htodo found (mem_cons_of_mem _ hfound)
  have hread : ∀ result ∈ done ++ [located.load file],
      Genuine run.puts result := forall_mem_concat hdone hgenuine
  rw [ReadCall.readFile, hfile]
  dsimp only
  unfold ReadCall.afterRead
  split
  · exact ⟨hrest, hread⟩
  · exact ⟨hrest, hread⟩

variable {result : LocalDiskBackend κ π × ReadOutcome κ π itemsize}

theorem ReadInv.stepRead (hinv : ReadInv keyToPath run)
    {before after : List (ReadCall κ π itemsize)} {call : ReadCall κ π itemsize}
    (hreads : run.reads = before ++ call :: after) (hadvances : Advances keyToPath run result) :
    ReadInv keyToPath (run.stepRead before after result) := by
  have hbackend := hinv.calm hadvances.cleared
  have hsound := hadvances.sound
  rw [← hadvances.files] at hsound
  have hothers : ∀ other ∈ before ++ after, other.Sound keyToPath run.puts result.1.files := by
    intro other hother
    exact hbackend.reads other (mem_of_mem_others hreads hother)
  obtain ⟨next, outcome⟩ := result
  cases outcome with
  | going call =>
    exact hbackend.withReads (forall_mem_replace hothers hsound) hinv.returned
  | returned objs =>
    exact hbackend.withReads hothers (forall_mem_append.mpr ⟨hinv.returned, hsound⟩)
  | raised => exact hbackend.withReads hothers hinv.returned

variable [DecidableEq κ]

section

variable (hinv : ReadInv keyToPath run)

include hinv

theorem ReadInv.insert (hjob : job ∈ run.saves) (hstage : job.stage = .written) (size : Nat) :
    ReadInv keyToPath { run with
      backend := run.backend.insertKey job.key (keyToPath job.key) size job.obj.layout } := by
  apply hinv.withBackend
  · intro entry hentry
    rcases mem_set.mp hentry with rfl | ⟨hmem, -⟩
    · exact ⟨rfl, hinv.written job hjob hstage⟩
    · exact hinv.entries entry (mem_pop.mp hmem).1
  · exact fun _ _ _ hbacked => hbacked

theorem ReadInv.locate (key : κ) : Advances keyToPath run (ReadCall.locate run.backend key) := by
  unfold ReadCall.locate
  split
  · exact advances_same trivial
  · next hit hhit =>
    obtain ⟨hcleared, hfiles⟩ := cleared_updateOnHit (fun _ => False) hhit
    split
    · exact ⟨hcleared, hfiles, trivial⟩
    · next entry hentry =>
      refine ⟨hcleared, hfiles, ?_⟩
      obtain ⟨old, hold, hpath, hlayout⟩ := hcleared.entries _ (get?_eq_some_iff.mp hentry)
      obtain ⟨holdPath, hbacked⟩ := hinv.entries _ hold
      exact ⟨hpath.symm.trans holdPath, hlayout ▸ hbacked⟩

theorem ReadInv.gather {buffer : Option (List UInt8)} {key : κ} {rest : List κ}
    {located : List (Located κ π itemsize)} (hlocated : ∀ found ∈ located,
      found.Sound keyToPath run.puts run.backend.files)
    (hgather : ReadCall.gather run.backend buffer key rest located =
      some result) : Advances keyToPath run result := by
  unfold ReadCall.gather at hgather
  split at hgather
  · next entry hit bytes hentry hhit =>
    obtain ⟨hhits, hhitFiles⟩ := cleared_updateOnHit (fun _ => False) hhit
    have hpins := hhits.trans (cleared_changePins key 1)
    have hpinFiles := (files_changePins key 1).trans hhitFiles
    split at hgather
    · cases hgather
      exact ⟨hpins, hpinFiles, trivial⟩
    · next second hsecond =>
      obtain ⟨hagain, hagainFiles⟩ := cleared_updateOnHit (fun _ => False) hsecond
      obtain ⟨found, hfound, rfl⟩ := Option.map_eq_some_iff.mp hgather
      refine ⟨hpins.trans hagain, hagainFiles.trans hpinFiles, forall_mem_concat hlocated ?_⟩
      obtain ⟨hkey, hpath, hlayout⟩ := Located.of_eq_some hfound
      rw [Located.Sound, hkey, hpath, hlayout]
      exact hinv.entries (key, entry) (get?_eq_some_iff.mp hentry)
  · next entry hit hentry hhit =>
    cases hgather
    obtain ⟨hhits, hhitFiles⟩ := cleared_updateOnHit (fun _ => False) hhit
    exact ⟨hhits, hhitFiles, trivial⟩
  · cases hgather
    exact advances_same trivial

theorem ReadInv.advance {call : ReadCall κ π itemsize}
    (hcall : call.Sound keyToPath run.puts run.backend.files) {buffer : Option (List UInt8)}
    (hadvance : call.advance run.backend buffer = some result) : Advances keyToPath run result := by
  cases call with
  | found key =>
    cases hadvance
    exact hinv.locate key
  | opening key path layout =>
    cases buffer with
    | none =>
      cases hadvance
      exact advances_same trivial
    | some bytes =>
      obtain ⟨located, hlocated, rfl⟩ := Option.map_eq_some_iff.mp hadvance
      obtain ⟨hkey, hpath, hlayout⟩ := Located.of_eq_some hlocated
      apply advances_same
      refine ⟨?_, by simp⟩
      intro found hfound
      obtain rfl := mem_singleton.mp hfound
      rw [Located.Sound, hkey, hpath, hlayout]
      exact hcall
  | gathering keys located =>
    cases keys with
    | nil =>
      cases hadvance
      exact advances_same ⟨hcall, by simp⟩
    | cons key rest => exact hinv.gather hcall hadvance
  | reading blocking todo done =>
    cases todo with
    | nil =>
      cases hadvance
      exact advances_same hcall.2
    | cons located todo =>
      cases hadvance
      exact advances_same (ReadInv.readFile blocking hcall.1 hcall.2)
  | missing blocking located todo done => exact hcall.elim
  | unpinning key todo done =>
    cases hadvance
    unfold ReadCall.unpin
    split
    · exact advances_same trivial
    · exact ⟨cleared_changePins key (-1), files_changePins key (-1), hcall⟩

theorem ReadInv.stepSave {before after : List (SaveJob κ itemsize)}
    (hsaves : run.saves = before ++ job :: after) :
    ReadInv keyToPath (run.stepSave keyToPath before job after) := by
  have hjob : job ∈ run.saves := by simp [hsaves]
  -- the other saves, over any backend that keeps the invariant
  have hothers : ∀ {backend : LocalDiskBackend κ π},
      ReadInv keyToPath { run with backend := backend } →
      ∀ other ∈ before ++ after, (other.key, other.obj) ∈ run.puts ∧ (other.stage = .written →
          Backed keyToPath run.puts backend.files other.key other.obj.layout) := by
    intro backend hbackend other hother
    have hmem := mem_of_mem_others hsaves hother
    exact ⟨hinv.saves other hmem, hbackend.written other hmem⟩
  unfold DiskRun.stepSave
  split
  · obtain ⟨hwrite, hbacked⟩ := hinv.write hjob
    exact hwrite.withSaves (forall_mem_replace (hothers hwrite)
      ⟨hinv.saves job hjob, fun _ => hbacked⟩)
  · next hstage =>
    have hinsert := hinv.insert hjob hstage job.obj.physicalSize
    exact hinsert.withSaves (forall_mem_replace (hothers hinsert)
      ⟨hinv.saves job hjob, fun hwritten => by cases hwritten⟩)
  · have hunmark : ReadInv keyToPath { run with
        backend := { run.backend with
          putTasks := run.backend.putTasks.erase job.key } } :=
      hinv.calm (Cleared.of_perm .rfl rfl)
    exact hunmark.withSaves (hothers hunmark)

theorem ReadInv.stepReserve {before after : List (SubmitCall κ itemsize)}
    {call : SubmitCall κ itemsize} (hput : ∀ put ∈ run.puts, keyToPath put.1 = keyToPath call.key →
      put.1 = call.key ∧ put.2.layout = call.obj.layout)
    (hroom : run.backend.currentCacheSize + call.obj.physicalSize ≤
        run.backend.config.maxCacheSize ∨
      ∀ entry ∈ run.backend.dict.entries, entry.2.canEvict = true →
        ¬ run.Uses keyToPath (keyToPath entry.1)) :
    ReadInv keyToPath (run.stepReserve before call after) := by
  have hmade : ReadInv keyToPath { run with
      backend := (makeRoom call.obj.physicalSize
        (run.backend.dict.entries.length + 1) run.backend).1 } := by
    rcases hroom with hle | hunused
    · exact hinv.calm (cleared_makeRoom_of_le hle)
    · apply hinv.cleared (cleared_makeRoom _ _ _)
      rintro entry hentry ⟨found, hfound, hcan⟩
      obtain rfl := value_unique hfound hentry
      exact hunused entry hentry hcan
  unfold DiskRun.stepReserve
  split
  · next next hnext =>
    rw [hnext] at hmade
    have hpolicy : ReadInv keyToPath { run with
        backend := { next with
          policy := next.policy.updateOnPut call.key } } :=
      hmade.calm (Cleared.of_perm .rfl rfl)
    exact (hpolicy.withPut hput).withSubmits _
  · next next room hnext =>
    rw [hnext] at hmade
    exact hmade.withSubmits _

theorem ReadInv.step {action : DiskAction κ π itemsize} {next : DiskRun κ π itemsize}
    (hundisturbed : run.Undisturbed keyToPath action)
    (hstep : run.step keyToPath action = some next) : ReadInv keyToPath next := by
  have hperm := List.Perm.refl run.backend.dict.entries
  cases action with
  | submit key obj =>
    simp only [DiskRun.step] at hstep
    split at hstep
    · cases hstep
      exact hinv
    · cases hstep
      exact hinv.withSubmits _
  | mark index =>
    simp only [DiskRun.step] at hstep
    split at hstep
    · next key obj _ _ =>
      cases hstep
      have hmarked : ReadInv keyToPath { run with
          backend := { run.backend with
            putTasks := run.backend.putTasks ++ [key] } } :=
        hinv.calm (Cleared.of_perm hperm rfl)
      exact hmarked.withSubmits _
    · cases hstep
  | reserve index =>
    simp only [DiskRun.step] at hstep
    split at hstep
    · next before key obj after hpick =>
      cases hstep
      obtain ⟨hput, hroom⟩ := hundisturbed _ (getElem?_of_pick hpick)
      exact hinv.stepReserve hput hroom
    · cases hstep
  | save index =>
    simp only [DiskRun.step] at hstep
    split at hstep
    · next before job after hpick =>
      cases hstep
      exact hinv.stepSave (pick_eq hpick)
    · cases hstep
  | saveFails index written =>
    simp only [DiskRun.step] at hstep
    split at hstep
    · next before key obj after hpick =>
      obtain ⟨huses, hstored⟩ := hundisturbed _ (getElem?_of_pick hpick)
      have hrest : ∀ {backend : LocalDiskBackend κ π},
          ReadInv keyToPath { run with backend := backend } →
          ReadInv keyToPath { run with
            backend := backend, saves := before ++ after } := by
        intro backend hbackend
        apply hbackend.withSaves
        intro other hother
        have hmem := mem_of_pick_others hpick hother
        exact ⟨hinv.saves other hmem, hbackend.written other hmem⟩
      split at hstep
      · cases hstep
        exact hrest (hinv.calm (Cleared.of_perm hperm rfl))
      · cases hstep
        apply hrest
        refine hinv.withFile ?_ ?_ huses hstored
        · rfl
        intro other hne
        exact (get?_set other).trans (if_neg hne)
    · cases hstep
  | getBlocking key =>
    simp only [DiskRun.step] at hstep
    split at hstep
    · split at hstep
      · cases hstep
        exact hinv
      · next hit hhit =>
        cases hstep
        have hbackend := hinv.calm (cleared_updateOnHit _ hhit).1
        exact hbackend.withReads (forall_mem_concat hbackend.reads trivial) hinv.returned
    · cases hstep
      exact hinv
  | batchedGet keys =>
    cases hstep
    exact hinv.withReads (forall_mem_concat hinv.reads (forall_mem_nil _)) hinv.returned
  | read index buffer =>
    simp only [DiskRun.step] at hstep
    split at hstep
    · next before call after hpick =>
      obtain ⟨result, hadvance, rfl⟩ := Option.map_eq_some_iff.mp hstep
      exact hinv.stepRead (pick_eq hpick)
        (hinv.advance (hinv.reads call (mem_of_pick hpick)) hadvance)
    · cases hstep
  | remove key =>
    cases hstep
    apply hinv.cleared (cleared_remove key)
    rintro entry hentry rfl
    exact hundisturbed (mem_keys.mpr ⟨entry.2, hentry⟩)
  | changePins key change =>
    cases hstep
    exact hinv.calm (cleared_changePins key change)
  | touchCache keys =>
    cases hstep
    exact hinv.calm (cleared_hitAll _ _ _)
  | lose path =>
    cases hstep
    refine hinv.withFile ?_ ?_ hundisturbed.1 hundisturbed.2
    · rfl
    intro other hne
    exact (get?_pop other).trans (if_neg hne)

end

end ReadInv

/-- In every run that leaves files in use alone, every object that the disk
backend returns holds what was put under its key. -/
theorem genuine_of_undisturbed [DecidableEq κ] (keyToPath : κ → π) (config : DiskConfig)
    (policy : CachePolicy) {actions : List (DiskAction κ π itemsize)} {final : DiskRun κ π itemsize}
    (hmeets : Meets (DiskRun.step keyToPath) (DiskRun.Undisturbed keyToPath)
      (DiskRun.start config policy) actions)
    (hrun : runFrom (DiskRun.step keyToPath) (DiskRun.start config policy) actions = some final) :
    ∀ result ∈ final.returned, Genuine final.puts result :=
  (run_invariant (fun _ _ _ hinv hundisturbed hstep =>
    ReadInv.step hinv hundisturbed hstep) (readInv_start config policy) hmeets hrun).returned

instance decidableGenuine [DecidableEq κ] (puts : List (κ × TensorObject itemsize))
    (result : κ × TensorObject itemsize) : Decidable (Genuine puts result) :=
  inferInstanceAs (Decidable (∃ put ∈ puts, _ ∧ _ ∧ _))

/-- A key is read while another is put, evicted and prefetched. -/
def readBesidePuts : List (DiskAction Nat Nat fun _ => 1) :=
  putOnDisk 0 (twoBytes 5 6) ++ putOnDisk 1 (twoBytes 7 8) ++
    [.getBlocking 1, .read 0 none, .batchedGet [1], .read 1 (some [0, 0]),
      .read 0 (some [9, 9]), .read 0 none, .read 0 none] ++
    putOnDisk 2 (twoBytes 1 2) ++
    [.read 0 none, .read 0 none, .read 0 none, .read 0 none]

theorem genuine_readBesidePuts : ∃ final, runFrom (DiskRun.step id)
      (DiskRun.start ⟨4, 4096, false⟩ .lru) readBesidePuts = some final ∧
    final.returned.length = 2 ∧
    ∀ result ∈ final.returned, Genuine final.puts result := by
  have hmeets : Meets (DiskRun.step id) (DiskRun.Undisturbed id)
      (DiskRun.start ⟨4, 4096, false⟩ .lru) readBesidePuts := by
    decide +kernel
  exact ⟨_, rfl, by decide +kernel, genuine_of_undisturbed id _ _ hmeets rfl⟩

/-- A key is removed between the sections of a get and its read: the missing
file goes unnoticed, and the memory is returned as it was allocated. -/
def removedBeforeRead : List (DiskAction Nat Nat fun _ => 1) :=
  putOnDisk 0 (twoBytes 5 6) ++ [.getBlocking 0, .read 0 none, .remove 0, .read 0 (some [9, 9]),
      .read 0 none, .read 0 none, .read 0 none]

theorem not_genuine_removedBeforeRead : ∃ final, runFrom (DiskRun.step id)
      (DiskRun.start ⟨4, 4096, false⟩ .lru) removedBeforeRead = some final ∧
    ¬ ∀ result ∈ final.returned, Genuine final.puts result :=
  ⟨_, rfl, by decide +kernel⟩

end CatKV
