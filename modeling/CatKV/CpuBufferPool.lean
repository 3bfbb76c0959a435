/-
`CPUBufferPool`: a dictionary in the order of use with a budget of bytes.  Data
that is added under a key that is there leaves the old data in place; a new key
drops the oldest ones until the budget is kept.
-/
import CatKV.OrderedDict

namespace CatKV

variable {κ δ : Type}

/-- The loop that drops the oldest entries, with the counter of bytes. -/
def evictOldest (computeSize : δ → Nat) (maxSize : Nat) : List (κ × δ) → Nat → List (κ × δ) × Nat
  | [], currentSize => ([], currentSize)
  | entry :: rest, currentSize =>
    if maxSize < currentSize then
      evictOldest computeSize maxSize rest (currentSize - computeSize entry.2)
    else (entry :: rest, currentSize)

section Evict

variable {computeSize : δ → Nat} {maxSize : Nat}

theorem evictOldest_suffix (entries : List (κ × δ)) (currentSize : Nat) :
    (evictOldest computeSize maxSize entries currentSize).1 <:+ entries := by
  induction entries generalizing currentSize with
  | nil => exact List.suffix_rfl
  | cons entry rest ih =>
    unfold evictOldest
    split
    · exact (ih _).trans (List.suffix_cons entry rest)
    · exact List.suffix_rfl

theorem evictOldest_size {entries : List (κ × δ)} {currentSize : Nat}
    (hsize : currentSize = (entries.map fun entry => computeSize entry.2).sum) :
    (evictOldest computeSize maxSize entries currentSize).2 =
      ((evictOldest computeSize maxSize entries currentSize).1.map
        fun entry => computeSize entry.2).sum := by
  induction entries generalizing currentSize with
  | nil => exact hsize
  | cons entry rest ih =>
    unfold evictOldest
    split
    · apply ih
      rw [hsize, List.map_cons, List.sum_cons]
      omega
    · exact hsize

end Evict

/-- The counter is the size of what the pool holds. -/
structure CPUBufferPool (κ δ : Type) (computeSize : δ → Nat) where
  maxSize : Nat
  pool : OrderedDict κ δ
  currentSize : Nat
  currentSize_eq : currentSize = pool.total fun entry => computeSize entry.2

namespace CPUBufferPool

variable {computeSize : δ → Nat}

def start (maxSize : Nat) : CPUBufferPool κ δ computeSize := ⟨maxSize, .empty, 0, rfl⟩

variable [DecidableEq κ] (buffers : CPUBufferPool κ δ computeSize)

/-- What is stored under a key. -/
def lookup (key : κ) : Option δ := buffers.pool.get? key

def touch (key : κ) : CPUBufferPool κ δ computeSize :=
  { buffers with
    pool := buffers.pool.moveToEnd key
    currentSize_eq := by
      rw [buffers.currentSize_eq]
      exact (OrderedDict.total_perm OrderedDict.perm_moveToEnd _).symm }

def getData (key : κ) : Option δ × CPUBufferPool κ δ computeSize :=
  (buffers.lookup key, buffers.touch key)

/-- `get_data` for one key after the other. -/
def getDatas : CPUBufferPool κ δ computeSize → List κ →
    List (Option δ) × CPUBufferPool κ δ computeSize
  | buffers, [] => ([], buffers)
  | buffers, key :: rest =>
    let (data, next) := buffers.getData key
    let (datas, final) := getDatas next rest
    (data :: datas, final)

/-- The pool with a new entry, before the oldest ones are dropped. -/
def insertNew (key : κ) (data : δ) : List (κ × δ) × Nat :=
  ((buffers.pool.set key data).entries, buffers.currentSize + computeSize data)

theorem insertNew_size {key : κ} (data : δ) (hkey : key ∉ buffers.pool.keys) :
    (buffers.insertNew key data).2 = ((buffers.insertNew key data).1.map
      fun entry => computeSize entry.2).sum := by
  rw [insertNew, OrderedDict.set_of_not_mem hkey, List.map_append,
    List.sum_append_nat, buffers.currentSize_eq]
  simp [OrderedDict.total]

def addData (key : κ) (data : δ) : CPUBufferPool κ δ computeSize :=
  if hkey : key ∈ buffers.pool.keys then buffers.touch key
  else
    let inserted := buffers.insertNew key data
    let kept := evictOldest computeSize buffers.maxSize inserted.1 inserted.2
    { maxSize := buffers.maxSize
      pool := ⟨kept.1, (buffers.pool.set key data).nodup.sublist
        ((evictOldest_suffix _ _).sublist.map Prod.fst)⟩
      currentSize := kept.2
      currentSize_eq := evictOldest_size (buffers.insertNew_size data hkey) }

variable {buffers}

theorem lookup_touch (key other : κ) : (buffers.touch key).lookup other = buffers.lookup other := by
  apply Option.ext
  intro data
  rw [lookup, lookup, OrderedDict.get?_eq_some_iff, OrderedDict.get?_eq_some_iff]
  exact OrderedDict.perm_moveToEnd.mem_iff

theorem getDatas_eq (keys : List κ) : (getDatas buffers keys).1 = keys.map buffers.lookup ∧
    ∀ key, (getDatas buffers keys).2.lookup key = buffers.lookup key := by
  induction keys generalizing buffers with
  | nil => exact ⟨rfl, fun _ => rfl⟩
  | cons key rest ih =>
    have hrest := @ih (buffers.touch key)
    have hlookup : (buffers.touch key).lookup = buffers.lookup := funext (lookup_touch key)
    rw [hlookup] at hrest
    exact ⟨congrArg (buffers.lookup key :: ·) hrest.1, hrest.2⟩

/-- Data that is found after an addition was there before, or is the data that
was added under a new key. -/
theorem lookup_addData {key other : κ} {data found : δ}
    (hfound : (buffers.addData key data).lookup other = some found) :
    buffers.lookup other = some found ∨ other = key ∧ buffers.lookup key = none ∧ found = data := by
  unfold addData at hfound
  split at hfound
  · rw [lookup_touch] at hfound
    exact Or.inl hfound
  · next hkey =>
    have hmem : (other, found) ∈ (buffers.pool.set key data).entries :=
      (evictOldest_suffix _ _).subset (OrderedDict.get?_eq_some_iff.mp hfound)
    rcases OrderedDict.mem_set.mp hmem with heq | ⟨hold, -⟩
    · right
      rw [Prod.mk.injEq] at heq
      exact ⟨heq.1, OrderedDict.get?_eq_none_iff.mpr hkey, heq.2⟩
    · exact Or.inl (OrderedDict.get?_eq_some_iff.mpr hold)

end CPUBufferPool

end CatKV
