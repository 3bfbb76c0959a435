/-
The eviction policies over a dictionary of any entries.  LFU keeps a frequency
for every key and buckets of keys by frequency; a key that is put again leaves
its old bucket as it is.
-/
import CatKV.LocalCpuBackend

namespace CatKV

/-- The buckets of LFU, as pairs in the order in which the keys came in. -/
structure PolicyState (κ : Type) where
  policy : CachePolicy
  keyToFreq : OrderedDict κ Nat
  freqToKeys : List (Nat × κ)

namespace PolicyState

variable {κ υ : Type} [DecidableEq κ] (state : PolicyState κ)

def start (policy : CachePolicy) : PolicyState κ := ⟨policy, OrderedDict.empty, []⟩

def addToBucket (freq : Nat) (key : κ) (freqToKeys : List (Nat × κ)) : List (Nat × κ) :=
  if (freq, key) ∈ freqToKeys then freqToKeys else freqToKeys ++ [(freq, key)]

/-- `update_on_hit`, which raises for a key that is not there. -/
def updateOnHit (key : κ) (dict : OrderedDict κ υ) : Option (PolicyState κ × OrderedDict κ υ) :=
  match state.policy with
  | .fifo => some (state, dict)
  | .lru | .mru =>
    if dict.contains key then some (state, dict.moveToEnd key) else none
  | .lfu =>
    (state.keyToFreq.get? key).bind fun currFreq =>
      if (currFreq, key) ∈ state.freqToKeys then
        some ({ state with
          keyToFreq := state.keyToFreq.set key (currFreq + 1)
          freqToKeys := addToBucket (currFreq + 1) key
            (state.freqToKeys.erase (currFreq, key)) }, dict)
      else none

def updateOnPut (key : κ) : PolicyState κ :=
  if state.policy = .lfu then
    { state with
      keyToFreq := state.keyToFreq.set key 1
      freqToKeys := addToBucket 1 key state.freqToKeys }
  else state

/-- `update_on_force_evict`; a key is in the bucket of its frequency. -/
def updateOnForceEvict (key : κ) : PolicyState κ :=
  if state.policy = .lfu then
    match state.keyToFreq.get? key with
    | none => state
    | some freq =>
      { state with
        keyToFreq := state.keyToFreq.pop key
        freqToKeys := state.freqToKeys.erase (freq, key) }
  else state

/-- The keys in the order in which they are looked at, with their buckets. -/
def evictOrder (dict : OrderedDict κ υ) : List (Nat × κ) :=
  match state.policy with
  | .fifo | .lru => dict.keys.map (Prod.mk 0)
  | .mru => dict.keys.reverse.map (Prod.mk 0)
  | .lfu => state.freqToKeys.insertionSort fun first second => first.1 ≤ second.1

/-- The first key whose entry can be evicted; a key without entry raises. -/
def firstEvictable (canEvict : υ → Bool) (dict : OrderedDict κ υ) :
    List (Nat × κ) → Option (Option (Nat × κ))
  | [] => some none
  | found :: rest =>
    match dict.get? found.2 with
    | none => none
    | some entry =>
      if canEvict entry then some (some found)
      else firstEvictable canEvict dict rest

/-- `get_evict_candidates` for one candidate; LFU forgets what it gives, and
raises for a key that it has forgotten before. -/
def getEvictCandidates (canEvict : υ → Bool) (dict : OrderedDict κ υ) :
    Option (Option κ × PolicyState κ) :=
  match firstEvictable canEvict dict (state.evictOrder dict) with
  | none => none
  | some none => some (none, state)
  | some (some found) =>
    if state.policy = .lfu then
      if state.keyToFreq.contains found.2 then
        some (some found.2, { state with
          keyToFreq := state.keyToFreq.pop found.2
          freqToKeys := state.freqToKeys.erase found })
      else none
    else some (some found.2, state)

variable {state}

theorem perm_of_updateOnHit {key : κ} {dict nextDict : OrderedDict κ υ} {next : PolicyState κ}
    (hhit : state.updateOnHit key dict = some (next, nextDict)) :
    nextDict.entries.Perm dict.entries ∧ next.policy = state.policy := by
  unfold updateOnHit at hhit
  split at hhit
  · cases hhit
    exact ⟨List.Perm.refl _, rfl⟩
  · split at hhit
    · cases hhit
      exact ⟨OrderedDict.perm_moveToEnd, rfl⟩
    · cases hhit
  · split at hhit
    · cases hhit
      exact ⟨OrderedDict.perm_moveToEnd, rfl⟩
    · cases hhit
  · obtain ⟨currFreq, -, hmoved⟩ := Option.bind_eq_some_iff.mp hhit
    split at hmoved
    · cases hmoved
      exact ⟨List.Perm.refl _, rfl⟩
    · cases hmoved

theorem firstEvictable_some {canEvict : υ → Bool} {dict : OrderedDict κ υ} {order : List (Nat × κ)}
    {found : Nat × κ} (hfirst : firstEvictable canEvict dict order = some (some found)) :
    ∃ entry, dict.get? found.2 = some entry ∧ canEvict entry = true := by
  induction order with
  | nil => cases hfirst
  | cons first rest ih =>
    unfold firstEvictable at hfirst
    split at hfirst
    · cases hfirst
    · next entry hentry =>
      split at hfirst
      · next hcan =>
        cases hfirst
        exact ⟨entry, hentry, hcan⟩
      · exact ih hfirst

theorem getEvictCandidates_some {canEvict : υ → Bool}
    {dict : OrderedDict κ υ} {key : κ} {next : PolicyState κ}
    (hfound : state.getEvictCandidates canEvict dict = some (some key, next)) :
    ∃ entry, dict.get? key = some entry ∧ canEvict entry = true := by
  unfold getEvictCandidates at hfound
  split at hfound
  · cases hfound
  · cases hfound
  · next found hfirst =>
    have hentry := firstEvictable_some hfirst
    split at hfound
    · split at hfound
      · cases hfound
        exact hentry
      · cases hfound
    · cases hfound
      exact hentry

theorem firstEvictable_of_contains (canEvict : υ → Bool) {dict : OrderedDict κ υ}
    {order : List (Nat × κ)} (hentries : ∀ found ∈ order, found.2 ∈ dict.keys) :
    (∃ found, firstEvictable canEvict dict order = some (some found)) ∨
      firstEvictable canEvict dict order = some none ∧
        ∀ found ∈ order, ∀ entry, dict.get? found.2 = some entry → canEvict entry = false := by
  induction order with
  | nil => exact Or.inr ⟨rfl, by simp⟩
  | cons first rest ih =>
    obtain ⟨entry, hmem⟩ := OrderedDict.mem_keys.mp (hentries first List.mem_cons_self)
    have hentry := OrderedDict.get?_eq_some_iff.mpr hmem
    rw [firstEvictable, hentry]
    cases hcan : canEvict entry with
    | true => exact Or.inl ⟨first, by simp [hcan]⟩
    | false =>
      simp only [hcan, Bool.false_eq_true, if_false]
      rcases ih fun found hfound =>
        hentries found (List.mem_cons_of_mem _ hfound) with hsome | hnone
      · exact Or.inl hsome
      · right
        refine ⟨hnone.1, ?_⟩
        intro found hfound other hother
        rcases List.mem_cons.mp hfound with rfl | hrest
        · rw [hentry] at hother
          cases hother
          exact hcan
        · exact hnone.2 found hrest other hother

theorem getEvictCandidates_of_ne_lfu (hpolicy : state.policy ≠ .lfu)
    (canEvict : υ → Bool) (dict : OrderedDict κ υ) :
    (∃ key, state.getEvictCandidates canEvict dict = some (some key, state)) ∨
      state.getEvictCandidates canEvict dict = some (none, state) ∧
        ∀ entry ∈ dict.entries, canEvict entry.2 = false := by
  have horder : ∀ key, (∃ freq, (freq, key) ∈ state.evictOrder dict) ↔ key ∈ dict.keys := by
    intro key
    unfold evictOrder
    cases hstate : state.policy with
    | fifo => simp
    | lru => simp
    | mru => simp
    | lfu => exact absurd hstate hpolicy
  rcases firstEvictable_of_contains canEvict
      fun found hfound => (horder found.2).mp ⟨found.1, hfound⟩ with
    ⟨found, hfound⟩ | ⟨hnone, hall⟩
  · left
    refine ⟨found.2, ?_⟩
    rw [getEvictCandidates, hfound]
    simp only [if_neg hpolicy]
  · right
    refine ⟨by rw [getEvictCandidates, hnone], ?_⟩
    intro entry hentry
    obtain ⟨freq, hfreq⟩ := (horder entry.1).mpr (OrderedDict.mem_keys.mpr ⟨entry.2, hentry⟩)
    exact hall (freq, entry.1) hfreq entry.2 (OrderedDict.get?_eq_some_iff.mpr hentry)

end PolicyState

end CatKV
