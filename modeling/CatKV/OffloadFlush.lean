/-
What `OffloadManager.flush` and `KVCacheManager.check_keys_exist` promise.  A
request goes from its submitter through the feeder thread of the queue to a
worker, which stores its keys and acknowledges those of layer 0.  `keys_set` has
what was acknowledged and what the submitters entered themselves.

`flush` looks at the queue only, and drops the acknowledgements it finds.
-/
import CatKV.Transition

namespace CatKV.OffloadFlush

open List

structure Request (κ : Type) where
  id : Nat
  keys : List κ

/-- What a worker is left with; it is idle after the last key. -/
def Request.left? {κ : Type} : Request κ → Option (Request κ)
  | ⟨_, []⟩ => none
  | request => some request

/-- The keys by file name: acknowledgements on their way and arrived, and
`keys_set`.  The rest is not kept by the code: what was entered, stored and
acknowledged so far, and acknowledged when the last `flush` returned; the layer-0
keys that were submitted; and those whose acknowledgement has arrived or that
their submitter has saved. -/
structure Keys (κ : Type) where
  acks : List κ
  keysAckQueue : List κ
  keysSet : List κ
  entered : List κ
  stored : List κ
  acknowledged : List κ
  promised : List κ
  submitted : List κ
  confirmed : List κ

/-- With a running `flush`: the first request it need not wait for, and, if it
has just seen an empty queue, the requests that workers had then. -/
structure State (κ : Type) extends Keys κ where
  nextId : Nat
  buffered : List (Request κ)
  requestQueue : List (Request κ)
  workers : List (Option (Request κ))
  flushing : Option (Nat × Option (List Nat))

def State.start {κ : Type} (workers : Nat) : State κ :=
  ⟨⟨[], [], [], [], [], [], [], [], []⟩, 0, [], [], .replicate workers none, none⟩

/-- What becomes of a key in a worker. -/
inductive Outcome where
  | stored | refused | raised

/-- `store_data` and `offload_compress_data` of the manager submit a request
and enter its key, in either order; `store_multi_data` enters keys that it saves
itself. -/
inductive Action (κ : Type) where
  | submit (keys : List κ)
  | enter (key : κ)
  | save (key : κ)
  | feed
  | take (worker : Nat)
  | store (worker : Nat) (outcome : Outcome)
  | deliver (index : Nat)
  | flush
  | poll
  | expire
  | flushOffload
  | checkKeysExist (key : κ)

section Step

variable {κ : Type} (isLayer0 : κ → Bool)

namespace State

variable (state : State κ)

def enterKey (key : κ) : State κ :=
  if isLayer0 key then
    { state with
      keysSet := key :: state.keysSet
      entered := key :: state.entered }
  else state

/-- The manager takes over what has arrived. -/
def drain : State κ :=
  { state with
    keysAckQueue := []
    keysSet := state.keysAckQueue ++ state.keysSet }

def storeKey (key : κ) : State κ :=
  let acked := if isLayer0 key then [key] else []
  { state with
    stored := key :: state.stored
    acks := acked ++ state.acks
    acknowledged := acked ++ state.acknowledged }

/-- The requests in the hands of the workers. -/
def working : List (Request κ) := state.workers.filterMap id

/-- One turn of the loop of `flush`; a second empty queue ends it. -/
def pollQueue (bound : Nat) (seen : Option (List Nat)) : State κ :=
  if state.requestQueue ≠ [] then { state with flushing := some (bound, none) }
  else match seen with
    | some _ => { state with
      flushing := none
      keysAckQueue := []
      promised := state.acknowledged }
    | none => { state with flushing := some (bound, some (state.working.map Request.id)) }

def step : Action κ → Option (State κ)
  | .submit keys => some { state with
      nextId := state.nextId + 1
      buffered := state.buffered ++ [⟨state.nextId, keys⟩]
      submitted := keys.filter isLayer0 ++ state.submitted }
  | .enter key => some (state.enterKey isLayer0 key)
  | .save key => some { state with
      stored := key :: state.stored
      confirmed := key :: state.confirmed }
  | .feed =>
    match state.buffered with
    | request :: rest => some { state with
        buffered := rest
        requestQueue := state.requestQueue ++ [request] }
    | [] => none
  | .take worker =>
    match pick state.workers worker, state.requestQueue with
    | some (before, none, after), request :: rest => some { state with
        requestQueue := rest
        workers := before ++ request.left? :: after }
    | _, _ => none
  | .store worker outcome =>
    match pick state.workers worker with
    | some (before, some ⟨id, key :: rest⟩, after) =>
      match outcome with
      | .raised => some { state with workers := before ++ none :: after }
      | .refused => some { state with
          workers := before ++ Request.left? ⟨id, rest⟩ :: after }
      | .stored => some { state.storeKey isLayer0 key with
          workers := before ++ Request.left? ⟨id, rest⟩ :: after }
    | _ => none
  | .deliver index => (pick state.acks index).map fun (before, key, after) =>
    { state with
      acks := before ++ after
      keysAckQueue := state.keysAckQueue ++ [key]
      confirmed := key :: state.confirmed }
  | .flush =>
    match state.flushing with
    | none => some { state with flushing := some (state.nextId, none) }
    | some _ => none
  | .poll => state.flushing.map fun (bound, seen) =>
    state.pollQueue bound seen
  | .expire => state.flushing.map fun _ =>
    { state with flushing := none, keysAckQueue := [] }
  | .flushOffload | .checkKeysExist _ => some state.drain

def waiting : List (Request κ) := state.buffered ++ state.requestQueue

/-- The requests that have not been handled. -/
def pending : List (Request κ) := state.waiting ++ state.working

/-- When `flush` returns, the requests submitted before it are handled; what
was acknowledged up to then is in `keys_set` after the next drain; a key exists
only if it was stored. -/
def Sound : Action κ → Prop
  | .poll => ∀ bound held, state.flushing = some (bound, some held) →
      state.requestQueue = [] → ∀ request ∈ state.pending, bound ≤ request.id
  | .flushOffload => state.promised ⊆ state.drain.keysSet
  | .checkKeysExist key => state.promised ⊆ state.drain.keysSet ∧
      (key ∈ state.drain.keysSet → key ∈ state.stored)
  | _ => True

/-- No submitter is between its two steps when `flush` is called, and one that
submits while it runs has entered its keys before.  The feeder has handed over
what it had when `flush` first finds the queue empty, and a worker that had a
request then has finished it by the next look.  A key that was entered is asked
for after its acknowledgement or its submitter's own save. -/
def Careful : Action κ → Prop
  | .submit keys => state.flushing.isSome → keys.filter isLayer0 ⊆ state.entered
  | .flush => state.submitted ⊆ state.entered
  | .poll => ∀ found ∈ state.flushing, state.requestQueue = [] →
      (found.2 = none → ∀ request ∈ state.buffered, found.1 ≤ request.id) ∧
        ∀ held ∈ found.2, ∀ request ∈ state.working, request.id ∉ held
  | .checkKeysExist key => key ∈ state.entered → key ∈ state.confirmed
  | _ => True

instance [DecidableEq κ] (action : Action κ) : Decidable (state.Careful isLayer0 action) :=
  match action with
  | .submit _ | .checkKeysExist _ => inferInstanceAs (Decidable (_ → _))
  | .flush => inferInstanceAs (Decidable (state.submitted ⊆ state.entered))
  | .poll => inferInstanceAs (Decidable (∀ _ ∈ _, _ → _ ∧ _))
  | .enter _ | .save _ | .feed | .take _ | .store .. | .deliver _ | .expire | .flushOffload =>
    isTrue trivial

end State

/-- Acknowledged keys are stored and were submitted; `keys_set` has what was
entered and nothing else that is not stored. -/
structure KeysInv (keys : Keys κ) : Prop where
  acks : keys.acks ++ keys.keysAckQueue ⊆ keys.stored
  keysSet : keys.keysSet ⊆ keys.entered ++ keys.stored
  entered : keys.entered ⊆ keys.keysSet
  promised : keys.promised ⊆ keys.keysSet
  acknowledged : keys.acknowledged ⊆ keys.submitted
  confirmed : keys.confirmed ⊆ keys.stored

/-- While `flush` runs, what was submitted is entered.  Once it has seen an empty
queue, only workers have requests of before, and they had them then. -/
structure Waits (state : State κ) (bound : Nat) (seen : Option (List Nat)) : Prop where
  issued : bound ≤ state.nextId
  entered : state.submitted ⊆ state.entered
  waiting : ∀ held ∈ seen, ∀ request ∈ state.waiting, bound ≤ request.id
  working : ∀ held ∈ seen, ∀ request ∈ state.working, bound ≤ request.id ∨ request.id ∈ held

structure Inv (state : State κ) : Prop where
  keys : KeysInv state.toKeys
  submitted : ∀ request ∈ state.pending, request.keys.filter isLayer0 ⊆ state.submitted
  waits : ∀ found ∈ state.flushing, Waits state found.1 found.2

variable {isLayer0} {state next : State κ} {action : Action κ}

theorem KeysInv.drain (hinv : KeysInv state.toKeys) : KeysInv state.drain.toKeys where
  acks := by
    have hacks := (append_subset.mp hinv.acks).1
    simpa [State.drain] using hacks
  keysSet := append_subset.mpr
    ⟨subset_append_of_subset_right _ (append_subset.mp hinv.acks).2, hinv.keysSet⟩
  entered := subset_append_of_subset_right _ hinv.entered
  promised := subset_append_of_subset_right _ hinv.promised
  acknowledged := hinv.acknowledged
  confirmed := hinv.confirmed

/-- When the second look finds the queue empty, nothing of before is left. -/
theorem Waits.pending {bound : Nat} {held : List Nat} (hwaits : Waits state bound (some held))
    (hfinished : ∀ request ∈ state.working, request.id ∉ held) :
    ∀ request ∈ state.pending, bound ≤ request.id := by
  intro request hrequest
  rcases mem_append.mp hrequest with hwaiting | hworking
  · exact hwaits.waiting held rfl request hwaiting
  · exact (hwaits.working held rfl request hworking).resolve_right (hfinished request hworking)

theorem Inv.sound (hinv : Inv isLayer0 state)
    (hcareful : state.Careful isLayer0 action) : state.Sound action := by
  cases action with
  | poll =>
    intro bound held hflushing hempty
    exact (hinv.waits _ hflushing).pending ((hcareful _ hflushing hempty).2 held rfl)
  | flushOffload => exact hinv.keys.drain.promised
  | checkKeysExist key =>
    refine ⟨hinv.keys.drain.promised, fun hkey => ?_⟩
    rcases mem_append.mp (hinv.keys.drain.keysSet hkey) with hentered | hstored
    · exact hinv.keys.confirmed (hcareful hentered)
    · exact hstored
  | submit | enter | save | feed | take | store | deliver | flush | expire =>
    trivial

/-! Steps that move requests on. -/

/-- Nothing is submitted, what waits has waited before, and what workers have
was pending with at least these keys. -/
theorem Inv.move (hinv : Inv isLayer0 state) (hkeys : KeysInv next.toKeys)
    (hsubmitted : next.submitted = state.submitted) (hentered : state.entered ⊆ next.entered)
    (hwaiting : next.waiting ⊆ state.waiting)
    (hworking : ∀ request ∈ next.working, ∃ old ∈ state.pending,
      old.id = request.id ∧ request.keys ⊆ old.keys)
    (hflushing : next.flushing = state.flushing) (hnextId : next.nextId = state.nextId) :
    Inv isLayer0 next where
  keys := hkeys
  submitted request hrequest := by
    rw [hsubmitted]
    rcases mem_append.mp hrequest with hold | hold
    · exact hinv.submitted request (mem_append_left _ (hwaiting hold))
    · obtain ⟨old, hpending, -, hless⟩ := hworking request hold
      exact List.Subset.trans (filter_subset _ hless) (hinv.submitted old hpending)
  waits found hfound := by
    rw [hflushing] at hfound
    obtain ⟨hissued, hall, hqueued, hheld⟩ := hinv.waits found hfound
    refine ⟨hnextId ▸ hissued, hsubmitted ▸ List.Subset.trans hall hentered,
      fun held hseen request hrequest => hqueued held hseen request (hwaiting hrequest),
      fun held hseen request hrequest => ?_⟩
    obtain ⟨old, hpending, hid, -⟩ := hworking request hrequest
    rw [← hid]
    rcases mem_append.mp hpending with hold | hold
    · exact Or.inl (hqueued held hseen old hold)
    · exact hheld held hseen old hold

/-- Only keys change. -/
theorem Inv.withKeys (hinv : Inv isLayer0 state) {keys : Keys κ} (hkeys : KeysInv keys)
    (hsubmitted : keys.submitted = state.submitted) (hentered : state.entered ⊆ keys.entered) :
    Inv isLayer0 { state with toKeys := keys } :=
  hinv.move hkeys hsubmitted hentered (List.Subset.refl _)
    (fun request hrequest => ⟨request, mem_append_right _ hrequest, rfl, List.Subset.refl _⟩)
    rfl rfl

theorem mem_of_left? {request left : Request κ} (hleft : request.left? = some left) :
    left = request := by
  obtain ⟨id, keys⟩ := request
  cases keys with
  | nil => cases hleft
  | cons key rest => exact (Option.some.inj hleft).symm

/-- A worker gets a request whose keys were pending under its id. -/
theorem Inv.replace (hinv : Inv isLayer0 state) {before after : List (Option (Request κ))}
    {slot : Option (Request κ)} {request old : Request κ} {keys : Keys κ}
    {requestQueue : List (Request κ)} (hworkers : state.workers = before ++ slot :: after)
    (hold : old ∈ state.pending) (hid : old.id = request.id) (hless : request.keys ⊆ old.keys)
    (hqueue : requestQueue ⊆ state.requestQueue) (hkeys : KeysInv keys)
    (hsubmitted : keys.submitted = state.submitted) (hentered : keys.entered = state.entered) :
    Inv isLayer0 { state with
      toKeys := keys
      requestQueue
      workers := before ++ request.left? :: after } := by
  refine hinv.move hkeys hsubmitted (hentered ▸ List.Subset.refl _) ?_ (fun other hother => ?_)
    rfl rfl
  · exact append_subset.mpr ⟨subset_append_left .., subset_append_of_subset_right _ hqueue⟩
  · simp only [State.working, mem_filterMap, mem_append, mem_cons, id] at hother
    obtain ⟨_, hmem, rfl⟩ := hother
    have hothers : some other ∈ before ++ after → other ∈ state.pending := by
      intro hfound
      refine mem_append_right _ (mem_filterMap.mpr ⟨some other, ?_, rfl⟩)
      rw [hworkers]
      grind
    rcases hmem with hbefore | heq | hafter
    · exact ⟨other, hothers (mem_append_left _ hbefore), rfl, List.Subset.refl _⟩
    · rw [mem_of_left? heq.symm]
      exact ⟨old, hold, hid, hless⟩
    · exact ⟨other, hothers (mem_append_right _ hafter), rfl, List.Subset.refl _⟩

theorem KeysInv.storeKey (hinv : KeysInv state.toKeys) {key : κ}
    (hsubmitted : isLayer0 key → key ∈ state.submitted) :
    KeysInv (state.storeKey isLayer0 key).toKeys where
  acks := by
    have hacks := subset_cons_of_subset key hinv.acks
    simp only [State.storeKey]
    split
    · exact cons_subset.mpr ⟨mem_cons_self, hacks⟩
    · exact hacks
  keysSet := List.Subset.trans hinv.keysSet (append_subset.mpr
    ⟨subset_append_left .., subset_append_of_subset_right _ (subset_cons_self ..)⟩)
  entered := hinv.entered
  promised := hinv.promised
  acknowledged := by
    simp only [State.storeKey]
    split
    · next hlayer => exact cons_subset.mpr ⟨hsubmitted hlayer, hinv.acknowledged⟩
    · exact hinv.acknowledged
  confirmed := subset_cons_of_subset key hinv.confirmed

/-! Steps. -/

theorem Inv.submit (hinv : Inv isLayer0 state) {keys : List κ}
    (hcareful : state.Careful isLayer0 (.submit keys))
    (hstep : state.step isLayer0 (.submit keys) = some next) : Inv isLayer0 next := by
  cases hstep
  obtain ⟨hkeys, hsubmitted, hwaits⟩ := hinv
  refine ⟨{ hkeys with acknowledged := subset_append_of_subset_right _ hkeys.acknowledged },
    fun request hrequest => ?_, fun found hfound => ?_⟩
  · have hcases : request ∈ state.pending ∨ request = ⟨state.nextId, keys⟩ := by
      simp only [State.pending, State.waiting, State.working, mem_append, mem_singleton] at hrequest ⊢
      grind
    rcases hcases with hold | rfl
    · exact subset_append_of_subset_right _ (hsubmitted request hold)
    · exact subset_append_left ..
  · obtain ⟨hissued, hall, hqueued, hheld⟩ := hwaits found hfound
    have hentered := hcareful (Option.isSome_iff_exists.mpr ⟨found, hfound⟩)
    refine ⟨Nat.le_succ_of_le hissued, append_subset.mpr ⟨hentered, hall⟩,
      fun held hseen request hrequest => ?_, hheld⟩
    simp only [State.waiting, mem_append, mem_singleton] at hrequest
    rcases hrequest with (hold | rfl) | hold
    · exact hqueued held hseen request (mem_append_left _ hold)
    · exact hissued
    · exact hqueued held hseen request (mem_append_right _ hold)

theorem Inv.store (hinv : Inv isLayer0 state) {worker : Nat} {outcome : Outcome}
    (hstep : state.step isLayer0 (.store worker outcome) = some next) : Inv isLayer0 next := by
  simp only [State.step] at hstep
  split at hstep
  · next before id key rest after hpick =>
    have hworkers := pick_eq hpick
    have hold : ⟨id, key :: rest⟩ ∈ state.pending :=
      mem_append_right _ (by rw [State.working, hworkers]; simp)
    have hsubmitted : isLayer0 key → key ∈ state.submitted := fun hlayer =>
      hinv.submitted _ hold (mem_filter.mpr ⟨mem_cons_self, hlayer⟩)
    cases outcome with
    | stored =>
      cases hstep
      exact hinv.replace hworkers hold rfl (subset_cons_self ..) (List.Subset.refl _)
        (hinv.keys.storeKey hsubmitted) rfl rfl
    | refused =>
      cases hstep
      exact hinv.replace hworkers hold rfl (subset_cons_self ..) (List.Subset.refl _)
        hinv.keys rfl rfl
    | raised =>
      cases hstep
      have hnone : (⟨id, []⟩ : Request κ).left? = none := rfl
      rw [← hnone]
      exact hinv.replace hworkers hold rfl (nil_subset _) (List.Subset.refl _) hinv.keys rfl rfl
  · cases hstep

theorem Inv.poll (hinv : Inv isLayer0 state) {bound : Nat} {seen : Option (List Nat)}
    (hflushing : state.flushing = some (bound, seen)) (hcareful : state.Careful isLayer0 .poll) :
    Inv isLayer0 (state.pollQueue bound seen) := by
  have hwaits := hinv.waits _ hflushing
  unfold State.pollQueue
  split
  · refine ⟨hinv.keys, hinv.submitted, fun found hfound => ?_⟩
    cases hfound
    exact ⟨hwaits.issued, hwaits.entered, by simp, by simp⟩
  · next hempty =>
    rw [not_not] at hempty
    cases seen with
    | none =>
      refine ⟨hinv.keys, hinv.submitted, fun found hfound => ?_⟩
      cases hfound
      refine ⟨hwaits.issued, hwaits.entered, fun held _ request hrequest => ?_,
        fun held hseen request hrequest => Or.inr ?_⟩
      · rw [State.waiting, hempty, append_nil] at hrequest
        exact (hcareful _ hflushing hempty).1 rfl request hrequest
      · cases hseen
        exact mem_map_of_mem hrequest
    | some held =>
      have hpromised : state.acknowledged ⊆ state.keysSet := List.Subset.trans
        hinv.keys.acknowledged (List.Subset.trans hwaits.entered hinv.keys.entered)
      exact ⟨{ hinv.keys with acks := hinv.keys.drain.acks, promised := hpromised },
        hinv.submitted, fun found hfound => by cases hfound⟩

theorem Inv.step (hinv : Inv isLayer0 state) (hcareful : state.Careful isLayer0 action)
    (hstep : state.step isLayer0 action = some next) : Inv isLayer0 next := by
  have hkeys := hinv.keys
  cases action with
  | submit keys => exact hinv.submit hcareful hstep
  | enter key =>
    cases hstep
    unfold State.enterKey
    split
    · exact hinv.withKeys { hkeys with
        keysSet := cons_subset_cons key hkeys.keysSet
        entered := cons_subset_cons key hkeys.entered
        promised := subset_cons_of_subset key hkeys.promised } rfl (subset_cons_self ..)
    · exact hinv
  | save key =>
    cases hstep
    refine hinv.withKeys { hkeys with
      acks := subset_cons_of_subset key hkeys.acks
      keysSet := ?_
      confirmed := cons_subset_cons key hkeys.confirmed } rfl (List.Subset.refl _)
    exact List.Subset.trans hkeys.keysSet (append_subset.mpr
      ⟨subset_append_left .., subset_append_of_subset_right _ (subset_cons_self ..)⟩)
  | feed =>
    simp only [State.step] at hstep
    split at hstep
    · next request rest hbuffered =>
      cases hstep
      refine hinv.move hkeys rfl (List.Subset.refl _) ?_ (fun other hother =>
        ⟨other, mem_append_right _ hother, rfl, List.Subset.refl _⟩) rfl rfl
      simp only [State.waiting, hbuffered]
      grind
    · cases hstep
  | take worker =>
    simp only [State.step] at hstep
    split at hstep
    · next before after request rest hpick hqueue =>
      cases hstep
      refine hinv.replace (pick_eq hpick) ?_ rfl (List.Subset.refl _) ?_ hkeys rfl rfl
      · simp [State.pending, State.waiting, hqueue]
      · rw [hqueue]
        exact subset_cons_self ..
    · cases hstep
  | store worker outcome => exact hinv.store hstep
  | deliver index =>
    obtain ⟨⟨before, key, after⟩, hpick, rfl⟩ := Option.map_eq_some_iff.mp hstep
    have hacks := hkeys.acks
    rw [pick_eq hpick] at hacks
    refine hinv.withKeys { hkeys with
      acks := ?_
      confirmed := cons_subset.mpr ⟨hacks (by simp), hkeys.confirmed⟩ } rfl (List.Subset.refl _)
    grind
  | flush =>
    simp only [State.step] at hstep
    split at hstep
    · cases hstep
      refine ⟨hkeys, hinv.submitted, fun found hfound => ?_⟩
      cases hfound
      exact ⟨Nat.le_refl _, hcareful, by simp, by simp⟩
    · cases hstep
  | poll =>
    obtain ⟨⟨bound, seen⟩, hflushing, rfl⟩ := Option.map_eq_some_iff.mp hstep
    exact hinv.poll hflushing hcareful
  | expire =>
    obtain ⟨_, _, rfl⟩ := Option.map_eq_some_iff.mp hstep
    exact ⟨{ hkeys with acks := hkeys.drain.acks }, hinv.submitted, by simp⟩
  | flushOffload | checkKeysExist =>
    cases hstep
    exact hinv.withKeys hkeys.drain rfl (List.Subset.refl _)

end Step

/-- In every run in which submitters have entered their keys when `flush` runs,
the feeder and the workers keep up with its looks and keys are asked for after
their acknowledgement, a `flush` that returns has waited for what was submitted
before it, no acknowledged key is missing from `keys_set`, and a key that exists
is stored. -/
theorem sound_of_careful {κ : Type} (isLayer0 : κ → Bool) (workers : Nat)
    (actions : List (Action κ))
    (hcareful : Meets (State.step isLayer0) (State.Careful isLayer0) (.start workers) actions) :
    Meets (State.step isLayer0) State.Sound (.start workers) actions := by
  have hstart : Inv isLayer0 (State.start workers : State κ) := by
    refine ⟨?_, fun request hrequest => ?_, by simp [State.start]⟩
    · constructor <;> simp [State.start]
    · simp [State.start, State.pending, State.waiting, State.working] at hrequest
  exact Meets.of_invariant (fun _ _ _ hinv hcareful hstep => hinv.step hcareful hstep)
    (fun _ _ hinv hcareful => hinv.sound hcareful) hstart hcareful

def step : State Nat → Action Nat → Option (State Nat) := State.step fun _ => true

/-- A key is submitted, stored and acknowledged. -/
def storeKey : List (Action Nat) := [.submit [7], .feed, .take 0, .store 0 .stored, .deliver 0]

def flushTwice : List (Action Nat) := [.flush, .poll, .poll]

/-- A worker finishes between the two looks of `flush`. -/
theorem sound_entered : Meets step State.Sound (.start 1)
    [.enter 7, .submit [7], .feed, .flush, .take 0, .poll, .store 0 .stored, .poll,
      .flushOffload, .deliver 0, .checkKeysExist 7] :=
  sound_of_careful (fun _ => true) 1 _ (by decide +kernel)

/-- `flush` returns while a worker has the request; it drops the
acknowledgement of a key that was not entered; a key exists before it is
stored. -/
theorem not_sound_flush : (∃ state, runFrom step (.start 1) [.submit [7], .feed, .take 0, .flush,
      .poll] = some state ∧ ¬ state.Sound .poll) ∧
    (∃ state, runFrom step (.start 1) (storeKey ++ flushTwice) = some state ∧
      ¬ state.Sound .flushOffload) ∧
    ∃ state, runFrom step (.start 1) [.submit [7], .enter 7] = some state ∧
      ¬ state.Sound (.checkKeysExist 7) := by
  refine ⟨⟨_, rfl, fun hsound => ?_⟩, ⟨_, rfl, fun hsound => ?_⟩, ⟨_, rfl, fun hsound => ?_⟩⟩
  · exact absurd (hsound 1 [0] rfl rfl ⟨0, [7]⟩ (.head _)) (by decide)
  · exact absurd (@hsound 7 (.head _)) not_mem_nil
  · exact absurd (hsound.2 (.head _)) not_mem_nil

end CatKV.OffloadFlush
