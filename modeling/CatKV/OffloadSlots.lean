/-
The shared-memory slots of `OffloadManager`.  A submitter takes a free slot,
copies into it and sends a message; a worker clones the slot and hands it back
through the done queue, from which the reclaim thread frees it.

A worker hands its slot back before it compresses, and its error handler hands
it back once more; a submitter that fails after it took a slot keeps no note of
it.  All else keeps every slot in exactly one place.  The queues are shared by
processes, so a reader may get any of their entries.
-/
import CatKV.Transition
import Mathlib.Data.List.Perm.Basic

namespace CatKV

open List

namespace Offload

structure PoolConfig where
  numSlots : Nat
  maxSeqLen : Nat
  queueSize : Nat

/-- What matters of a message to the slots. -/
structure MetadataMsg where
  slotIdx : Nat
  seqLen : Nat
deriving Repr, DecidableEq

/-- A thread in one of the `submit_` methods: before `acquire`, before the
copies of `_copy_to_slot`, and before the message is put. -/
inductive Submitter where
  | idle
  | copying (slotIdx seqLen : Nat)
  | sending (msg : MetadataMsg)
deriving Repr, DecidableEq

/-- A worker: waiting for a message, before the clones, before it hands the
slot back, at compressing and storing, and in the handler of an exception, with
the slot handed back or not. -/
inductive Worker where
  | idle
  | cloning (msg : MetadataMsg)
  | cloned (msg : MetadataMsg)
  | storing (msg : MetadataMsg)
  | failed (msg : MetadataMsg) (handedBack : Bool)
deriving Repr, DecidableEq

structure SlotState where
  freeSlots : List Nat
  submitters : List Submitter
  requestQueue : List MetadataMsg
  workers : List Worker
  doneQueue : List Nat
  reclaiming : Option Nat
deriving Repr, DecidableEq

/-- `ok` says whether the operations of the stage return; an index of a queue
says which of its entries the reader gets. -/
inductive SlotAction where
  | acquire (submitter index seqLen : Nat)
  | copyToSlot (submitter : Nat) (ok : Bool)
  | putRequest (submitter : Nat) (ok : Bool)
  | getRequest (worker index : Nat)
  | clone (worker : Nat) (ok : Bool)
  | putDone (worker : Nat)
  | store (worker : Nat) (ok : Bool)
  | handleError (worker : Nat)
  | reclaimGet (index : Nat)
  | release
deriving Repr, DecidableEq

namespace SlotState

def start (config : PoolConfig) (submitters workers : Nat) : SlotState where
  freeSlots := List.range config.numSlots
  submitters := List.replicate submitters .idle
  requestQueue := []
  workers := List.replicate workers .idle
  doneQueue := []
  reclaiming := none

variable (config : PoolConfig) (state : SlotState)

/-- The slice of a slot has at most `max_seq_len` rows, so a longer sequence
cannot be copied into it. -/
def copySubmitter (ok : Bool) (slotIdx seqLen : Nat) : Submitter :=
  if seqLen ≤ config.maxSeqLen ∧ ok then .sending ⟨slotIdx, seqLen⟩ else .idle

def step : SlotAction → Option SlotState
  | .acquire submitter index seqLen =>
    match pick state.submitters submitter, pick state.freeSlots index with
    | some (before, .idle, after), some (first, slotIdx, rest) =>
      some { state with
        freeSlots := first ++ rest
        submitters := before ++ .copying slotIdx seqLen :: after }
    | _, _ => none
  | .copyToSlot submitter ok =>
    match pick state.submitters submitter with
    | some (before, .copying slotIdx seqLen, after) =>
      some { state with
        submitters := before ++ copySubmitter config ok slotIdx seqLen :: after }
    | _ => none
  | .putRequest submitter ok =>
    match pick state.submitters submitter with
    | some (before, .sending msg, after) =>
      if ok then
        if state.requestQueue.length < config.queueSize then
          some { state with
            submitters := before ++ .idle :: after
            requestQueue := state.requestQueue ++ [msg] }
        else none
      else some { state with submitters := before ++ .idle :: after }
    | _ => none
  | .getRequest worker index =>
    match pick state.workers worker, pick state.requestQueue index with
    | some (before, .idle, after), some (first, msg, rest) =>
      some { state with
        requestQueue := first ++ rest
        workers := before ++ .cloning msg :: after }
    | _, _ => none
  | .clone worker ok =>
    match pick state.workers worker with
    | some (before, .cloning msg, after) =>
      some { state with
        workers := before ++ (if ok then .cloned msg else .failed msg false) :: after }
    | _ => none
  | .putDone worker =>
    match pick state.workers worker with
    | some (before, .cloned msg, after) =>
      some { state with
        workers := before ++ .storing msg :: after
        doneQueue := state.doneQueue ++ [msg.slotIdx] }
    | _ => none
  | .store worker ok =>
    match pick state.workers worker with
    | some (before, .storing msg, after) =>
      some { state with
        workers := before ++ (if ok then .idle else .failed msg true) :: after }
    | _ => none
  | .handleError worker =>
    match pick state.workers worker with
    | some (before, .failed msg _, after) =>
      some { state with
        workers := before ++ .idle :: after
        doneQueue := state.doneQueue ++ [msg.slotIdx] }
    | _ => none
  | .reclaimGet index =>
    match state.reclaiming, pick state.doneQueue index with
    | none, some (first, slotIdx, rest) =>
      some { state with
        doneQueue := first ++ rest
        reclaiming := some slotIdx }
    | _, _ => none
  | .release =>
    match state.reclaiming with
    | some slotIdx =>
      some { state with
        freeSlots := state.freeSlots ++ [slotIdx]
        reclaiming := none }
    | none => none

end SlotState

/-! Where the slots are. -/

/-- The slot that a submitter has. -/
def Submitter.slots : Submitter → List Nat
  | .idle => []
  | .copying slotIdx _ => [slotIdx]
  | .sending msg => [msg.slotIdx]

/-- What it copies fits into the slot. -/
def Submitter.Fits (config : PoolConfig) : Submitter → Prop
  | .copying _ seqLen => seqLen ≤ config.maxSeqLen
  | _ => True

instance (config : PoolConfig) : (submitter : Submitter) → Decidable (submitter.Fits config)
  | .copying _ _ => inferInstanceAs (Decidable (_ ≤ _))
  | .idle | .sending _ => inferInstanceAs (Decidable True)

/-- The slot that a worker has not yet handed back. -/
def Worker.slots : Worker → List Nat
  | .idle => []
  | .cloning msg => [msg.slotIdx]
  | .cloned msg => [msg.slotIdx]
  | .storing _ | .failed _ true => []
  | .failed msg false => [msg.slotIdx]

/-- It failed after it handed its slot back. -/
def Worker.late : Worker → Bool
  | .failed _ handedBack => handedBack
  | _ => false

namespace SlotState

def places (state : SlotState) : List Nat :=
  state.freeSlots ++ state.submitters.flatMap Submitter.slots ++
    state.requestQueue.map MetadataMsg.slotIdx ++
    state.workers.flatMap Worker.slots ++ state.doneQueue ++
    state.reclaiming.toList

/-- A message that still has to be cloned is in the queue or at a worker. -/
def ToClone (state : SlotState) (msg : MetadataMsg) : Prop :=
  msg ∈ state.requestQueue ∨ .cloning msg ∈ state.workers

/-- Every slot is in exactly one place, and no submitter writes into a slot
that is still to be cloned. -/
structure Conserved (config : PoolConfig) (state : SlotState) : Prop where
  once : state.places.Perm (List.range config.numSlots)
  unwritten : ∀ slotIdx seqLen, .copying slotIdx seqLen ∈ state.submitters →
    ∀ msg, state.ToClone msg → msg.slotIdx ≠ slotIdx

/-- A submission does not fail once it has a slot, and no handler is for a worker
that has handed its slot back. -/
def Orderly (config : PoolConfig) (state : SlotState) : SlotAction → Prop
  | .copyToSlot submitter ok => ok = true ∧
      ∀ stage ∈ state.submitters[submitter]?, stage.Fits config
  | .putRequest _ ok => ok = true
  | .handleError worker => ∀ stage ∈ state.workers[worker]?, stage.late = false
  | _ => True

instance (config : PoolConfig) (state : SlotState) : (action : SlotAction) →
    Decidable (state.Orderly config action)
  | .copyToSlot _ _ => inferInstanceAs (Decidable (_ ∧ _))
  | .putRequest _ _ => inferInstanceAs (Decidable (_ = _))
  | .handleError _ => inferInstanceAs (Decidable (∀ _ ∈ _, _))
  | .acquire _ _ _ | .getRequest _ _ | .clone _ _ | .putDone _ | .store _ _ | .reclaimGet _
  | .release => inferInstanceAs (Decidable True)

variable {config : PoolConfig} {state next : SlotState}

theorem places_start (submitters workers : Nat) :
    (start config submitters workers).places = List.range config.numSlots := by
  have hsubmitters : ∀ count, (List.replicate count Submitter.idle).flatMap
      Submitter.slots = [] := by
    intro count
    rw [flatMap_eq_nil_iff]
    intro submitter hmem
    rw [eq_of_mem_replicate hmem]
    rfl
  have hworkers : ∀ count, (List.replicate count Worker.idle).flatMap Worker.slots = [] := by
    intro count
    rw [flatMap_eq_nil_iff]
    intro worker hmem
    rw [eq_of_mem_replicate hmem]
    rfl
  simp [places, start, hsubmitters, hworkers]

/-- Since nothing is in two places, a submitter that copies has its slot for
itself. -/
theorem conserved_iff_perm : Conserved config state ↔
    state.places.Perm (List.range config.numSlots) := by
  refine ⟨Conserved.once, fun hperm => ⟨hperm, ?_⟩⟩
  intro slotIdx seqLen hcopying msg hmsg heq
  have hnodup := hperm.nodup_iff.mpr nodup_range
  have hslot : slotIdx ∈ state.submitters.flatMap Submitter.slots :=
    mem_flatMap.mpr ⟨_, hcopying, mem_singleton_self slotIdx⟩
  simp only [places, nodup_append, mem_append] at hnodup
  obtain ⟨⟨⟨⟨-, -, hqueue⟩, -, hworkers⟩, -, -⟩, -⟩ := hnodup
  rcases hmsg with hqueued | hcloning
  · exact hqueue slotIdx (Or.inr hslot) slotIdx (mem_map.mpr ⟨msg, hqueued, heq⟩) rfl
  · refine hworkers slotIdx (Or.inl (Or.inr hslot)) slotIdx ?_ rfl
    rw [← heq]
    exact mem_flatMap.mpr ⟨_, hcloning, mem_singleton_self _⟩

/-! What a step does to the places. -/

theorem count_places (slot : Nat) : state.places.count slot = state.freeSlots.count slot +
    (state.submitters.flatMap Submitter.slots).count slot +
    (state.requestQueue.map MetadataMsg.slotIdx).count slot +
    (state.workers.flatMap Worker.slots).count slot +
    state.doneQueue.count slot + state.reclaiming.toList.count slot := by
  simp only [places, count_append]

theorem length_places : state.places.length = state.freeSlots.length +
    (state.submitters.flatMap Submitter.slots).length +
    state.requestQueue.length +
    (state.workers.flatMap Worker.slots).length +
    state.doneQueue.length + state.reclaiming.toList.length := by
  simp only [places, length_append, length_map]

theorem count_flatMap_split {α : Type} (slots : α → List Nat)
    (before after : List α) (item : α) (slot : Nat) :
    ((before ++ item :: after).flatMap slots).count slot =
      (before.flatMap slots).count slot + (slots item).count slot +
        (after.flatMap slots).count slot := by
  rw [flatMap_append, flatMap_cons, count_append, count_append, Nat.add_assoc]

theorem length_flatMap_split {α : Type} (slots : α → List Nat) (before after : List α) (item : α) :
    ((before ++ item :: after).flatMap slots).length =
      (before.flatMap slots).length + (slots item).length + (after.flatMap slots).length := by
  rw [flatMap_append, flatMap_cons, length_append, length_append, Nat.add_assoc]

theorem count_split (before after : List Nat) (item slot : Nat) :
    (before ++ item :: after).count slot = (before ++ after).count slot + [item].count slot := by
  simp only [count_append, count_cons, count_nil]
  omega

theorem perm_of_orderly {action : SlotAction} (horderly : state.Orderly config action)
    (hstep : state.step config action = some next) : next.places.Perm state.places := by
  rw [perm_iff_count]
  intro slot
  rw [count_places, count_places]
  cases action with
  | acquire submitter index seqLen =>
    simp only [step] at hstep
    split at hstep
    · next before after first slotIdx rest hsubmitter hslot =>
      cases hstep
      rw [pick_eq hsubmitter, pick_eq hslot, count_flatMap_split, count_flatMap_split, count_split]
      simp only [Submitter.slots, count_nil]
      omega
    · cases hstep
  | copyToSlot submitter ok =>
    simp only [step] at hstep
    split at hstep
    · next before slotIdx seqLen after hsubmitter =>
      cases hstep
      have hfits : copySubmitter config ok slotIdx seqLen = .sending ⟨slotIdx, seqLen⟩ :=
        if_pos ⟨horderly.2 _ (getElem?_of_pick hsubmitter), horderly.1⟩
      rw [pick_eq hsubmitter, count_flatMap_split, count_flatMap_split, hfits]
      rfl
    · cases hstep
  | putRequest submitter ok =>
    obtain rfl : ok = true := horderly
    simp only [step] at hstep
    split at hstep
    · next before msg after hsubmitter =>
      rw [if_pos trivial] at hstep
      split at hstep
      · cases hstep
        rw [pick_eq hsubmitter, count_flatMap_split, count_flatMap_split, map_append, count_append]
        simp only [Submitter.slots, count_nil, map_cons, map_nil]
        omega
      · cases hstep
    · cases hstep
  | getRequest worker index =>
    simp only [step] at hstep
    split at hstep
    · next before after first msg rest hworker hmsg =>
      cases hstep
      rw [pick_eq hworker, pick_eq hmsg, count_flatMap_split, count_flatMap_split, map_append,
        map_append, map_cons, count_split]
      simp only [Worker.slots, count_nil]
      omega
    · cases hstep
  | clone worker ok | store worker ok =>
    simp only [step] at hstep
    split at hstep
    · next before msg after hworker =>
      cases hstep
      rw [pick_eq hworker, count_flatMap_split, count_flatMap_split]
      cases ok with
      | true => rfl
      | false => rfl
    · cases hstep
  | putDone worker =>
    simp only [step] at hstep
    split at hstep
    · next before msg after hworker =>
      cases hstep
      rw [pick_eq hworker, count_flatMap_split, count_flatMap_split, count_append]
      simp only [Worker.slots, count_nil]
      omega
    · cases hstep
  | handleError worker =>
    simp only [step] at hstep
    split at hstep
    · next before msg late after hworker =>
      cases hstep
      obtain rfl : late = false := horderly _ (getElem?_of_pick hworker)
      rw [pick_eq hworker, count_flatMap_split, count_flatMap_split, count_append]
      simp only [Worker.slots, count_nil]
      omega
    · cases hstep
  | reclaimGet index =>
    simp only [step] at hstep
    split at hstep
    · next first slotIdx rest hnone hslot =>
      cases hstep
      rw [pick_eq hslot, hnone, count_split]
      simp only [Option.toList_none, Option.toList_some, count_nil]
      omega
    · cases hstep
  | release =>
    simp only [step] at hstep
    split at hstep
    · next slotIdx hsome =>
      cases hstep
      rw [hsome, count_append]
      simp only [Option.toList_none, Option.toList_some, count_nil]
      omega
    · cases hstep

theorem length_of_not_orderly {action : SlotAction} (hfails : ¬ state.Orderly config action)
    (hstep : state.step config action = some next) : next.places.length ≠ state.places.length := by
  rw [length_places, length_places]
  cases action with
  | copyToSlot submitter ok =>
    simp only [step] at hstep
    split at hstep
    · next before slotIdx seqLen after hsubmitter =>
      cases hstep
      have hlost : copySubmitter config ok slotIdx seqLen = .idle := by
        apply if_neg
        rintro ⟨hfits, hok⟩
        refine hfails ⟨hok, fun stage hstage => ?_⟩
        rw [getElem?_of_pick hsubmitter, Option.mem_some] at hstage
        exact hstage ▸ hfits
      rw [pick_eq hsubmitter, length_flatMap_split, length_flatMap_split, hlost]
      simp only [Submitter.slots, length_nil, length_singleton]
      omega
    · cases hstep
  | putRequest submitter ok =>
    simp only [step] at hstep
    split at hstep
    · next before msg after hsubmitter =>
      have hraises : ¬ ok = true := hfails
      rw [if_neg hraises] at hstep
      cases hstep
      rw [pick_eq hsubmitter, length_flatMap_split, length_flatMap_split]
      simp only [Submitter.slots, length_nil, length_singleton]
      omega
    · cases hstep
  | handleError worker =>
    simp only [step] at hstep
    split at hstep
    · next before msg late after hworker =>
      cases hstep
      have hlate : late = true := by
        by_contra hearly
        refine hfails fun stage hstage => ?_
        rw [getElem?_of_pick hworker, Option.mem_some] at hstage
        exact hstage ▸ Bool.eq_false_iff.mpr hearly
      rw [pick_eq hworker, length_flatMap_split, length_flatMap_split, hlate]
      simp only [Worker.slots, length_nil, length_append, length_singleton]
      omega
    · cases hstep
  | acquire | getRequest | clone | putDone | store | reclaimGet | release =>
    exact absurd trivial hfails

theorem conserved_step_iff {action : SlotAction} (hconserved : Conserved config state)
    (hstep : state.step config action = some next) :
    Conserved config next ↔ state.Orderly config action := by
  rw [conserved_iff_perm] at hconserved ⊢
  constructor
  · intro hnext
    by_contra hfails
    exact length_of_not_orderly hfails hstep (hnext.length_eq.trans hconserved.length_eq.symm)
  · intro horderly
    exact (perm_of_orderly horderly hstep).trans hconserved

end SlotState

/-- With any number of submitters and workers, every slot is in exactly one
place in all states of a run exactly if no submission fails after it took a
slot and no worker gets to its handler after it handed one back. -/
theorem conserved_iff_orderly (config : PoolConfig) (submitters workers : Nat)
    (actions : List SlotAction) (final : SlotState) (hrun : runFrom (SlotState.step config)
      (.start config submitters workers) actions = some final) :
    (∀ done middle, done <+: actions → runFrom (SlotState.step config)
      (.start config submitters workers) done = some middle → SlotState.Conserved config middle) ↔
      Meets (SlotState.step config) (SlotState.Orderly config)
        (.start config submitters workers) actions := by
  refine @forall_prefix_iff_meets _ _ _ _ (fun _ => True) _ (fun _ _ _ _ _ => trivial)
    (fun _ _ _ _ => SlotState.conserved_step_iff) _ _ _ trivial ?_ hrun
  rw [SlotState.conserved_iff_perm, SlotState.places_start]

/-! One slot. -/

namespace OneSlot

def config : PoolConfig := ⟨1, 4, 2⟩

def submit (submitter : Nat) : List SlotAction :=
  [.acquire submitter 0 4, .copyToSlot submitter true, .putRequest submitter true]

/-- The worker's clone fails; the slot is freed once. -/
def cloneFails : List SlotAction :=
  submit 0 ++ [.getRequest 0 0, .clone 0 false, .handleError 0, .reclaimGet 0, .release] ++ submit 1

/-- A store fails; the slot is freed twice, and a second submitter copies into
it while the message of the first waits to be cloned. -/
def storeFails : List SlotAction :=
  submit 0 ++ [.getRequest 0 0, .clone 0 true, .putDone 0, .store 0 false,
    .handleError 0, .reclaimGet 0, .release, .reclaimGet 0, .release] ++
    submit 0 ++ [.acquire 1 0 4]

/-- The sequence is longer than the slot. -/
def copyFails : List SlotAction := [.acquire 0 0 5, .copyToSlot 0 true]

def run (actions : List SlotAction) : Option SlotState :=
  runFrom (SlotState.step config) (.start config 2 1) actions

end OneSlot

open OneSlot in
/-- After a failed store a submitter copies into the slot of a message that has
not been cloned; after a sequence that is too long the slot is nowhere. -/
theorem not_conserved_after_failure : (∃ final, run storeFails = some final ∧
      .copying 0 4 ∈ final.submitters ∧ final.ToClone ⟨0, 4⟩ ∧
      ¬ SlotState.Conserved config final) ∧
    ∃ final, run copyFails = some final ∧ final.places = [] ∧
      ¬ SlotState.Conserved config final := by
  refine ⟨⟨⟨[], [.idle, .copying 0 4], [⟨0, 4⟩], [.idle], [], none⟩, ?_⟩,
    ⟨⟨[], [.idle, .idle], [], [.idle], [], none⟩, ?_⟩⟩
  · refine ⟨by decide, by decide, Or.inl (by decide), ?_⟩
    intro hconserved
    exact hconserved.unwritten 0 4 (by decide) ⟨0, 4⟩ (Or.inl (by decide)) rfl
  · refine ⟨by decide, by decide, ?_⟩
    intro hconserved
    exact absurd hconserved.once.length_eq (by decide)

open OneSlot in
theorem conserved_cloneFails : ∃ final, run cloneFails = some final ∧
    SlotState.Conserved config final := by
  have hrun : run cloneFails = some ⟨[], [.idle, .idle], [⟨0, 4⟩], [.idle], [], none⟩ := by
    decide
  refine ⟨_, hrun, ?_⟩
  exact (conserved_iff_orderly config 2 1 cloneFails _ hrun).mpr (by decide)
    cloneFails _ prefix_rfl hrun

end Offload

end CatKV
