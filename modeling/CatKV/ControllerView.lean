/-
What the controller knows against what it was told.  The pool should be a fold
of the messages: an entry is there since it was admitted, until it is evicted or
its worker deregisters.  Since the sweep of a deregistration never runs, the
pool is right exactly as long as workers give back their chunks before they
leave.
-/
import CatKV.CacheController
import CatKV.ChunkKeys
import CatKV.History
import CatKV.Transition

namespace CatKV

open OrderedDict RegistrationController List

/-! What the messages say. -/

def Arrival.Admits (key : Int) (metadata : KVChunkMetadata) (arrival : Arrival) : Prop :=
  match arrival.msg with
  | .kvAdmit msg => key = msg.key ∧ metadata = msg.metadata
  | _ => False

def Arrival.Evicts (key : Int) (metadata : KVChunkMetadata) (arrival : Arrival) : Prop :=
  match arrival.msg with
  | .kvEvict msg => key = msg.key ∧ metadata = msg.metadata
  | _ => False

def Arrival.Deregisters (instanceId : Text) (workerId : Int) (arrival : Arrival) : Prop :=
  match arrival.msg with
  | .deRegister msg => msg.instanceId = instanceId ∧ msg.workerId = workerId
  | _ => False

def Arrival.AdmitsWorker (instanceId : Text) (workerId : Int) (arrival : Arrival) : Prop :=
  match arrival.msg with
  | .kvAdmit msg => msg.instanceId = instanceId ∧ msg.workerId = workerId
  | _ => False

def Arrival.Ends (key : Int) (metadata : KVChunkMetadata) (arrival : Arrival) : Prop :=
  arrival.Evicts key metadata ∨ arrival.Deregisters metadata.instanceId metadata.workerId

/-- An admit for the entry was handled after the last evict for it and after
the last deregister of its worker. -/
def Admitted (arrivals : List Arrival) (key : Int) (metadata : KVChunkMetadata) : Prop :=
  Since (Arrival.Admits key metadata) (Arrival.Ends key metadata) arrivals

/-- Every worker of the instance that ever admitted a chunk has deregistered
since. -/
def AllDeregistered (arrivals : List Arrival) (instanceId : Text) : Prop :=
  ∀ workerId, (∃ arrival ∈ arrivals, arrival.AdmitsWorker instanceId workerId) →
      ¬ Since (Arrival.AdmitsWorker instanceId workerId)
        (Arrival.Deregisters instanceId workerId) arrivals

/-- The reply to a lookup: it names no instance whose workers are gone, and
for a chunk that is in the pool with all chunks before it, it gives the first
holder an end that is not before the end of the chunk. -/
structure LookupExact (arrivals : List Arrival) (kvPool : KVPool)
    (database : ChunkedTokenDatabase Int) (tokens : List Nat)
    (layoutInfo : KVController.LayoutInfo) : Prop where
  live : ∀ instanceId ∈ layoutInfo.keys, ¬ AllDeregistered arrivals instanceId
  reaches : ∀ index chunk first others, (database.chunks tokens)[index]? = some chunk →
    (∀ earlier ∈ (database.chunks tokens).take index, keyText earlier.key ∈ kvPool.keys) →
    kvPool.get? (keyText chunk.key) = some (first :: others) →
      ∃ location stop, layoutInfo.get? first.instanceId = some (location, stop) ∧ chunk.stop ≤ stop

/-- The controller's view after these messages is the fold of them. -/
structure ViewExact (arrivals : List Arrival) : Prop where
  returns : ∀ before arrival, arrivals = before ++ [arrival] →
    ∃ next, (ControllerManager.handled before).handleWorkerMessage arrival = .ok next
  pool : ∀ key metadata,
    KVController.Holds (ControllerManager.handled arrivals).kvPool key metadata ↔
      Admitted arrivals key metadata
  noEmpty : KVController.NoEmpty (ControllerManager.handled arrivals).kvPool
  lookups : ∀ initHash hashTokens tokens, ∃ layoutInfo,
    KVController.lookup (KVController.tokenDatabase initHash hashTokens)
      (ControllerManager.handled arrivals).kvPool tokens = some layoutInfo ∧
    LookupExact arrivals (ControllerManager.handled arrivals).kvPool
      (KVController.tokenDatabase initHash hashTokens) tokens layoutInfo

/-! `lookup`. -/

namespace KVController

variable {kvPool : KVPool}

theorem lookupFrom_isSome (hne : NoEmpty kvPool) (layoutInfo : LayoutInfo)
    (chunks : List (TokenChunk Int)) :
    ∃ final, lookupFrom kvPool layoutInfo chunks = some final := by
  induction chunks generalizing layoutInfo with
  | nil => exact ⟨layoutInfo, rfl⟩
  | cons chunk rest ih =>
    unfold lookupFrom
    split
    · exact ⟨layoutInfo, rfl⟩
    · next hnil => exact absurd rfl (hne.ne_nil hnil)
    · exact ih _

variable {layoutInfo final : LayoutInfo} {chunks : List (TokenChunk Int)}

section

variable (hlookup : lookupFrom kvPool layoutInfo chunks = some final)

include hlookup

theorem named_of_lookupFrom {instanceId : Text} (hnamed : instanceId ∈ final.keys) :
    instanceId ∈ layoutInfo.keys ∨ ∃ key metadata,
      Holds kvPool key metadata ∧ metadata.instanceId = instanceId := by
  induction chunks generalizing layoutInfo with
  | nil =>
    cases hlookup
    exact Or.inl hnamed
  | cons chunk rest ih =>
    unfold lookupFrom at hlookup
    split at hlookup
    · cases hlookup
      exact Or.inl hnamed
    · cases hlookup
    · next first others hholders =>
      rcases ih hlookup with hkept | hholds
      · rcases mem_keys_set.mp hkept with rfl | hold
        · right
          exact ⟨chunk.key, first, ⟨_, hholders, mem_cons_self⟩, rfl⟩
        · exact Or.inl hold
      · exact Or.inr hholds

theorem grows_of_lookupFrom (hsorted : chunks.Pairwise fun first second => first.stop ≤ second.stop)
    {instanceId : Text} {location : Text} {stop : Nat}
    (hreported : layoutInfo.get? instanceId = some (location, stop))
    (hbefore : ∀ chunk ∈ chunks, stop ≤ chunk.stop) :
    ∃ location stop', final.get? instanceId = some (location, stop') ∧ stop ≤ stop' := by
  induction chunks generalizing layoutInfo location stop with
  | nil =>
    cases hlookup
    exact ⟨location, stop, hreported, Nat.le_refl _⟩
  | cons chunk rest ih =>
    obtain ⟨hhead, htail⟩ := pairwise_cons.mp hsorted
    unfold lookupFrom at hlookup
    split at hlookup
    · cases hlookup
      exact ⟨location, stop, hreported, Nat.le_refl _⟩
    · cases hlookup
    · next first others hholders =>
      by_cases hsame : instanceId = first.instanceId
      · have hnow : (layoutInfo.set first.instanceId (first.location, chunk.stop)).get? instanceId =
              some (first.location, chunk.stop) := by
          rw [get?_set, if_pos hsame]
        obtain ⟨where', stop', hfinal, hle⟩ := ih hlookup htail hnow hhead
        exact ⟨where', stop', hfinal, Nat.le_trans (hbefore chunk mem_cons_self) hle⟩
      · apply ih hlookup htail
        · rw [get?_set, if_neg hsame]
          exact hreported
        · exact fun later hlater =>
            hbefore later (mem_cons_of_mem _ hlater)

theorem reaches_of_lookupFrom
    (hsorted : chunks.Pairwise fun first second => first.stop ≤ second.stop) {index : Nat}
    {chunk : TokenChunk Int} {first : KVChunkMetadata} {others : List KVChunkMetadata}
    (hchunk : chunks[index]? = some chunk) (hbefore : ∀ earlier ∈ chunks.take index,
      keyText earlier.key ∈ kvPool.keys)
    (hholders : kvPool.get? (keyText chunk.key) = some (first :: others)) :
    ∃ location stop, final.get? first.instanceId = some (location, stop) ∧ chunk.stop ≤ stop := by
  induction chunks generalizing layoutInfo index with
  | nil => cases hchunk
  | cons head rest ih =>
    obtain ⟨hhead, htail⟩ := pairwise_cons.mp hsorted
    cases index with
    | zero =>
      cases hchunk
      rw [lookupFrom, hholders] at hlookup
      apply grows_of_lookupFrom hlookup htail _ hhead
      · exact first.location
      · rw [get?_set, if_pos rfl]
    | succ index =>
      rw [getElem?_cons_succ] at hchunk
      rw [take_succ_cons, forall_mem_cons] at hbefore
      unfold lookupFrom at hlookup
      split at hlookup
      · next hnone =>
        exact absurd hbefore.1 (get?_eq_none_iff.mp hnone)
      · cases hlookup
      · exact ih hlookup htail hchunk hbefore.2

end

theorem stop_sorted (database : ChunkedTokenDatabase Int) (tokens : List Nat) :
    (database.chunks tokens).Pairwise fun first second => first.stop ≤ second.stop := by
  rw [pairwise_iff_getElem]
  intro index later hindex hlater hlt
  obtain ⟨-, -, hstop, -⟩ := database.getElem?_chunks (getElem?_eq_getElem hindex)
  obtain ⟨-, -, hstop', -⟩ := database.getElem?_chunks (getElem?_eq_getElem hlater)
  have hmul := Nat.mul_le_mul_right database.chunkSize (Nat.add_le_add_right (Nat.le_of_lt hlt) 1)
  rw [hstop, hstop']
  omega

theorem lookupExact_of_pool {arrivals : List Arrival} (hne : NoEmpty kvPool)
    (hpool : ∀ key metadata, Holds kvPool key metadata →
      Admitted arrivals key metadata) (database : ChunkedTokenDatabase Int) (tokens : List Nat) :
    ∃ layoutInfo, lookup database kvPool tokens = some layoutInfo ∧
      LookupExact arrivals kvPool database tokens layoutInfo := by
  obtain ⟨final, hlookup⟩ := lookupFrom_isSome hne empty (database.chunks tokens)
  have hall := database.processTokens_eq tokens 0
  rw [Nat.zero_mul, drop_zero] at hall
  refine ⟨final, ?_, ?_, ?_⟩
  · rw [lookup, hall]
    exact hlookup
  · intro instanceId hnamed hgone
    obtain ⟨key, metadata, hholds, rfl⟩ :=
      (named_of_lookupFrom hlookup hnamed).resolve_left not_mem_nil
    have hadmitted := hpool key metadata hholds
    have hworker : ∀ arrival : Arrival, arrival.Admits key metadata →
        arrival.AdmitsWorker metadata.instanceId metadata.workerId := by
      intro arrival hadmits
      unfold Arrival.Admits at hadmits
      unfold Arrival.AdmitsWorker
      split at hadmits
      · obtain ⟨-, rfl⟩ := hadmits
        exact ⟨rfl, rfl⟩
      · exact hadmits.elim
    have hsince : Since (Arrival.AdmitsWorker metadata.instanceId metadata.workerId)
        (Arrival.Deregisters metadata.instanceId metadata.workerId) arrivals :=
      (hadmitted.imp hworker).mono (fun _ hends => Or.inr hends)
    exact hgone metadata.workerId hsince.exists_mem hsince
  · intro index chunk first others hchunk hbefore hholders
    exact reaches_of_lookupFrom hlookup (stop_sorted database tokens) hchunk hbefore hholders

end KVController

/-! One message. -/

namespace ControllerManager

/-- The handling of the message does not raise: a socket that is needed can be
opened, and a worker that leaves a known instance is in its list. -/
def Handles (manager : ControllerManager) : Arrival → Prop
  | ⟨.heartbeat msg, socketOpens, _⟩ =>
    (msg.instanceId, msg.workerId) ∈
      manager.regController.workerInfoMapping.keys ∨ socketOpens = true
  | ⟨.register _, socketOpens, _⟩ => socketOpens = true
  | ⟨.deRegister msg, _, _⟩ =>
    ∀ workers ∈ manager.regController.workerMapping.get? msg.instanceId, msg.workerId ∈ workers
  | ⟨.kvAdmit _, _, _⟩ => True
  | ⟨.kvEvict _, _, _⟩ => True

/-- A worker that leaves has no entry in the pool any more. -/
def LeavesNothing (manager : ControllerManager) : Arrival → Prop
  | ⟨.deRegister msg, _, _⟩ =>
    ∀ entry ∈ manager.kvPool.entries, ∀ holder ∈ entry.2,
      holder.ofWorker msg.instanceId msg.workerId = false
  | _ => True

def Orderly (manager : ControllerManager) (arrival : Arrival) : Prop :=
  manager.Handles arrival ∧ manager.LeavesNothing arrival

instance decidableHandles (manager : ControllerManager) :
    ∀ arrival, Decidable (manager.Handles arrival)
  | ⟨.heartbeat _, _, _⟩ => inferInstanceAs (Decidable (_ ∨ _))
  | ⟨.register _, _, _⟩ => inferInstanceAs (Decidable (_ = _))
  | ⟨.deRegister msg, _, _⟩ => inferInstanceAs (Decidable
      (∀ workers ∈ manager.regController.workerMapping.get? msg.instanceId, msg.workerId ∈ workers))
  | ⟨.kvAdmit _, _, _⟩ | ⟨.kvEvict _, _, _⟩ => isTrue trivial

variable {manager : ControllerManager} {arrival : Arrival}

theorem registration_isOk_iff {result : Except RegistrationController RegistrationController} :
    (∃ next, manager.registration result = .ok next) ↔ ∃ controller, result = .ok controller := by
  cases result with
  | ok controller => simp [registration]
  | error controller => simp [registration]

variable {controller : RegistrationController}

theorem register_isOk_iff {msg : RegisterMsg} {socketOpens : Bool} {time : Nat} :
    (∃ next, controller.register msg socketOpens time = .ok next) ↔ socketOpens = true := by
  cases socketOpens with
  | true => simp [register]
  | false => simp [register]

theorem heartbeat_isOk_iff {msg : RegisterMsg} {socketOpens : Bool} {time : Nat} :
    (∃ next, controller.heartbeat msg socketOpens time = .ok next) ↔
      (msg.instanceId, msg.workerId) ∈ controller.workerInfoMapping.keys ∨ socketOpens = true := by
  cases hinfo : controller.workerInfoMapping.get? (msg.instanceId, msg.workerId) with
  | none =>
    have hunknown := get?_eq_none_iff.mp hinfo
    simp only [heartbeat, hinfo, register_isOk_iff, hunknown, false_or]
  | some info =>
    have hknown := mem_keys_of_get? hinfo
    simp [heartbeat, hinfo, hknown]

theorem deregister_isOk_iff {msg : DeRegisterMsg} : (∃ next, controller.deregister msg = .ok next) ↔
    ∀ workers ∈ controller.workerMapping.get? msg.instanceId, msg.workerId ∈ workers := by
  cases hworkers : controller.workerMapping.get? msg.instanceId with
  | none => simp [deregister, hworkers]
  | some workers =>
    by_cases hmem : msg.workerId ∈ workers
    · simp [deregister, hworkers, hmem]
    · simp [deregister, hworkers, hmem]

theorem handles_iff : (∃ next, manager.handleWorkerMessage arrival = .ok next) ↔
    manager.Handles arrival := by
  obtain ⟨msg, socketOpens, time⟩ := arrival
  cases msg with
  | heartbeat msg => exact registration_isOk_iff.trans heartbeat_isOk_iff
  | register msg => exact registration_isOk_iff.trans register_isOk_iff
  | deRegister msg => exact registration_isOk_iff.trans deregister_isOk_iff
  | kvAdmit msg => simp [handleWorkerMessage, Handles]
  | kvEvict msg => simp [handleWorkerMessage, Handles]

theorem kvPool_handleNext : (manager.handleNext arrival).kvPool =
    match arrival.msg with
    | .kvAdmit msg => KVController.admitChunk manager.kvPool msg
    | .kvEvict msg => KVController.evict manager.kvPool msg
    | _ => manager.kvPool := by
  obtain ⟨msg, socketOpens, time⟩ := arrival
  simp only [handleNext, handleWorkerMessage]
  cases msg with
  | heartbeat msg =>
    dsimp only
    cases manager.regController.heartbeat msg socketOpens time <;> rfl
  | register msg =>
    dsimp only
    cases manager.regController.register msg socketOpens time <;> rfl
  | deRegister msg =>
    dsimp only
    cases manager.regController.deregister msg <;> rfl
  | kvAdmit msg => rfl
  | kvEvict msg => rfl

theorem holds_handleNext {key : Int} {metadata : KVChunkMetadata} :
    KVController.Holds (manager.handleNext arrival).kvPool key metadata ↔
      arrival.Admits key metadata ∨ KVController.Holds manager.kvPool key metadata ∧
          ¬ arrival.Evicts key metadata := by
  rw [kvPool_handleNext]
  obtain ⟨msg, socketOpens, time⟩ := arrival
  cases msg with
  | heartbeat msg | register msg | deRegister msg =>
    simp [Arrival.Admits, Arrival.Evicts]
  | kvAdmit msg =>
    simp only [Arrival.Admits, Arrival.Evicts, KVController.holds_admit,
      not_false_eq_true, and_true]
  | kvEvict msg =>
    simp only [Arrival.Admits, Arrival.Evicts, KVController.holds_evict, false_or]

/-! All messages. -/

theorem handled_concat (arrivals : List Arrival) (arrival : Arrival) :
    handled (arrivals ++ [arrival]) = (handled arrivals).handleNext arrival :=
  foldl_concat ..

theorem noEmpty_handled (arrivals : List Arrival) :
    KVController.NoEmpty (handled arrivals).kvPool := by
  induction arrivals using List.reverseRecOn with
  | nil => exact forall_mem_nil _
  | append_singleton arrivals arrival ih =>
    rw [handled_concat, kvPool_handleNext]
    split
    · exact ih.admitChunk _
    · exact ih.evict _
    · exact ih

theorem numeric_handled (arrivals : List Arrival) :
    ∀ key ∈ (handled arrivals).kvPool.keys, ∃ number, key = keyText number := by
  induction arrivals using List.reverseRecOn with
  | nil => exact forall_mem_nil _
  | append_singleton arrivals arrival ih =>
    rw [handled_concat, kvPool_handleNext]
    split
    · next msg _ =>
      intro key hkey
      rcases mem_keys_set.mp hkey with rfl | hold
      · exact ⟨msg.key, rfl⟩
      · exact ih key hold
    · intro key hkey
      unfold KVController.evict KVController.keepRemaining at hkey
      split at hkey
      · exact ih key hkey
      · next msg _ _ holders hholders =>
        split at hkey
        · exact ih key (mem_keys_pop.mp hkey).1
        · rcases mem_keys_set.mp hkey with rfl | hold
          · exact ⟨msg.key, rfl⟩
          · exact ih key hold
    · exact ih

/-- The pool after these messages is the fold of them. -/
def PoolExact (arrivals : List Arrival) : Prop :=
  ∀ key metadata, KVController.Holds (handled arrivals).kvPool key metadata ↔
    Admitted arrivals key metadata

theorem poolExact_nil : PoolExact [] := by
  intro key metadata
  constructor
  · rintro ⟨holders, hholders, -⟩
    cases hholders
  · exact fun hadmitted => (not_since_nil hadmitted).elim

variable {arrivals : List Arrival}

theorem leavesNothing_iff : (handled arrivals).LeavesNothing arrival ↔ ∀ key metadata,
    KVController.Holds (handled arrivals).kvPool key metadata →
      ¬ arrival.Deregisters metadata.instanceId metadata.workerId := by
  obtain ⟨msg, socketOpens, time⟩ := arrival
  cases msg with
  | heartbeat msg | register msg | kvAdmit msg | kvEvict msg =>
    simp [LeavesNothing, Arrival.Deregisters]
  | deRegister msg =>
    constructor
    · rintro hleaves key metadata ⟨holders, hholders, hmem⟩ ⟨hinst, hworker⟩
      have hother := hleaves _ (get?_eq_some_iff.mp hholders) metadata hmem
      simp [KVChunkMetadata.ofWorker, hinst, hworker] at hother
    · rintro hnone ⟨key, holders⟩ hentry holder hholder
      obtain ⟨number, rfl⟩ := numeric_handled arrivals key (mem_keys.mpr ⟨holders, hentry⟩)
      have hstays := hnone number holder ⟨holders, get?_eq_some_iff.mpr hentry, hholder⟩
      rw [KVChunkMetadata.ofWorker, decide_eq_false_iff_not]
      exact fun hsame => hstays ⟨hsame.1.symm, hsame.2.symm⟩

/-- The pool stays right over a message exactly if the message leaves no
entries of a deregistered worker behind. -/
theorem poolExact_concat (hpool : PoolExact arrivals) : PoolExact (arrivals ++ [arrival]) ↔
    (handled arrivals).LeavesNothing arrival := by
  rw [leavesNothing_iff]
  have hnext : ∀ key metadata,
      (KVController.Holds (handled (arrivals ++ [arrival])).kvPool key metadata ↔
        Admitted (arrivals ++ [arrival]) key metadata) ↔
      (KVController.Holds (handled arrivals).kvPool key metadata →
        ¬ arrival.Deregisters metadata.instanceId metadata.workerId) := by
    intro key metadata
    rw [handled_concat, holds_handleNext, Admitted, since_concat, Arrival.Ends,
      not_or, hpool key metadata]
    -- a deregistration neither admits nor evicts
    have hneither : arrival.Deregisters metadata.instanceId metadata.workerId →
        ¬ arrival.Admits key metadata ∧ ¬ arrival.Evicts key metadata := by
      obtain ⟨msg, socketOpens, time⟩ := arrival
      cases msg with
      | deRegister msg => exact fun _ => ⟨not_false, not_false⟩
      | heartbeat msg | register msg | kvAdmit msg | kvEvict msg =>
        exact False.elim
    unfold Admitted
    tauto
  exact forall_congr' fun key => forall_congr' fun metadata =>
    hnext key metadata

/-- Once the pool is right, the view over one more message is right exactly if
the message is orderly. -/
theorem viewExact_concat (hpool : PoolExact arrivals) :
    ViewExact (arrivals ++ [arrival]) ↔ (handled arrivals).Orderly arrival := by
  constructor
  · intro hview
    exact ⟨handles_iff.mp (hview.returns arrivals arrival rfl),
      (poolExact_concat hpool).mp hview.pool⟩
  · rintro ⟨hhandles, hleaves⟩
    have hnext := (poolExact_concat hpool).mpr hleaves
    have hnoEmpty := noEmpty_handled (arrivals ++ [arrival])
    refine ⟨?_, hnext, hnoEmpty, ?_⟩
    · intro before last hsplit
      obtain ⟨rfl, hlast⟩ := append_inj' hsplit rfl
      cases hlast
      exact handles_iff.mpr hhandles
    · intro initHash hashTokens tokens
      exact KVController.lookupExact_of_pool hnoEmpty
        (fun key metadata => (hnext key metadata).mp) _ tokens

/-- A message is always taken, and the loop goes on with what it left. -/
def step (manager : ControllerManager) (arrival : Arrival) : Option ControllerManager :=
  some (manager.handleNext arrival)

theorem step_handled (arrivals : List Arrival) (arrival : Arrival) :
    (handled arrivals).step arrival = some (handled (arrivals ++ [arrival])) :=
  congrArg some (handled_concat arrivals arrival).symm

theorem viewExact_nil : ViewExact [] := by
  refine ⟨?_, poolExact_nil, noEmpty_handled [], ?_⟩
  · intro before arrival hsplit
    exact absurd hsplit (by simp)
  · intro initHash hashTokens tokens
    exact KVController.lookupExact_of_pool (noEmpty_handled [])
      (fun key metadata => (poolExact_nil key metadata).mp) _ tokens

end ControllerManager

/-- The view is right after every message of a sequence exactly if every message
finds what it needs: a socket that opens, a worker that is known, and for a
worker that leaves a pool without its chunks. -/
theorem viewExact_iff (arrivals : List Arrival) :
    (∀ handled, handled <+: arrivals → ViewExact handled) ↔
      Meets ControllerManager.step ControllerManager.Orderly ControllerManager.init arrivals := by
  exact forall_history_iff_meets ControllerManager.step_handled
    (fun _ _ hview => ControllerManager.viewExact_concat hview.pool)
    ControllerManager.viewExact_nil arrivals

/-! Workers that leave. -/

namespace ControllerRun

def instanceName : Text := "a".toList

def location : Text := "cpu".toList

def arrive (msg : WorkerMsg) : Arrival := ⟨msg, true, 0⟩

def joins (workerId : Int) : Arrival :=
  arrive (.register ⟨instanceName, workerId, "h".toList, 1, []⟩)

def leaves (workerId : Int) : Arrival :=
  arrive (.deRegister ⟨instanceName, workerId, "h".toList, 1⟩)

def admits (workerId : Int) : Arrival := arrive (.kvAdmit ⟨instanceName, workerId, 7, location⟩)

/-- The entry that worker 0 admits. -/
def holder : KVChunkMetadata := ⟨instanceName, 0, location⟩

end ControllerRun

open ControllerRun in
/-- A worker that leaves with a chunk in the pool stays listed, and a worker
that leaves twice makes `list.remove` raise while another one is there. -/
theorem not_viewExact_leavesWithChunk : ¬ ViewExact [joins 0, admits 0, leaves 0] ∧
    ¬ ViewExact [joins 0, leaves 1] := by
  constructor
  · intro hview
    have hstays : KVController.Holds (ControllerManager.handled
        [joins 0, admits 0, leaves 0]).kvPool 7 holder :=
      ⟨[holder], by decide, mem_singleton_self _⟩
    have hadmitted := (hview.pool 7 holder).mp hstays
    change Since _ _ ([joins 0, admits 0] ++ [leaves 0]) at hadmitted
    rcases since_concat.mp hadmitted with hadmits | ⟨-, hends⟩
    · exact hadmits
    · exact hends (Or.inr ⟨rfl, rfl⟩)
  · intro hview
    have hhandles := ControllerManager.handles_iff.mp (hview.returns [joins 0] (leaves 1) rfl)
    exact absurd hhandles (by decide)

end CatKV
