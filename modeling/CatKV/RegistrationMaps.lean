/-
The maps of the registration controller against the messages it was sent, and
whom the commands of the cluster executor reach.  The maps agree as long as no
worker registers twice, none that is unknown leaves a known instance, and a
worker leaves from the host it registered with.
-/
import CatKV.ControllerView

namespace CatKV

open List OrderedDict

namespace RegistrationController

def getWorkers (controller : RegistrationController) (instanceId : Text) : List Int :=
  (controller.workerMapping.get? instanceId).getD []

/-! `LMCacheClusterExecutor`. -/

/-- The workers a command is sent to, with their sockets: the loop of `clear`,
`pin`, `compress`, `decompress` and `health`, which may end in an `ErrorMsg`. -/
def commandTargets (controller : RegistrationController) (instanceId : Text) :
    Option (List (Int × Text)) :=
  (controller.getWorkers instanceId).mapM fun workerId =>
    (controller.socketMapping.get? (instanceId, workerId)).map fun socket => (workerId, socket)

/-- The loop of `move` over the workers of both instances, with the socket of
the one and the URL of the other. -/
def moveTargets (controller : RegistrationController) (source destination : Text) :
    Option (List (Int × Text × Text)) :=
  ((controller.getWorkers source).zip (controller.getWorkers destination)).mapM fun pair =>
    (controller.socketMapping.get? (source, pair.1)).bind fun socket =>
      (controller.distributedUrlMapping.get? (destination, pair.2)).map fun url =>
        (pair.1, socket, url)

end RegistrationController

/-! What the messages say. -/

/-- A heartbeat of a worker that is known leaves it registered, one of an
unknown worker registers it. -/
def Arrival.Registers (worker : Text × Int) (arrival : Arrival) : Prop :=
  match arrival.msg with
  | .register msg | .heartbeat msg => worker = (msg.instanceId, msg.workerId)
  | _ => False

def Arrival.Leaves (worker : Text × Int) (arrival : Arrival) : Prop :=
  match arrival.msg with
  | .deRegister msg => worker = (msg.instanceId, msg.workerId)
  | _ => False

def Registered (arrivals : List Arrival) (worker : Text × Int) : Prop :=
  Since (Arrival.Registers worker) (Arrival.Leaves worker) arrivals

/-- The controller knows exactly the registered workers, each once, and every
host is mapped to an instance with a worker on it. -/
structure RegistrationController.Knows (controller : RegistrationController)
    (registered : Text × Int → Prop) : Prop where
  nodup : ∀ instanceId, (controller.getWorkers instanceId).Nodup
  workers : ∀ worker, worker.2 ∈ controller.getWorkers worker.1 ↔ registered worker
  sockets : ∀ worker, worker ∈ controller.socketMapping.keys ↔ registered worker
  urls : ∀ worker, worker ∈ controller.distributedUrlMapping.keys ↔ registered worker
  infos : ∀ worker, worker ∈ controller.workerInfoMapping.keys ↔ registered worker
  hosts : ∀ ip instanceId, controller.instanceMapping.get? ip = some instanceId →
    ∃ workerId info, controller.workerInfoMapping.get? (instanceId, workerId) = some info ∧
      info.ip = ip

/-- The targets of a command are the registered workers, each once. -/
def Reaches {τ : Type} (arrivals : List Arrival) (instanceId : Text)
    (targets : Option (List (Int × τ))) : Prop :=
  ∃ reached, targets = some reached ∧ (reached.map Prod.fst).Nodup ∧
    ∀ workerId, workerId ∈ reached.map Prod.fst ↔ Registered arrivals (instanceId, workerId)

structure MapsAgree (arrivals : List Arrival) : Prop where
  returns : ∀ before arrival, arrivals = before ++ [arrival] →
    ∃ next, (ControllerManager.handled before).handleWorkerMessage arrival = .ok next
  knows : (ControllerManager.handled arrivals).regController.Knows (Registered arrivals)
  commands : ∀ instanceId, Reaches arrivals instanceId
    ((ControllerManager.handled arrivals).regController.commandTargets instanceId)

/-! What has to hold of a message. -/

/-- The host of the leaving worker is the one of the message, or is mapped
elsewhere, or has another worker of the instance. -/
def RegistrationController.HostStays (controller : RegistrationController) (msg : DeRegisterMsg) :
    Prop :=
  ∀ info, controller.workerInfoMapping.get? (msg.instanceId, msg.workerId) = some info →
    info.ip = msg.ip ∨ controller.instanceMapping.get? info.ip ≠ some msg.instanceId ∨
      ∃ workerId other, workerId ≠ msg.workerId ∧ other.ip = info.ip ∧
        controller.workerInfoMapping.get? (msg.instanceId, workerId) = some other

/-- The message is handled; a worker that registers is not known yet, and one
that leaves leaves its host. -/
def ControllerManager.Careful (manager : ControllerManager) (arrival : Arrival) : Prop :=
  manager.Handles arrival ∧
    match arrival.msg with
    | .register msg =>
      (msg.instanceId, msg.workerId) ∉ manager.regController.workerInfoMapping.keys
    | .deRegister msg => manager.regController.HostStays msg
    | _ => True

namespace RegistrationController

variable {controller next : RegistrationController} {registered others : Text × Int → Prop}

/-! The executor. -/

theorem exists_mapM {α τ : Type} (target : α → Option (Int × τ)) (label : α → Int)
    (items : List α) (hsome : ∀ item ∈ items, ∃ address, target item = some (label item, address)) :
    ∃ reached, items.mapM target = some reached ∧ reached.map Prod.fst = items.map label := by
  induction items with
  | nil => exact ⟨[], rfl, rfl⟩
  | cons item rest ih =>
    rw [forall_mem_cons] at hsome
    obtain ⟨address, haddress⟩ := hsome.1
    obtain ⟨reached, hreached, hlabels⟩ := ih hsome.2
    refine ⟨(label item, address) :: reached, ?_, by rw [map_cons, hlabels, map_cons]⟩
    rw [mapM_cons, haddress, hreached]
    rfl

section Executor

variable (hknows : controller.Knows registered)

include hknows

theorem Knows.exists_socket {instanceId : Text} {workerId : Int}
    (hworker : workerId ∈ controller.getWorkers instanceId) :
    ∃ socket, controller.socketMapping.get? (instanceId, workerId) = some socket :=
  exists_get? ((hknows.sockets _).mpr ((hknows.workers (instanceId, workerId)).mp hworker))

theorem Knows.commandTargets_eq (instanceId : Text) :
    ∃ reached, controller.commandTargets instanceId = some reached ∧
      reached.map Prod.fst = controller.getWorkers instanceId := by
  have htargets := exists_mapM
    (fun workerId => (controller.socketMapping.get? (instanceId, workerId)).map
      fun socket => (workerId, socket)) id (controller.getWorkers instanceId)
    fun workerId hworker => by
      obtain ⟨socket, hsocket⟩ := hknows.exists_socket hworker
      exact ⟨socket, by rw [hsocket]; rfl⟩
  rwa [map_id] at htargets

theorem Knows.moveTargets_eq (source destination : Text) :
    ∃ reached, controller.moveTargets source destination = some reached ∧
      reached.map Prod.fst = ((controller.getWorkers source).zip
        (controller.getWorkers destination)).map Prod.fst := by
  refine exists_mapM _ _ _ fun pair hpair => ?_
  obtain ⟨hsource, hdestination⟩ := of_mem_zip (a := pair.1) (b := pair.2) hpair
  obtain ⟨socket, hsocket⟩ := hknows.exists_socket hsource
  obtain ⟨url, hurl⟩ := exists_get?
    ((hknows.urls _).mpr ((hknows.workers (destination, pair.2)).mp hdestination))
  exact ⟨(socket, url), by rw [hsocket, hurl]; rfl⟩

end Executor

/-! One message. -/

theorem Knows.congr (hknows : controller.Knows registered)
    (hsame : ∀ worker, registered worker ↔ others worker) : controller.Knows others :=
  (funext fun worker => propext (hsame worker) : registered = others) ▸ hknows

section Messages

variable {socketOpens : Bool} {time : Nat}

theorem getWorkers_register {msg : RegisterMsg}
    (hregister : controller.register msg socketOpens time = .ok next) (instanceId : Text) :
    (next.getWorkers instanceId).Perm (if instanceId = msg.instanceId then
      msg.workerId :: controller.getWorkers instanceId else controller.getWorkers instanceId) := by
  unfold register at hregister
  split at hregister
  · cases hregister
  · cases hregister
    rw [getWorkers, get?_set]
    split
    · next hsame =>
      rw [hsame]
      exact (perm_insertionSort _ _).trans (perm_append_singleton _ _)
    · exact List.Perm.refl _

theorem Knows.register {msg : RegisterMsg} (hknows : controller.Knows registered)
    (hregister : controller.register msg socketOpens time = .ok next)
    (hfresh : ¬ registered (msg.instanceId, msg.workerId)) :
    next.Knows fun worker => worker = (msg.instanceId, msg.workerId) ∨ registered worker := by
  have hworkers := getWorkers_register hregister
  unfold RegistrationController.register at hregister
  split at hregister
  · cases hregister
  · cases hregister
    refine ⟨fun instanceId => ?_, fun worker => ?_, fun worker => ?_, fun worker => ?_,
      fun worker => ?_, fun ip instanceId hip => ?_⟩
    · rw [(hworkers instanceId).nodup_iff]
      split
      · next hsame =>
        rw [nodup_cons, hsame]
        exact ⟨mt (hknows.workers (_, _)).mp hfresh, hknows.nodup _⟩
      · exact hknows.nodup instanceId
    · rw [(hworkers worker.1).mem_iff, ← hknows.workers, Prod.ext_iff]
      split
      · next hsame => simp [hsame]
      · next hne => simp [hne]
    · exact mem_keys_set.trans (or_congr_right (hknows.sockets worker))
    · exact mem_keys_set.trans (or_congr_right (hknows.urls worker))
    · exact mem_keys_set.trans (or_congr_right (hknows.infos worker))
    · rw [get?_set] at hip
      split at hip
      · next hsame =>
        cases hip
        exact ⟨msg.workerId, _, by rw [get?_set, if_pos rfl], hsame.symm⟩
      · obtain ⟨workerId, info, hinfo, hhost⟩ := hknows.hosts ip instanceId hip
        have hregistered := (hknows.infos _).mp (mem_keys_of_get? hinfo)
        have hne : (instanceId, workerId) ≠ (msg.instanceId, msg.workerId) :=
          fun hsame => hfresh (hsame ▸ hregistered)
        exact ⟨workerId, info, by rw [get?_set, if_neg hne, hinfo], hhost⟩

theorem deregister_ok {msg : DeRegisterMsg} (hderegister : controller.deregister msg = .ok next) :
    next.socketMapping = controller.socketMapping.pop (msg.instanceId, msg.workerId) ∧
    next.distributedUrlMapping =
      controller.distributedUrlMapping.pop (msg.instanceId, msg.workerId) ∧
    next.workerInfoMapping = controller.workerInfoMapping.pop (msg.instanceId, msg.workerId) ∧
    next.instanceMapping = controller.instanceMapping.pop msg.ip ∧
    ∀ instanceId, next.getWorkers instanceId = if instanceId = msg.instanceId then
      (controller.getWorkers instanceId).erase msg.workerId
      else controller.getWorkers instanceId := by
  cases hworkers : controller.workerMapping.get? msg.instanceId with
  | none =>
    simp only [deregister, hworkers] at hderegister
    cases hderegister
    refine ⟨rfl, rfl, rfl, rfl, fun instanceId => ?_⟩
    split
    · next hsame => simp [getWorkers, forgetWorker, hsame, hworkers]
    · rfl
  | some workers =>
    simp only [deregister, hworkers] at hderegister
    split at hderegister
    · cases hderegister
      refine ⟨rfl, rfl, rfl, rfl, fun instanceId => ?_⟩
      simp only [getWorkers, forgetWorker, keepWorkers]
      by_cases hnil : workers.erase msg.workerId = []
      · rw [if_pos hnil, get?_pop]
        split
        · next hsame => rw [hsame, hworkers, Option.getD_some, hnil, Option.getD_none]
        · rfl
      · rw [if_neg hnil, get?_set]
        split
        · next hsame => rw [hsame, hworkers, Option.getD_some, Option.getD_some]
        · rfl
    · cases hderegister

theorem Knows.deregister {msg : DeRegisterMsg} (hknows : controller.Knows registered)
    (hderegister : controller.deregister msg = .ok next) (hhost : controller.HostStays msg) :
    next.Knows fun worker => registered worker ∧ worker ≠ (msg.instanceId, msg.workerId) := by
  obtain ⟨hsockets, hurls, hinfos, hhosts, hworkers⟩ := deregister_ok hderegister
  refine ⟨fun instanceId => ?_, fun worker => ?_, fun worker => ?_, fun worker => ?_,
    fun worker => ?_, fun ip instanceId hip => ?_⟩
  · rw [hworkers]
    split
    · exact (hknows.nodup instanceId).erase _
    · exact hknows.nodup instanceId
  · rw [hworkers, ← hknows.workers, ne_eq, Prod.ext_iff]
    split
    · next hsame =>
      rw [(hknows.nodup worker.1).mem_erase_iff]
      simp [hsame, and_comm]
    · next hne => simp [hne]
  · rw [hsockets]
    exact mem_keys_pop.trans (and_congr_left' (hknows.sockets worker))
  · rw [hurls]
    exact mem_keys_pop.trans (and_congr_left' (hknows.urls worker))
  · rw [hinfos]
    exact mem_keys_pop.trans (and_congr_left' (hknows.infos worker))
  · rw [hhosts, get?_pop] at hip
    split at hip
    · cases hip
    · next hne =>
      obtain ⟨workerId, info, hinfo, rfl⟩ := hknows.hosts ip instanceId hip
      rw [hinfos]
      by_cases hsame : (instanceId, workerId) = (msg.instanceId, msg.workerId)
      · cases hsame
        rcases hhost info hinfo with hip' | hother | ⟨other, otherInfo, hdifferent, hip', hget⟩
        · exact absurd hip' hne
        · exact absurd hip hother
        · refine ⟨other, otherInfo, ?_, hip'⟩
          rw [get?_pop, if_neg (by simpa using hdifferent), hget]
      · exact ⟨workerId, info, by rw [get?_pop, if_neg hsame, hinfo], rfl⟩

theorem Knows.heartbeat {msg : RegisterMsg} (hknows : controller.Knows registered)
    (hheartbeat : controller.heartbeat msg socketOpens time = .ok next) :
    next.Knows fun worker => worker = (msg.instanceId, msg.workerId) ∨ registered worker := by
  cases hinfo : controller.workerInfoMapping.get? (msg.instanceId, msg.workerId) with
  | none =>
    simp only [RegistrationController.heartbeat, hinfo] at hheartbeat
    exact hknows.register hheartbeat (mt (hknows.infos _).mpr (get?_eq_none_iff.mp hinfo))
  | some info =>
    simp only [RegistrationController.heartbeat, hinfo] at hheartbeat
    cases hheartbeat
    have hknown := mem_keys_of_get? hinfo
    have hsame : ∀ worker, registered worker ↔
        worker = (msg.instanceId, msg.workerId) ∨ registered worker := fun worker =>
      (or_iff_right_of_imp fun heq => heq ▸ (hknows.infos _).mp hknown).symm
    refine Knows.congr ⟨hknows.nodup, hknows.workers, hknows.sockets, hknows.urls, fun worker => ?_,
      fun ip instanceId hip => ?_⟩ hsame
    · rw [mem_keys_set, hknows.infos, ← hsame]
    · obtain ⟨workerId, old, hold, hhost⟩ := hknows.hosts ip instanceId hip
      refine ⟨workerId, ?_⟩
      rw [get?_set]
      split
      · next hworker =>
        rw [hworker, hinfo] at hold
        cases hold
        exact ⟨_, rfl, hhost⟩
      · exact ⟨old, hold, hhost⟩

theorem Knows.fresh_of_register {msg : RegisterMsg}
    (hregister : controller.register msg socketOpens time = .ok next)
    (hknows : controller.Knows registered) (hnext : next.Knows others) :
    (msg.instanceId, msg.workerId) ∉ controller.workerInfoMapping.keys := by
  intro hknown
  have hlisted := (hknows.workers _).mpr ((hknows.infos _).mp hknown)
  have hnodup := (getWorkers_register hregister msg.instanceId).nodup_iff.mp (hnext.nodup _)
  rw [if_pos rfl, nodup_cons] at hnodup
  exact hnodup.1 hlisted

theorem Knows.hostStays_of_deregister {msg : DeRegisterMsg}
    (hderegister : controller.deregister msg = .ok next) (hnext : next.Knows others) :
    controller.HostStays msg := by
  obtain ⟨-, -, hinfos, hhosts, -⟩ := deregister_ok hderegister
  intro info hinfo
  by_cases hip : info.ip = msg.ip
  · exact Or.inl hip
  by_cases hmapped : controller.instanceMapping.get? info.ip = some msg.instanceId
  · obtain ⟨workerId, other, hother, hsame⟩ := hnext.hosts info.ip msg.instanceId (by
      rw [hhosts, get?_pop, if_neg hip, hmapped])
    rw [hinfos, get?_pop] at hother
    split at hother
    · cases hother
    · next hne => exact Or.inr (Or.inr ⟨workerId, other, by simpa using hne, hsame, hother⟩)
  · exact Or.inr (Or.inl hmapped)

end Messages

end RegistrationController

namespace ControllerManager

open RegistrationController

variable {past : List Arrival} {arrival : Arrival}

theorem registered_concat {worker : Text × Int} : Registered (past ++ [arrival]) worker ↔
    arrival.Registers worker ∨ Registered past worker ∧ ¬ arrival.Leaves worker :=
  since_concat

theorem reaches_of_knows {τ : Type} {instanceId : Text} {targets : Option (List (Int × τ))}
    {reached : List (Int × τ)} (hknows : (handled past).regController.Knows (Registered past))
    (htargets : targets = some reached)
    (hreached : reached.map Prod.fst = (handled past).regController.getWorkers instanceId) :
    Reaches past instanceId targets := by
  refine ⟨reached, htargets, hreached ▸ hknows.nodup instanceId, fun workerId => ?_⟩
  rw [hreached]
  exact hknows.workers (instanceId, workerId)

theorem regController_handleNext {manager : ControllerManager} {controller : RegistrationController}
    {result : Except RegistrationController RegistrationController}
    (hhandle : manager.handleWorkerMessage arrival = manager.registration result)
    (hresult : result = .ok controller) :
    (manager.handleNext arrival).regController = controller := by
  rw [handleNext, hhandle, hresult]
  rfl

theorem knows_concat (hknows : (handled past).regController.Knows (Registered past))
    (hhandles : (handled past).Handles arrival) :
    (handled (past ++ [arrival])).regController.Knows (Registered (past ++ [arrival])) ↔
      (handled past).Careful arrival := by
  rw [handled_concat]
  obtain ⟨msg, socketOpens, time⟩ := arrival
  cases msg with
  | register msg =>
    obtain ⟨next, hregister⟩ : ∃ next, (handled past).regController.register msg socketOpens
        time = .ok next := register_isOk_iff.mpr hhandles
    rw [regController_handleNext rfl hregister]
    refine ⟨fun hafter => ⟨hhandles, Knows.fresh_of_register hregister hknows hafter⟩, ?_⟩
    rintro ⟨-, hfresh⟩
    refine (hknows.register hregister (mt (hknows.infos _).mpr hfresh)).congr fun _ => ?_
    simp [registered_concat, Arrival.Registers, Arrival.Leaves]
  | heartbeat msg =>
    obtain ⟨next, hheartbeat⟩ : ∃ next, (handled past).regController.heartbeat msg socketOpens
        time = .ok next := heartbeat_isOk_iff.mpr hhandles
    rw [regController_handleNext rfl hheartbeat]
    refine ⟨fun _ => ⟨hhandles, trivial⟩, fun _ => (hknows.heartbeat hheartbeat).congr fun _ => ?_⟩
    simp [registered_concat, Arrival.Registers, Arrival.Leaves]
  | deRegister msg =>
    obtain ⟨next, hderegister⟩ := deregister_isOk_iff.mpr hhandles
    rw [regController_handleNext rfl hderegister]
    refine ⟨fun hafter => ⟨hhandles, Knows.hostStays_of_deregister hderegister hafter⟩, ?_⟩
    rintro ⟨-, hhost⟩
    refine (hknows.deregister hderegister hhost).congr fun _ => ?_
    simp [registered_concat, Arrival.Registers, Arrival.Leaves]
  | kvAdmit msg | kvEvict msg =>
    refine ⟨fun _ => ⟨hhandles, trivial⟩, fun _ => hknows.congr fun _ => ?_⟩
    simp [registered_concat, Arrival.Registers, Arrival.Leaves]

theorem mapsAgree_concat (hagree : MapsAgree past) :
    MapsAgree (past ++ [arrival]) ↔ (handled past).Careful arrival := by
  constructor
  · intro hnext
    have hhandles := handles_iff.mp (hnext.returns past arrival rfl)
    exact (knows_concat hagree.knows hhandles).mp hnext.knows
  · intro hcareful
    have hknows := (knows_concat hagree.knows hcareful.1).mpr hcareful
    refine ⟨?_, hknows, fun instanceId => ?_⟩
    · intro before last hsplit
      obtain ⟨rfl, hlast⟩ := append_inj' hsplit rfl
      cases hlast
      exact handles_iff.mpr hcareful.1
    · obtain ⟨reached, htargets, hreached⟩ := hknows.commandTargets_eq instanceId
      exact reaches_of_knows hknows htargets hreached

theorem mapsAgree_nil : MapsAgree [] := by
  have hnone : ∀ worker : Text × Int, worker ∈ [] ↔ Registered [] worker :=
    fun _ => iff_of_false not_mem_nil not_since_nil
  have hknows : (handled []).regController.Knows (Registered []) :=
    ⟨fun _ => nodup_nil, fun _ => iff_of_false not_mem_nil not_since_nil, hnone, hnone,
      hnone, fun ip instanceId hip => by cases hip⟩
  exact ⟨fun before arrival hsplit => absurd hsplit (by simp), hknows,
    fun _ => reaches_of_knows hknows rfl rfl⟩

theorem moveReaches_iff (hagree : MapsAgree past) (source destination : Text) :
    Reaches past source ((handled past).regController.moveTargets source destination) ↔
      ((handled past).regController.getWorkers source).length ≤
        ((handled past).regController.getWorkers destination).length := by
  obtain ⟨reached, htargets, hreached⟩ := hagree.knows.moveTargets_eq source destination
  constructor
  · rintro ⟨targets, heq, -, hall⟩
    rw [htargets] at heq
    cases heq
    have hsubset : (handled past).regController.getWorkers source ⊆ reached.map Prod.fst :=
      fun workerId hworker =>
        (hall workerId).mpr ((hagree.knows.workers (source, workerId)).mp hworker)
    have hle := ((hagree.knows.nodup source).subperm hsubset).length_le
    rw [hreached, length_map, length_zip] at hle
    omega
  · intro hle
    rw [map_fst_zip hle] at hreached
    exact reaches_of_knows hagree.knows htargets hreached

end ControllerManager

/-- The maps are right after every message of a sequence, and commands reach
every registered worker once, exactly if every message is careful; a move does
so in addition exactly if the destination has as many workers as the source. -/
theorem mapsAgree_iff (arrivals : List Arrival) :
    ((∀ handled, handled <+: arrivals → MapsAgree handled) ↔
      Meets ControllerManager.step ControllerManager.Careful ControllerManager.init arrivals) ∧
    (MapsAgree arrivals → ∀ source destination,
      Reaches arrivals source ((ControllerManager.handled arrivals).regController.moveTargets
        source destination) ↔
      ((ControllerManager.handled arrivals).regController.getWorkers source).length ≤
        ((ControllerManager.handled arrivals).regController.getWorkers destination).length) := by
  refine ⟨?_, ControllerManager.moveReaches_iff⟩
  exact forall_history_iff_meets ControllerManager.step_handled
    (fun _ _ => ControllerManager.mapsAgree_concat) ControllerManager.mapsAgree_nil arrivals

open ControllerRun in
/-- A worker that registers twice is listed twice, one that is unknown makes the
deregistration raise, one that leaves under another address leaves its host
behind, and a move to an instance with one worker passes over the second. -/
theorem not_mapsAgree_repeated : ¬ MapsAgree [joins 0, joins 0] ∧ ¬ MapsAgree [joins 0, leaves 1] ∧
    ¬ MapsAgree [joins 0, arrive (.deRegister ⟨instanceName, 0, "g".toList, 1⟩)] ∧
    ¬ Reaches [joins 0, joins 1, arrive (.register ⟨location, 0, "g".toList, 1, []⟩)] instanceName
      ((ControllerManager.handled [joins 0, joins 1,
        arrive (.register ⟨location, 0, "g".toList, 1, []⟩)]).regController.moveTargets
          instanceName location) := by
  refine ⟨fun hagree => ?_, fun hagree => ?_, fun hagree => ?_, ?_⟩
  · exact absurd (hagree.knows.nodup instanceName) (by decide)
  · exact absurd (ControllerManager.handles_iff.mp (hagree.returns [joins 0] (leaves 1) rfl))
      (by decide)
  · obtain ⟨workerId, info, hinfo, -⟩ := hagree.knows.hosts "h".toList instanceName (by decide)
    cases hinfo
  · rintro ⟨reached, htargets, -, hall⟩
    cases htargets
    have hsecond := (hall 1).mpr ⟨[joins 0], joins 1, _, rfl, rfl, by
      simp [arrive, Arrival.Leaves]⟩
    revert hsecond
    decide

end CatKV
