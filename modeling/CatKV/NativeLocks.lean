/-
The mutexes of the native side and the calls that lock them: the CPU store, the
remote pipeline, its two managers and their workers, and the callbacks between
them.  `Submit` runs `LogQueueTrace` and `on_drop` while it holds the state
mutex.
-/
import CatKV.LockOrder
import CatKV.PipelineEffect

namespace CatKV

inductive NativeMutex where
  | store
  | entry (entry : Nat)
  | state
  | stats
  | compression
  | compressionStats
  | storage
  | storageStats
  | savedSharedKeySv
  | queueTraceLog
deriving Repr, DecidableEq

/-- `LogQueueTrace`: the state mutex for the pending count, each manager's mutex
for its queue bytes, then the log mutex. -/
def logQueueTrace (queueTraceStdout : Bool) : List (LockEvent NativeMutex) :=
  if queueTraceStdout then
    locked .state [] ++ (locked .compression [] ++ (locked .storage [] ++ locked .queueTraceLog []))
  else []

/-- The `on_success` and `on_drop` callbacks of `SubmitRemote`, which only hold
the entry weakly. -/
def eraseStored (entryAlive : Bool) : List (LockEvent NativeMutex) :=
  if entryAlive then locked .store [] else []

/-- The lock events of one critical section of the pipeline together with the
statistics and traces that go with it. -/
def PipelineAction.locks (config : PipelineConfig) (queueTraceStdout : Bool)
    (state : Pipeline) (entryAlive : Bool) :
    PipelineAction → List (LockEvent NativeMutex)
  | .submit path _ _ rssBytes _ =>
    locked .state (match (state.ledger.submit path
          (rssExceeded config.maxProcessRssBytes rssBytes)).1 with
      | .accepted _ => []
      | .droppedDuplicate | .droppedRss =>
        locked .stats [] ++ (logQueueTrace queueTraceStdout ++ eraseStored entryAlive))
  | .evict _ => locked .compression []
  | .notifyEvicted _ => locked .state [] ++ logQueueTrace queueTraceStdout
  | .enqueue _ => locked .compression [] ++ logQueueTrace queueTraceStdout
  | .dispatch => locked .compression []
  | .collect _ => locked .compression []
  | .compress _ _ _ =>
    locked .compressionStats [] ++ locked .compressionStats []
  | .compressFails _ _ => locked .compressionStats []
  | .emit _ => locked .storage []
  | .releaseRaw _ => locked .compression [] ++ logQueueTrace queueTraceStdout
  | .reportError _ => locked .state []
  | .finish worker =>
    match pick state.compression.workers worker with
    | some (_, ⟨key, _⟩, _) => if key = [] then [] else locked .compression []
    | none => []
  | .take => locked .storage [] ++ locked .storageStats []
  | .save saver =>
    match pick state.storage.savers saver with
    | some (_, ⟨task, _⟩, _) =>
      if !config.skipRemoteSave && task.payload.isSplit && task.sharedName.isSome then
        locked .savedSharedKeySv []
      else []
    | none => []
  | .land _ => []
  | .saveReturns _ => []
  | .saveThrows _ _ => []
  | .unclaim _ => locked .savedSharedKeySv []
  | .releaseSave _ => locked .storage []
  | .finalize _ => locked .state [] ++ logQueueTrace queueTraceStdout
  | .notify _ => eraseStored entryAlive

/-- Calls that lock a native mutex.  `count` is how often a waiting thread is
woken up. -/
inductive NativeCall where
  | pipeline (action : PipelineAction) (entryAlive : Bool)
  /-- `Submit` notes the largest RSS seen. -/
  | observeRss
  /-- `Wait`, `WaitReady` and `WaitAll`. -/
  | wait (count : Nat)
  /-- `Contains` and `PendingCount`. -/
  | contains
  | currentQueueBytes
  | queueStats
  | resetQueueStats
  /-- A compression worker without a task, or a caller of `Enqueue` without
  room. -/
  | awaitRawQueue (count : Nat)
  | awaitSaveQueue (count : Nat)
  | recordSaveDuration
  | shutdown
  | offload (entry : Nat) (allCpu : Bool)
  /-- An offload worker of the store waits for a job and runs it. -/
  | runOffload (entry count : Nat)
  | load (entry count : Nat)
  | waitRemoteReady (entry entryCount count : Nat)
  /-- `Clear`, `Size`, `Lookup`, `GetRemotePipeline`, `EnableRemoteUpload`. -/
  | lockStore
deriving Repr, DecidableEq

/-- `SubmitRemote` up to its call of `Submit`. -/
def submitRemote (entry : Nat) : List (LockEvent NativeMutex) :=
  locked .store [] ++ locked (.entry entry) []

def NativeCall.locks (config : PipelineConfig) (queueTraceStdout : Bool)
    (state : Pipeline) : NativeCall → List (LockEvent NativeMutex)
  | .pipeline action entryAlive =>
    action.locks config queueTraceStdout state entryAlive
  | .observeRss => locked .stats []
  | .wait count => lockedWait .state count
  | .contains => locked .state []
  | .currentQueueBytes => locked .compression [] ++ locked .storage []
  | .queueStats =>
    locked .compressionStats [] ++ (locked .storageStats (locked .storage []) ++ locked .stats [])
  | .resetQueueStats =>
    locked .compressionStats [] ++ (locked .storageStats [] ++ locked .stats [])
  | .awaitRawQueue count => lockedWait .compression count
  | .awaitSaveQueue count => lockedWait .storage count
  | .recordSaveDuration => locked .storageStats []
  | .shutdown =>
    locked .state [] ++ (locked .compression [] ++ locked .storage [])
  | .offload entry allCpu =>
    locked .store [] ++ (if allCpu then locked (.entry entry) [] ++ submitRemote entry
        else locked .store [])
  | .runOffload entry count =>
    lockedWait .store count ++ (locked (.entry entry) [] ++ submitRemote entry)
  | .load entry count => locked .store [] ++ lockedWait (.entry entry) count
  | .waitRemoteReady entry entryCount count =>
    locked .store [] ++ (lockedWait (.entry entry) entryCount ++
      (locked .store [] ++ lockedWait .state count))
  | .lockStore => locked .store []

def NativeCall.effect (config : PipelineConfig) (state : Pipeline) : NativeCall → Option Pipeline
  | .pipeline action _ => state.step config action
  | _ => some state

/-- One step of some thread of the native side. -/
def nativeStep (config : PipelineConfig) (queueTraceStdout : Bool) :
    LockState Pipeline NativeMutex → LockAction NativeCall →
      Option (LockState Pipeline NativeMutex) :=
  lockStep (NativeCall.effect config) (NativeCall.locks config queueTraceStdout)

/-- The state mutex is taken before the statistics and the store mutex, the
statistics mutex of the storage manager before its queue mutex; nothing else
is nested. -/
def NativeMutex.rank : NativeMutex → Nat
  | .state | .storageStats => 0
  | _ => 1

/-- With queue traces on, every submission finds its path neither pending nor
uploaded, and the RSS limit kept. -/
def tracesOutsideLock (config : PipelineConfig) (queueTraceStdout : Bool)
    (state : LockState Pipeline NativeMutex) : LockAction NativeCall → Bool
  | .call _ (.pipeline (.submit path _ _ rssBytes _) _) =>
    !queueTraceStdout || !(state.world.ledger.alreadyPending path ||
        state.world.ledger.contains path ||
        rssExceeded config.maxProcessRssBytes rssBytes)
  | _ => true

/-! Every call is nested in rank order. -/

open NativeMutex

theorem nested_leaf (mutex : NativeMutex) : Nested rank [] (locked mutex []) :=
  nested_locked (by simp) nested_nil

theorem nested_leafWait (mutex : NativeMutex) (count : Nat) :
    Nested rank [] (lockedWait mutex count) :=
  nested_locked (by simp) (nested_wakeups (by simp) count)

theorem nested_under {outer mutex : NativeMutex} (hrank : outer.rank < mutex.rank) :
    Nested rank [outer] (locked mutex []) :=
  nested_locked (by simpa using hrank) nested_nil

theorem nested_logQueueTrace (queueTraceStdout : Bool) :
    Nested rank [] (logQueueTrace queueTraceStdout) := by
  unfold logQueueTrace
  split
  · exact (nested_leaf _).append ((nested_leaf _).append ((nested_leaf _).append (nested_leaf _)))
  · exact nested_nil

theorem nested_eraseStored {held : List NativeMutex}
    (hrank : ∀ other ∈ held, other.rank < store.rank) (entryAlive : Bool) :
    Nested rank held (eraseStored entryAlive) := by
  unfold eraseStored
  split
  · exact nested_locked hrank nested_nil
  · exact nested_nil

theorem nested_submitRemote (entry : Nat) : Nested rank [] (submitRemote entry) :=
  (nested_leaf _).append (nested_leaf _)

variable {config : PipelineConfig} {queueTraceStdout : Bool}

theorem nested_submit {state : Pipeline} {path groupUuid : Bytes} {sizeBytes rssBytes : Nat}
    {onSuccess : Option Nat} (entryAlive : Bool) (hsafe : queueTraceStdout = false ∨
      ¬(state.ledger.alreadyPending path ∨ state.ledger.contains path ∨
        rssExceeded config.maxProcessRssBytes rssBytes)) :
    Nested rank [] (PipelineAction.locks config queueTraceStdout state entryAlive
      (.submit path groupUuid sizeBytes rssBytes onSuccess)) := by
  have hstats : Nested rank [.state] (locked .stats []) := nested_under (by decide)
  have hstore : Nested rank [.state] (eraseStored entryAlive) :=
    nested_eraseStored (by decide) entryAlive
  refine nested_locked (by simp) ?_
  rcases hsafe with rfl | hfresh
  · split
    · exact nested_nil
    · exact hstats.append (nested_nil.append hstore)
    · exact hstats.append (nested_nil.append hstore)
  · have haccepted : (state.ledger.submit path (rssExceeded config.maxProcessRssBytes rssBytes)).1 =
          .accepted (state.ledger.nextVersion path) := by
      simp only [not_or, Bool.not_eq_true] at hfresh
      simp [Ledger.submit, hfresh.1, hfresh.2.1, hfresh.2.2]
    rw [haccepted]
    exact nested_nil

theorem nested_pipeline {state : Pipeline} {action : PipelineAction}
    (entryAlive : Bool) (hsafe : ∀ path groupUuid sizeBytes rssBytes onSuccess,
      action = .submit path groupUuid sizeBytes rssBytes onSuccess →
      queueTraceStdout = false ∨ ¬(state.ledger.alreadyPending path ∨ state.ledger.contains path ∨
          rssExceeded config.maxProcessRssBytes rssBytes)) :
    Nested rank [] (action.locks config queueTraceStdout state entryAlive) := by
  cases action with
  | submit path groupUuid sizeBytes rssBytes onSuccess =>
    exact nested_submit entryAlive (hsafe _ _ _ _ _ rfl)
  | notifyEvicted | enqueue | releaseRaw | finalize =>
    exact (nested_leaf _).append (nested_logQueueTrace _)
  | compress | take => exact (nested_leaf _).append (nested_leaf _)
  | evict | dispatch | collect | compressFails | emit | reportError | unclaim
  | releaseSave => exact nested_leaf _
  | land | saveReturns | saveThrows => exact nested_nil
  | notify => exact nested_eraseStored (by simp) entryAlive
  | finish =>
    simp only [PipelineAction.locks]
    split
    · split
      · exact nested_nil
      · exact nested_leaf _
    · exact nested_nil
  | save =>
    simp only [PipelineAction.locks]
    split
    · split
      · exact nested_leaf _
      · exact nested_nil
    · exact nested_nil

theorem ordered_locks {state : LockState Pipeline NativeMutex} {thread : Nat}
    {call : NativeCall} (hsafe : tracesOutsideLock config queueTraceStdout state
      (.call thread call) = true) :
    Ordered rank [] (call.locks config queueTraceStdout state.world) := by
  refine Nested.ordered ?_
  cases call with
  | pipeline action entryAlive =>
    refine nested_pipeline entryAlive ?_
    rintro path groupUuid sizeBytes rssBytes onSuccess rfl
    simp only [tracesOutsideLock, Bool.or_eq_true, Bool.not_eq_true', Bool.or_eq_false_iff] at hsafe
    simp only [not_or, Bool.not_eq_true]
    rcases hsafe with htrace | ⟨⟨hpending, hcontains⟩, hrss⟩
    · exact Or.inl htrace
    · exact Or.inr ⟨hpending, hcontains, hrss⟩
  | observeRss | contains | recordSaveDuration | lockStore =>
    exact nested_leaf _
  | wait count | awaitRawQueue count | awaitSaveQueue count =>
    exact nested_leafWait _ count
  | currentQueueBytes => exact (nested_leaf _).append (nested_leaf _)
  | queueStats =>
    have hnested : Nested rank [] (locked .storageStats (locked .storage [])) :=
      nested_locked (by simp) (nested_under (by decide))
    exact (nested_leaf _).append (hnested.append (nested_leaf _))
  | resetQueueStats | shutdown =>
    exact (nested_leaf _).append ((nested_leaf _).append (nested_leaf _))
  | offload entry allCpu =>
    refine (nested_leaf _).append ?_
    split
    · exact (nested_leaf _).append (nested_submitRemote entry)
    · exact nested_leaf _
  | runOffload entry count =>
    exact (nested_leafWait _ count).append ((nested_leaf _).append (nested_submitRemote entry))
  | load entry count =>
    exact (nested_leaf _).append (nested_leafWait _ count)
  | waitRemoteReady entry entryCount count =>
    exact (nested_leaf _).append ((nested_leafWait _ entryCount).append
      ((nested_leaf _).append (nested_leafWait _ count)))

/-- For every run of calls on any number of threads in which no submission is
traced under the lock of the state. -/
theorem disciplined_of_meets {config : PipelineConfig} {queueTraceStdout : Bool} {bucket : Bucket}
    {nextDispatch : Nat} {actions : List (LockAction NativeCall)}
    {final : LockState Pipeline NativeMutex}
    (hmeets : Meets (nativeStep config queueTraceStdout) (fun state action =>
        tracesOutsideLock config queueTraceStdout state action = true)
      (LockState.initial (Pipeline.initialWith bucket nextDispatch)) actions)
    (hrun : runFrom (nativeStep config queueTraceStdout)
      (LockState.initial (Pipeline.initialWith bucket nextDispatch)) actions =
        some final) : final.Disciplined := by
  refine LockState.disciplined_of_ordered NativeMutex.rank (hmeets.imp ?_) hrun
  rintro state action hsafe thread call rfl
  exact ordered_locks hsafe

/-- A traced submission is queued while another thread reads the statistics. -/
def tracedEnqueue : List (LockAction NativeCall) :=
  [.call 0 (.pipeline (.submit (ascii "a") [] 1 0 none) true), .advance 0,
    .call 1 .queueStats, .call 0 (.pipeline (.enqueue 0) true), .advance 1,
    .advance 0, .advance 1, .advance 0, .advance 1]

theorem disciplined_tracedEnqueue : ∃ final, runFrom (nativeStep ⟨1, 1, 1, false⟩ true)
    (LockState.initial Pipeline.initial) tracedEnqueue = some final ∧
    final.held 0 = [.state] ∧ final.held 1 = [.storage, .storageStats] ∧
    final.Disciplined := by
  obtain ⟨final, hrun⟩ : ∃ final, runFrom (nativeStep ⟨1, 1, 1, false⟩ true)
      (LockState.initial Pipeline.initial) tracedEnqueue = some final :=
    ⟨_, rfl⟩
  have hheld : final.held 0 = [.state] ∧ final.held 1 = [.storage, .storageStats] := by
    cases hrun
    exact ⟨by decide, by decide⟩
  exact ⟨final, hrun, hheld.1, hheld.2, disciplined_of_meets (by decide +kernel) hrun⟩

/-- One submission over the RSS limit. -/
def tracedDrop : List (LockAction NativeCall) :=
  [.call 0 .observeRss, .advance 0,
    .call 0 (.pipeline (.submit (ascii "a") [] 1 1 none) true), .advance 0,
    .advance 0]

/-- The thread holds the state mutex and is about to lock it for the trace. -/
theorem not_disciplined_tracedDrop : ∃ final, runFrom (nativeStep ⟨0, 0, 1, false⟩ true)
    (LockState.initial Pipeline.initial) tracedDrop = some final ∧
    ¬ final.Disciplined := by
  refine ⟨_, rfl, fun hdisciplined => ?_⟩
  exact hdisciplined.no_relock 0 .state _ rfl (by decide)

end CatKV
