/-
Threads that lock and unlock non-recursive mutexes.  A call emits its lock
events in order; if every nested lock goes up in a fixed rank, no thread ever
waits for a mutex of its own and no cycle of waiting can arise, whatever the
interleaving.
-/
import CatKV.Transition
import Mathlib.Logic.Relation
import Mathlib.Logic.Function.Basic

namespace CatKV

inductive LockEvent (Mutex : Type) where
  | acquire (mutex : Mutex)
  | release (mutex : Mutex)
deriving Repr, DecidableEq

section Sections

variable {Mutex : Type}

/-- The scope of a lock guard. -/
def locked (mutex : Mutex) (body : List (LockEvent Mutex)) : List (LockEvent Mutex) :=
  .acquire mutex :: (body ++ [.release mutex])

/-- Waiting on a condition variable gives the mutex back and takes it again
once for every wakeup. -/
def wakeups (mutex : Mutex) : Nat → List (LockEvent Mutex)
  | 0 => []
  | count + 1 => .release mutex :: .acquire mutex :: wakeups mutex count

def lockedWait (mutex : Mutex) (count : Nat) : List (LockEvent Mutex) :=
  locked mutex (wakeups mutex count)

variable [DecidableEq Mutex]

/-- From the mutexes held, every further lock goes up in rank, and at the end
nothing is held. -/
def Ordered (rank : Mutex → Nat) : List Mutex → List (LockEvent Mutex) → Prop
  | held, [] => held = []
  | held, .acquire mutex :: rest =>
    (∀ other ∈ held, rank other < rank mutex) ∧ Ordered rank (mutex :: held) rest
  | held, .release mutex :: rest => Ordered rank (held.erase mutex) rest

/-- A piece of a call that ends with the mutexes it began with. -/
def Nested (rank : Mutex → Nat) (held : List Mutex) (events : List (LockEvent Mutex)) : Prop :=
  ∀ rest, Ordered rank held rest → Ordered rank held (events ++ rest)

variable {rank : Mutex → Nat} {held : List Mutex}

theorem nested_nil : Nested rank held [] := fun _ hrest => hrest

theorem Nested.append {first second : List (LockEvent Mutex)} (hfirst : Nested rank held first)
    (hsecond : Nested rank held second) : Nested rank held (first ++ second) := by
  intro rest hrest
  rw [List.append_assoc]
  exact hfirst _ (hsecond _ hrest)

theorem nested_locked {mutex : Mutex} {body : List (LockEvent Mutex)}
    (hrank : ∀ other ∈ held, rank other < rank mutex) (hbody : Nested rank (mutex :: held) body) :
    Nested rank held (locked mutex body) := by
  intro rest hrest
  refine ⟨hrank, ?_⟩
  change Ordered rank (mutex :: held) (body ++ [.release mutex] ++ rest)
  rw [List.append_assoc]
  refine hbody _ ?_
  change Ordered rank ((mutex :: held).erase mutex) rest
  rw [List.erase_cons_head]
  exact hrest

theorem nested_wakeups {mutex : Mutex} (hrank : ∀ other ∈ held, rank other < rank mutex)
    (count : Nat) : Nested rank (mutex :: held) (wakeups mutex count) := by
  induction count with
  | zero => exact nested_nil
  | succ count ih =>
    intro rest hrest
    change Ordered rank ((mutex :: held).erase mutex)
      (.acquire mutex :: (wakeups mutex count ++ rest))
    rw [List.erase_cons_head]
    exact ⟨hrank, ih rest hrest⟩

theorem Nested.ordered {events : List (LockEvent Mutex)}
    (hnested : Nested rank [] events) : Ordered rank [] events := by
  have hevents := hnested [] rfl
  rwa [List.append_nil] at hevents

end Sections

/-! Threads. -/

/-- `order` records which mutexes were held when another one was locked. -/
structure LockState (World Mutex : Type) where
  world : World
  owner : Mutex → Option Nat
  held : Nat → List Mutex
  ahead : Nat → List (LockEvent Mutex)
  order : List (Mutex × Mutex)

def LockState.initial {World Mutex : Type} (world : World) : LockState World Mutex :=
  ⟨world, fun _ => none, fun _ => [], fun _ => [], []⟩

section Discipline

variable {World Mutex : Type}

/-- No thread is about to lock a mutex it holds. -/
def LockState.NoRelock (state : LockState World Mutex) : Prop :=
  ∀ thread mutex rest, state.ahead thread = .acquire mutex :: rest → mutex ∉ state.held thread

/-- A mutex was held when another was locked, or is held by a thread about to
lock it. -/
def LockState.HeldWhileAcquiring (state : LockState World Mutex) (held wanted : Mutex) : Prop :=
  (held, wanted) ∈ state.order ∨ ∃ thread rest, state.ahead thread = .acquire wanted :: rest ∧
      held ∈ state.held thread

structure LockState.Disciplined (state : LockState World Mutex) : Prop where
  no_relock : state.NoRelock
  acyclic : ∀ mutex, ¬ Relation.TransGen state.HeldWhileAcquiring mutex mutex

variable {rank : Mutex → Nat} {state : LockState World Mutex}

/-- Where every lock goes up in rank, no thread waits for itself and there is
no cycle. -/
theorem LockState.disciplined_of_lt (hlt : ∀ held wanted, state.HeldWhileAcquiring held wanted →
    rank held < rank wanted) : state.Disciplined := by
  have hpath : ∀ {first last : Mutex}, Relation.TransGen state.HeldWhileAcquiring first last →
        rank first < rank last := by
    intro first last hpath
    induction hpath with
    | single hedge => exact hlt _ _ hedge
    | tail _ hedge ih => exact Nat.lt_trans ih (hlt _ _ hedge)
  constructor
  · intro thread mutex rest hahead hheld
    exact Nat.lt_irrefl _ (hlt _ _ (Or.inr ⟨thread, rest, hahead, hheld⟩))
  · intro mutex hcycle
    exact Nat.lt_irrefl _ (hpath hcycle)

end Discipline

inductive LockAction (Call : Type) where
  | call (thread : Nat) (call : Call)
  | advance (thread : Nat)
deriving Repr, DecidableEq

section Threads

variable {World Mutex Call : Type} [DecidableEq Mutex]

/-- The next lock event of a thread; a lock of an owned mutex blocks, also when
the thread owns it itself. -/
def LockState.perform (state : LockState World Mutex) (thread : Nat) :
    List (LockEvent Mutex) → Option (LockState World Mutex)
  | [] => none
  | .acquire mutex :: rest =>
    match state.owner mutex with
    | some _ => none
    | none => some { state with
        owner := Function.update state.owner mutex (some thread)
        held := Function.update state.held thread (mutex :: state.held thread)
        ahead := Function.update state.ahead thread rest
        order := (state.held thread).map (·, mutex) ++ state.order }
  | .release mutex :: rest => some { state with
      owner := Function.update state.owner mutex none
      held := Function.update state.held thread ((state.held thread).erase mutex)
      ahead := Function.update state.ahead thread rest }

/-- A call takes its first lock and has its effect on the world inside that
critical section; its further lock events follow one by one. -/
def lockStep (effect : World → Call → Option World) (events : World → Call → List (LockEvent Mutex))
    (state : LockState World Mutex) :
    LockAction Call → Option (LockState World Mutex)
  | .call thread call =>
    if (state.ahead thread).isEmpty then
      match effect state.world call with
      | none => none
      | some world =>
        if (events state.world call).isEmpty then some { state with world := world }
        else LockState.perform { state with world := world } thread (events state.world call)
    else none
  | .advance thread => state.perform thread (state.ahead thread)

structure RankInv (rank : Mutex → Nat) (state : LockState World Mutex) : Prop where
  ordered : ∀ thread, Ordered rank (state.held thread) (state.ahead thread)
  order_lt : ∀ edge ∈ state.order, rank edge.1 < rank edge.2

variable {rank : Mutex → Nat} {state : LockState World Mutex}

theorem rankInv_initial (world : World) :
    RankInv rank (LockState.initial world : LockState World Mutex) :=
  ⟨fun _ => rfl, by simp [LockState.initial]⟩

section

variable (hinv : RankInv rank state)

include hinv

theorem RankInv.held_lt {thread : Nat} {mutex other : Mutex} {rest : List (LockEvent Mutex)}
    (hahead : state.ahead thread = .acquire mutex :: rest) (hheld : other ∈ state.held thread) :
    rank other < rank mutex := by
  have hordered := hinv.ordered thread
  rw [hahead] at hordered
  exact hordered.1 other hheld

theorem RankInv.heldWhileAcquiring_lt {held wanted : Mutex}
    (hedge : state.HeldWhileAcquiring held wanted) : rank held < rank wanted := by
  rcases hedge with horder | ⟨thread, rest, hahead, hheld⟩
  · exact hinv.order_lt _ horder
  · exact hinv.held_lt hahead hheld

theorem RankInv.disciplined : state.Disciplined :=
  LockState.disciplined_of_lt fun _ _ => hinv.heldWhileAcquiring_lt

/-- Performing ordered events of one thread keeps every thread ordered. -/
theorem RankInv.perform {thread : Nat} {events : List (LockEvent Mutex)}
    {next : LockState World Mutex} (hevents : Ordered rank (state.held thread) events)
    (hperform : state.perform thread events = some next) : RankInv rank next := by
  -- the other threads keep their locks and their events
  have hothers : ∀ (held : List Mutex) (rest : List (LockEvent Mutex)),
      Ordered rank held rest → ∀ other,
      Ordered rank (Function.update state.held thread held other)
        (Function.update state.ahead thread rest other) := by
    intro held rest hordered other
    by_cases hsame : other = thread
    · subst hsame
      rw [Function.update_self, Function.update_self]
      exact hordered
    · rw [Function.update_of_ne hsame, Function.update_of_ne hsame]
      exact hinv.ordered other
  unfold LockState.perform at hperform
  split at hperform
  · cases hperform
  · split at hperform
    · cases hperform
    · cases hperform
      refine ⟨hothers _ _ hevents.2, ?_⟩
      simp only [List.forall_mem_append, List.forall_mem_map]
      exact ⟨hevents.1, hinv.order_lt⟩
  · cases hperform
    exact ⟨hothers _ _ hevents, hinv.order_lt⟩

theorem RankInv.step {effect : World → Call → Option World}
    {events : World → Call → List (LockEvent Mutex)} {action : LockAction Call}
    {next : LockState World Mutex} (hcalls : ∀ thread call, action = .call thread call →
      Ordered rank [] (events state.world call))
    (hstep : lockStep effect events state action = some next) : RankInv rank next := by
  cases action with
  | call thread call =>
    simp only [lockStep] at hstep
    split at hstep
    · next hidle =>
      -- a thread between two calls holds nothing
      have hnil : state.held thread = [] := by
        have hordered := hinv.ordered thread
        rwa [List.isEmpty_iff.mp hidle] at hordered
      split at hstep
      · cases hstep
      · next world hworld =>
        have hworldInv : RankInv rank { state with world := world } := ⟨hinv.ordered, hinv.order_lt⟩
        split at hstep
        · cases hstep
          exact hworldInv
        · refine hworldInv.perform ?_ hstep
          rw [hnil]
          exact hcalls thread call rfl
    · cases hstep
  | advance thread => exact hinv.perform (hinv.ordered thread) hstep

end

/-- Calls whose locks go up in rank keep the discipline in every run. -/
theorem LockState.disciplined_of_ordered (rank : Mutex → Nat) {effect : World → Call → Option World}
    {events : World → Call → List (LockEvent Mutex)} {world : World}
    {actions : List (LockAction Call)} {final : LockState World Mutex}
    (hcalls : Meets (lockStep effect events)
      (fun state action => ∀ thread call, action = .call thread call →
        Ordered rank [] (events state.world call))
      (LockState.initial world) actions)
    (hrun : runFrom (lockStep effect events) (LockState.initial world)
      actions = some final) : final.Disciplined := by
  have hinv : RankInv rank final :=
    run_invariant (fun _ _ _ hinv hcondition hstep =>
      hinv.step hcondition hstep) (rankInv_initial world) hcalls hrun
  exact hinv.disciplined

end Threads

end CatKV
