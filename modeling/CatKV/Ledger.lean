/-
The version maps that `RemotePipeline` keeps under its state mutex.  A path is
pending exactly while one task for its current version is on its way, so a
finished task always speaks about the current version.
-/
import CatKV.Payload

namespace CatKV

open List

structure Ledger where
  versions : Bytes → Option Nat
  pendingVersions : Bytes → Option Nat
  uploadedVersions : Bytes → Option Nat
  errors : Bytes → Option String

def Ledger.initial : Ledger := ⟨fun _ => none, fun _ => none, fun _ => none, fun _ => none⟩

/-- `RemotePipeline::Contains`. -/
def Ledger.contains (ledger : Ledger) (path : Bytes) : Bool :=
  match ledger.uploadedVersions path, ledger.versions path with
  | some uploaded, some current => uploaded == current
  | _, _ => false

def Ledger.alreadyPending (ledger : Ledger) (path : Bytes) : Bool :=
  (ledger.pendingVersions path).isSome

inductive SubmitOutcome where
  | droppedDuplicate
  | droppedRss
  | accepted (version : Nat)
deriving Repr, DecidableEq

def rssLimitError : String := "remote upload skipped: process RSS limit exceeded"

/-- `max_process_rss_bytes > 0 && current_rss_bytes >= max_process_rss_bytes`. -/
def rssExceeded (maxProcessRssBytes currentRssBytes : Nat) : Bool :=
  maxProcessRssBytes > 0 && currentRssBytes ≥ maxProcessRssBytes

/-- The version after the current one; an absent version counts as 0. -/
def Ledger.nextVersion (ledger : Ledger) (path : Bytes) : Nat := (ledger.versions path).getD 0 + 1

/-- A new version begins: nothing is uploaded and no error is known for it. -/
def Ledger.start (ledger : Ledger) (path : Bytes) : Ledger :=
  { ledger with
    versions := Function.update ledger.versions path (some (ledger.nextVersion path))
    uploadedVersions := Function.update ledger.uploadedVersions path none
    errors := Function.update ledger.errors path none }

def Ledger.setError (ledger : Ledger) (path : Bytes) (error : String) : Ledger :=
  { ledger with errors := Function.update ledger.errors path (some error) }

def Ledger.setPending (ledger : Ledger) (path : Bytes) (version : Nat) : Ledger :=
  { ledger with
    pendingVersions := Function.update ledger.pendingVersions path (some version) }

/-- The locked part of `Submit`. -/
def Ledger.submit (ledger : Ledger) (path : Bytes) (overLimit : Bool) : SubmitOutcome × Ledger :=
  if ledger.alreadyPending path || ledger.contains path then (.droppedDuplicate, ledger)
  else if overLimit then (.droppedRss, (ledger.start path).setError path rssLimitError)
  else
    (.accepted (ledger.nextVersion path),
      (ledger.start path).setPending path (ledger.nextVersion path))

def Ledger.finalizeSuccess (ledger : Ledger) (path : Bytes) (version : Nat) : Ledger :=
  if ledger.versions path = some version then
    { ledger with
      uploadedVersions := Function.update ledger.uploadedVersions path (some version)
      pendingVersions := Function.update ledger.pendingVersions path none
      errors := Function.update ledger.errors path none }
  else ledger

def Ledger.finalizeError (ledger : Ledger) (path : Bytes) (version : Nat)
    (error : String) : Ledger :=
  if ledger.versions path = some version then
    { ledger with
      errors := Function.update ledger.errors path (some error)
      pendingVersions := Function.update ledger.pendingVersions path none }
  else ledger

def Ledger.handleEvicted (ledger : Ledger) (path : Bytes) (version : Nat) : Ledger :=
  if ledger.pendingVersions path = some version then
    { ledger with
      pendingVersions := Function.update ledger.pendingVersions path none }
  else ledger

/-! Once a path is contained it stays contained. -/

variable {ledger : Ledger} {path : Bytes}

theorem Ledger.contains_iff : ledger.contains path = true ↔ ∃ version,
    ledger.uploadedVersions path = some version ∧ ledger.versions path = some version := by
  unfold Ledger.contains
  split
  · next uploaded current huploaded hcurrent =>
    simp only [huploaded, hcurrent, beq_iff_eq, Option.some.injEq]
    constructor
    · rintro rfl
      exact ⟨uploaded, rfl, rfl⟩
    · rintro ⟨version, rfl, rfl⟩
      rfl
  · next habsent =>
    simp only [Bool.false_eq_true, false_iff, not_exists, not_and]
    intro version huploaded hcurrent
    exact habsent version version huploaded hcurrent

theorem Ledger.contains_submit (ledger : Ledger) (path : Bytes) (overLimit : Bool) (other : Bytes) :
    (ledger.submit path overLimit).2.contains other = ledger.contains other := by
  unfold Ledger.submit
  split
  · rfl
  · next hfresh =>
    have habsent : ledger.contains path = false := by
      simp only [Bool.or_eq_true, not_or, Bool.not_eq_true] at hfresh
      exact hfresh.2
    have hstart : (ledger.start path).contains other = ledger.contains other := by
      by_cases hpath : other = path
      · subst hpath
        rw [habsent]
        simp [Ledger.contains, Ledger.start]
      · simp [Ledger.contains, Ledger.start, hpath]
    split
    · exact hstart
    · exact hstart

variable {version : Nat}

theorem Ledger.contains_finalizeSuccess {other : Bytes} :
    (ledger.finalizeSuccess path version).contains other = true ↔ ledger.contains other = true ∨
        (other = path ∧ ledger.versions path = some version) := by
  unfold Ledger.finalizeSuccess
  split
  · next hcurrent =>
    by_cases hpath : other = path
    · subst hpath
      simp [Ledger.contains, hcurrent]
    · simp [Ledger.contains, hpath]
  · next hstale => simp [hstale]

@[simp] theorem Ledger.contains_finalizeError (ledger : Ledger)
    (path : Bytes) (version : Nat) (error : String) (other : Bytes) :
    (ledger.finalizeError path version error).contains other = ledger.contains other := by
  unfold Ledger.finalizeError
  split <;> rfl

@[simp] theorem Ledger.contains_handleEvicted (ledger : Ledger)
    (path : Bytes) (version : Nat) (other : Bytes) :
    (ledger.handleEvicted path version).contains other = ledger.contains other := by
  unfold Ledger.handleEvicted
  split <;> rfl

theorem Ledger.versions_submit (hcontains : ledger.contains path = true)
    (other : Bytes) (overLimit : Bool) :
    (ledger.submit other overLimit).2.versions path = ledger.versions path := by
  unfold Ledger.submit
  split
  · rfl
  · next hfresh =>
    have hne : path ≠ other := by
      rintro rfl
      rw [hcontains, Bool.or_true] at hfresh
      exact hfresh rfl
    split
    · simp [Ledger.start, Ledger.setError, hne]
    · simp [Ledger.start, Ledger.setPending, hne]

@[simp] theorem Ledger.versions_finalizeSuccess (ledger : Ledger) (path : Bytes) (version : Nat) :
    (ledger.finalizeSuccess path version).versions = ledger.versions := by
  unfold Ledger.finalizeSuccess
  split <;> rfl

@[simp] theorem Ledger.versions_finalizeError (ledger : Ledger) (path : Bytes) (version : Nat)
    (error : String) : (ledger.finalizeError path version error).versions = ledger.versions := by
  unfold Ledger.finalizeError
  split <;> rfl

@[simp] theorem Ledger.versions_handleEvicted (ledger : Ledger) (path : Bytes) (version : Nat) :
    (ledger.handleEvicted path version).versions = ledger.versions := by
  unfold Ledger.handleEvicted
  split <;> rfl

theorem Ledger.versions_submit_isSome {other : Bytes} {overLimit : Bool}
    (hsome : ((ledger.submit other overLimit).2.versions path).isSome) :
    (ledger.versions path).isSome ∨ path = other := by
  by_cases hpath : path = other
  · exact Or.inr hpath
  · left
    unfold Ledger.submit at hsome
    split at hsome
    · exact hsome
    · split at hsome
      · simpa [Ledger.start, Ledger.setError, hpath] using hsome
      · simpa [Ledger.start, Ledger.setPending, hpath] using hsome

/-! Live tasks. -/

/-- The path and version of a task. -/
abbrev TaskId := Bytes × Nat

/-- What the version maps say about the tasks that are on their way. -/
structure LedgerInv (ledger : Ledger) (live : List TaskId) : Prop where
  live_pending : ∀ task ∈ live, ledger.pendingVersions task.1 = some task.2
  live_nodup : (live.map Prod.fst).Nodup
  pending_live : ∀ path version, ledger.pendingVersions path = some version → (path, version) ∈ live
  pending_current : ∀ path version, ledger.pendingVersions path = some version →
      ledger.versions path = some version
  uploaded_current : ∀ path version, ledger.uploadedVersions path = some version →
      ledger.versions path = some version ∧ ledger.pendingVersions path = none
  errors_idle : ∀ path, (ledger.errors path).isSome →
    ledger.pendingVersions path = none ∧ ledger.uploadedVersions path = none

theorem ledgerInv_initial : LedgerInv Ledger.initial [] :=
  ⟨by simp, by simp, by simp [Ledger.initial], by simp [Ledger.initial],
    by simp [Ledger.initial], by simp [Ledger.initial]⟩

theorem LedgerInv.perm {live live' : List TaskId} (hinv : LedgerInv ledger live)
    (hperm : live.Perm live') : LedgerInv ledger live' :=
  ⟨fun task htask => hinv.live_pending task (hperm.mem_iff.mpr htask),
    (hperm.map Prod.fst).nodup_iff.mp hinv.live_nodup,
    fun path version hpending =>
      hperm.mem_iff.mp (hinv.pending_live path version hpending),
    hinv.pending_current, hinv.uploaded_current, hinv.errors_idle⟩

theorem LedgerInv.live_current {live : List TaskId} (hinv : LedgerInv ledger live) {task : TaskId}
    (htask : task ∈ live) : ledger.versions task.1 = some task.2 :=
  hinv.pending_current task.1 task.2 (hinv.live_pending task htask)

theorem LedgerInv.not_live_of_contains {live : List TaskId}
    (hinv : LedgerInv ledger live) (hcontains : ledger.contains path = true)
    {task : TaskId} (htask : task ∈ live) : task.1 ≠ path := by
  rintro rfl
  obtain ⟨version, huploaded, _⟩ := Ledger.contains_iff.mp hcontains
  have hpending := hinv.live_pending task htask
  rw [(hinv.uploaded_current _ _ huploaded).2] at hpending
  cases hpending

variable {rest : List TaskId}

theorem LedgerInv.head_fresh {task : TaskId} (hinv : LedgerInv ledger (task :: rest))
    {other : TaskId} (hother : other ∈ rest) : other.1 ≠ task.1 := by
  have hnodup := hinv.live_nodup
  simp only [map_cons, nodup_cons] at hnodup
  intro hpath
  exact hnodup.1 (hpath ▸ mem_map_of_mem hother)

section

variable (hinv : LedgerInv ledger ((path, version) :: rest))

include hinv

/-- A task leaves when its path stops being pending.  `next` may change what is
recorded about that path only. -/
theorem LedgerInv.retire {next : Ledger} (hversions : next.versions = ledger.versions)
    (hpending : next.pendingVersions =
      Function.update ledger.pendingVersions path none) (huploaded : ∀ other, other ≠ path →
      next.uploadedVersions other = ledger.uploadedVersions other)
    (herrors : ∀ other, other ≠ path → next.errors other = ledger.errors other)
    (hcurrent : ∀ uploaded, next.uploadedVersions path = some uploaded →
      uploaded = version) (hexclusive : (next.errors path).isSome →
      next.uploadedVersions path = none) : LedgerInv next rest := by
  have hversion : ledger.versions path = some version := hinv.live_current mem_cons_self
  have hother : ∀ other, other ≠ path →
      next.pendingVersions other = ledger.pendingVersions other := by
    intro other hne
    rw [hpending, Function.update_of_ne hne]
  have hsame : next.pendingVersions path = none := by
    rw [hpending, Function.update_self]
  refine ⟨?_, ?_, ?_, ?_, ?_, ?_⟩
  · intro task htask
    rw [hother _ (hinv.head_fresh htask)]
    exact hinv.live_pending task (mem_cons_of_mem _ htask)
  · have hnodup := hinv.live_nodup
    simp only [map_cons, nodup_cons] at hnodup
    exact hnodup.2
  · intro other found hfound
    by_cases hpath : other = path
    · subst hpath
      rw [hsame] at hfound
      cases hfound
    · rw [hother other hpath] at hfound
      rcases mem_cons.mp (hinv.pending_live other found hfound) with
        hhead | hrest
      · exact absurd (congrArg Prod.fst hhead) hpath
      · exact hrest
  · intro other found hfound
    by_cases hpath : other = path
    · subst hpath
      rw [hsame] at hfound
      cases hfound
    · rw [hother other hpath] at hfound
      rw [hversions]
      exact hinv.pending_current other found hfound
  · intro other found hfound
    by_cases hpath : other = path
    · subst hpath
      rw [hcurrent found hfound, hversions]
      exact ⟨hversion, hsame⟩
    · rw [huploaded other hpath] at hfound
      rw [hversions, hother other hpath]
      exact hinv.uploaded_current other found hfound
  · intro other hfound
    by_cases hpath : other = path
    · subst hpath
      exact ⟨hsame, hexclusive hfound⟩
    · rw [herrors other hpath] at hfound
      rw [hother other hpath, huploaded other hpath]
      exact hinv.errors_idle other hfound

theorem LedgerInv.uploaded_none : ledger.uploadedVersions path = none := by
  cases huploaded : ledger.uploadedVersions path with
  | none => rfl
  | some uploaded =>
    have hpending := hinv.live_pending _ mem_cons_self
    rw [(hinv.uploaded_current path uploaded huploaded).2] at hpending
    cases hpending

theorem LedgerInv.finalizeSuccess : LedgerInv (ledger.finalizeSuccess path version) rest := by
  have hversion : ledger.versions path = some version := hinv.live_current mem_cons_self
  rw [Ledger.finalizeSuccess, if_pos hversion]
  refine hinv.retire rfl rfl ?_ ?_ ?_ ?_
  · intro other hne
    exact Function.update_of_ne hne _ _
  · intro other hne
    exact Function.update_of_ne hne _ _
  · intro uploaded huploaded
    simpa using huploaded.symm
  · simp

omit hinv in
theorem LedgerInv.finalizeError (error : String)
    (hinv : LedgerInv ledger ((path, version) :: rest)) :
    LedgerInv (ledger.finalizeError path version error) rest := by
  have hversion : ledger.versions path = some version := hinv.live_current mem_cons_self
  rw [Ledger.finalizeError, if_pos hversion]
  refine hinv.retire rfl rfl (fun _ _ => rfl) ?_ ?_ ?_
  · intro other hne
    exact Function.update_of_ne hne _ _
  · intro uploaded huploaded
    rw [hinv.uploaded_none] at huploaded
    cases huploaded
  · intro _
    exact hinv.uploaded_none

theorem LedgerInv.handleEvicted : LedgerInv (ledger.handleEvicted path version) rest := by
  have hpending : ledger.pendingVersions path = some version := hinv.live_pending _ mem_cons_self
  rw [Ledger.handleEvicted, if_pos hpending]
  refine hinv.retire rfl rfl (fun _ _ => rfl) (fun _ _ => rfl) ?_ ?_
  · intro uploaded huploaded
    rw [hinv.uploaded_none] at huploaded
    cases huploaded
  · intro _
    exact hinv.uploaded_none

end

/-- The live tasks after a submission. -/
def SubmitOutcome.live (path : Bytes) (live : List TaskId) : SubmitOutcome → List TaskId
  | .accepted version => (path, version) :: live
  | _ => live

theorem LedgerInv.start {live : List TaskId} (hinv : LedgerInv ledger live)
    (hidle : ledger.pendingVersions path = none) : LedgerInv (ledger.start path) live := by
  refine ⟨hinv.live_pending, hinv.live_nodup, hinv.pending_live, ?_, ?_, ?_⟩
  · intro other version hpending
    have hne : other ≠ path := by
      rintro rfl
      rw [show (ledger.start other).pendingVersions = ledger.pendingVersions
        from rfl, hidle] at hpending
      cases hpending
    simp only [Ledger.start, Function.update_of_ne hne]
    exact hinv.pending_current other version hpending
  · intro other version huploaded
    by_cases hne : other = path
    · subst hne
      simp [Ledger.start] at huploaded
    · simp only [Ledger.start, Function.update_of_ne hne] at huploaded ⊢
      exact hinv.uploaded_current other version huploaded
  · intro other herror
    by_cases hne : other = path
    · subst hne
      simp [Ledger.start] at herror
    · simp only [Ledger.start, Function.update_of_ne hne] at herror ⊢
      exact hinv.errors_idle other herror

theorem LedgerInv.setError {live : List TaskId} (hinv : LedgerInv ledger live)
    (hidle : ledger.pendingVersions path = none) (hupload : ledger.uploadedVersions path = none)
    (error : String) : LedgerInv (ledger.setError path error) live := by
  refine ⟨hinv.live_pending, hinv.live_nodup, hinv.pending_live,
    hinv.pending_current, hinv.uploaded_current, ?_⟩
  intro other herror
  by_cases hne : other = path
  · subst hne
    exact ⟨hidle, hupload⟩
  · simp only [Ledger.setError, Function.update_of_ne hne] at herror
    exact hinv.errors_idle other herror

theorem LedgerInv.setPending {live : List TaskId} (hinv : LedgerInv ledger live)
    (hversion : ledger.versions path = some version) (hidle : ledger.pendingVersions path = none)
    (hupload : ledger.uploadedVersions path = none) (herror : ledger.errors path = none) :
    LedgerInv (ledger.setPending path version) ((path, version) :: live) := by
  have hnew : ∀ task ∈ live, task.1 ≠ path := by
    rintro task htask rfl
    rw [hinv.live_pending task htask] at hidle
    cases hidle
  refine ⟨?_, ?_, ?_, ?_, ?_, ?_⟩
  · simp only [Ledger.setPending, forall_mem_cons, Function.update_self, true_and]
    intro task htask
    rw [Function.update_of_ne (hnew task htask)]
    exact hinv.live_pending task htask
  · simp only [map_cons, nodup_cons, mem_map, not_exists, not_and]
    exact ⟨hnew, hinv.live_nodup⟩
  · intro other found hfound
    by_cases hne : other = path
    · subst hne
      simp only [Ledger.setPending, Function.update_self, Option.some.injEq] at hfound
      exact hfound ▸ mem_cons_self
    · simp only [Ledger.setPending, Function.update_of_ne hne] at hfound
      exact mem_cons_of_mem _ (hinv.pending_live other found hfound)
  · intro other found hfound
    by_cases hne : other = path
    · subst hne
      simp only [Ledger.setPending, Function.update_self, Option.some.injEq] at hfound
      exact hfound ▸ hversion
    · simp only [Ledger.setPending, Function.update_of_ne hne] at hfound
      exact hinv.pending_current other found hfound
  · intro other found hfound
    have hne : other ≠ path := by
      rintro rfl
      rw [show (ledger.setPending other version).uploadedVersions =
        ledger.uploadedVersions from rfl, hupload] at hfound
      cases hfound
    simp only [Ledger.setPending, Function.update_of_ne hne]
    exact hinv.uploaded_current other found hfound
  · intro other hfound
    have hne : other ≠ path := by
      rintro rfl
      rw [show (ledger.setPending other version).errors = ledger.errors from rfl, herror] at hfound
      cases hfound
    simp only [Ledger.setPending, Function.update_of_ne hne]
    exact hinv.errors_idle other hfound

theorem LedgerInv.submit {live : List TaskId} (hinv : LedgerInv ledger live)
    (path : Bytes) (overLimit : Bool) :
    LedgerInv (ledger.submit path overLimit).2
      ((ledger.submit path overLimit).1.live path live) := by
  unfold Ledger.submit
  split
  · exact hinv
  · next hfresh =>
    have hidle : ledger.pendingVersions path = none := by
      simp only [Bool.or_eq_true, not_or, Bool.not_eq_true, Ledger.alreadyPending,
        Option.isSome_eq_false_iff, Option.isNone_iff_eq_none] at hfresh
      exact hfresh.1
    have hstart := hinv.start hidle
    split
    · exact hstart.setError hidle (by simp [Ledger.start]) rssLimitError
    · exact hstart.setPending (by simp [Ledger.start]) hidle
        (by simp [Ledger.start]) (by simp [Ledger.start])

end CatKV
