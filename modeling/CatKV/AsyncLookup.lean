/-
`LMCacheAsyncLookupClient`: a lookup is sent to the workers, and a receiving
thread collects their answers.  It counts them against the tensor-parallel
size, however many workers were asked; the configuration of a request travels
as text.
-/
import CatKV.KeyIdentity
import CatKV.LookupService
import CatKV.Transition

namespace CatKV.AsyncLookup

open List

open LookupService (Setting)

variable {ι ω : Type}

def writeConfigs (methods : ValueMethods ω) (configs : Option (RequestConfigs ω)) : Text :=
  ['@'].intercalate ((configs.elim [] (·.entries)).map methods.tagText)

/-- The configuration as the worker reads it, or a `ValueError`. -/
def readConfigs (text : Text) : Option (Option (RequestConfigs ω)) :=
  if text = [] then some none
  else CacheEngineKey.configsFrom [] (text.splitOn '@')

/-- A message to a worker, with the configuration that was meant. -/
structure Request (ι ω : Type) where
  rank : Nat
  lookupId : ι
  configsText : Text
  requestConfigs : Option (RequestConfigs ω)

/-- The dictionaries of the client and the messages both ways.  A worker's
thread may have ended.  `answers` has what the workers have answered since the
last time a lookup was sent. -/
structure State (ι ω : Type) where
  reqsStatus : ι → Option (Option Nat)
  resForEachWorker : ι → List Nat
  requests : List (Request ι ω)
  ended : List Nat
  responses : List (ι × Nat)
  answers : ι → List Nat

def State.start : State ι ω where
  reqsStatus _ := none
  resForEachWorker _ := []
  requests := []
  ended := []
  responses := []
  answers _ := []

inductive Action (ι ω : Type) where
  | lookup (lookupId : ι) (requestConfigs : Option (RequestConfigs ω))
  | processRequest (index numHitTokens : Nat)
  | processResponse (index : Nat)

/-- Strings without the separators, and not an empty dictionary. -/
def Plain : Action ι ω → Prop
  | .lookup _ (some configs) =>
    configs.entries ≠ [] ∧ ∀ tag ∈ configs.entries, PlainTag tag
  | _ => True

theorem readConfigs_writeConfigs (methods : ValueMethods ω) {lookupId : ι}
    {configs : Option (RequestConfigs ω)} (hplain : Plain (.lookup lookupId configs)) :
    readConfigs (writeConfigs methods configs) = some configs := by
  rcases configs with _ | ⟨entries, hnodup⟩
  · rfl
  · obtain ⟨hne, hplain⟩ := hplain
    have hsplit : (writeConfigs methods (some ⟨entries, hnodup⟩)).splitOn '@' =
        entries.map methods.tagText := by
      apply splitOn_intercalate
      · intro part hpart
        obtain ⟨tag, htag, rfl⟩ := mem_map.mp hpart
        exact ValueMethods.not_mem_tagText (hplain tag htag)
      · exact map_eq_nil_iff.not.mpr hne
    have htext : writeConfigs methods (some ⟨entries, hnodup⟩) ≠ [] := by
      intro hnil
      rw [hnil, splitOn_nil] at hsplit
      obtain ⟨tag, -, htag⟩ := mem_map.mp (hsplit ▸ mem_singleton_self ([] : Text))
      simp [ValueMethods.tagText] at htag
    obtain ⟨⟨read, hread⟩, hfold, hentries⟩ := @CacheEngineKey.foldlM_tagText ω
      methods OrderedDict.empty [] entries [] rfl hnodup hplain
    obtain rfl : read = entries := by simpa using hentries
    rw [readConfigs, if_neg htext, hsplit, CacheEngineKey.configsFrom, hfold]
    · rfl
    · exact map_eq_nil_iff.not.mpr hne

variable [DecidableEq ι] (setting : Setting) (methods : ValueMethods ω)

namespace State

variable (state : State ι ω)

def lookup (lookupId : ι) (requestConfigs : Option (RequestConfigs ω)) : Option Nat × State ι ω :=
  match state.reqsStatus lookupId with
  | some none => (none, state)
  | some (some hits) =>
    (some hits, { state with
      reqsStatus := Function.update state.reqsStatus lookupId none })
  | none =>
    (none, { state with
      reqsStatus := Function.update state.reqsStatus lookupId (some none)
      requests := state.requests ++ (List.range setting.ranks).map fun rank =>
        ⟨rank, lookupId, writeConfigs methods requestConfigs, requestConfigs⟩
      answers := Function.update state.answers lookupId [] })

/-- What the receiver does with a response; the list is not empty. -/
def collect (lookupId : ι) (res : Nat) : State ι ω :=
  let allRes := state.resForEachWorker lookupId ++ [res]
  if allRes.length = setting.tensorParallelSize then
    { state with
      resForEachWorker := Function.update state.resForEachWorker lookupId []
      reqsStatus := Function.update state.reqsStatus lookupId (some allRes.min?) }
  else
    { state with
      resForEachWorker := Function.update state.resForEachWorker lookupId allRes }

/-- One call, or one message with the answer that it gets; a thread that has
ended takes none. -/
def step : Action ι ω → Option (State ι ω)
  | .lookup lookupId requestConfigs =>
    some (state.lookup setting methods lookupId requestConfigs).2
  | .processRequest index numHitTokens =>
    (pick state.requests index).bind fun (before, request, after) =>
      let left := { state with requests := before ++ after }
      if request.rank ∈ state.ended then none
      else if (readConfigs request.configsText : Option (Option (RequestConfigs ω))).isNone then
        some { left with ended := request.rank :: state.ended }
      else some { left with
        responses := state.responses ++ [(request.lookupId, numHitTokens)]
        answers := Function.update state.answers request.lookupId
          (state.answers request.lookupId ++ [numHitTokens]) }
  | .processResponse index =>
    (pick state.responses index).map fun (before, response, after) =>
      { state with responses := before ++ after }.collect setting response.1 response.2

/-- The workers that have been asked and have not answered. -/
def asked (lookupId : ι) : Nat := state.requests.countP (·.lookupId = lookupId)

/-- The answers that the receiver has not seen. -/
def unseen (lookupId : ι) : List Nat := (state.responses.filter (·.1 = lookupId)).map Prod.snd

/-- A number is returned when all workers that were asked have answered; it is
the least of their answers, and nothing is left of the round.  While there is
none, something is on its way.  The worker reads the configuration that the
client was given. -/
def Sound : Action ι ω → Prop
  | .lookup lookupId requestConfigs =>
    let (result, next) := state.lookup setting methods lookupId requestConfigs
    (∀ hits ∈ result, state.asked lookupId = 0 ∧ (state.answers lookupId).length = setting.ranks ∧
      (state.answers lookupId).min? = some hits ∧
      next.reqsStatus lookupId = none ∧
      next.resForEachWorker lookupId = []) ∧
    (state.reqsStatus lookupId = some none → state.asked lookupId ≠ 0 ∨ state.unseen lookupId ≠ [])
  | .processRequest index _ => ∀ found ∈ pick state.requests index,
      readConfigs found.2.1.configsText = some found.2.1.requestConfigs
  | _ => True

end State

/-- What there is of one lookup: the workers that are asked, the answers on
their way, received and given, and the status. -/
def State.view (state : State ι ω) (lookupId : ι) :
    Nat × List Nat × List Nat × List Nat × Option (Option Nat) :=
  (state.asked lookupId, state.unseen lookupId,
    state.resForEachWorker lookupId, state.answers lookupId,
    state.reqsStatus lookupId)

/-- Between the rounds of a lookup, in a round, and with a result that has not
been taken. -/
def RoundOk (size : Nat) : Nat × List Nat × List Nat × List Nat × Option (Option Nat) → Prop
  | (asked, unseen, res, _, none) => asked = 0 ∧ unseen = [] ∧ res = []
  | (asked, unseen, res, answers, some none) =>
    asked + answers.length = size ∧ answers.Perm (res ++ unseen) ∧ res.length < size
  | (asked, unseen, res, answers, some (some hits)) =>
    asked = 0 ∧ unseen = [] ∧ res = [] ∧ answers.length = size ∧ answers.min? = some hits

theorem RoundOk.ongoing {size asked : Nat} {unseen res answers : List Nat}
    {status : Option (Option Nat)} (hround : RoundOk size (asked, unseen, res, answers, status))
    (hbusy : asked ≠ 0 ∨ unseen ≠ []) :
    status = some none ∧ asked + answers.length = size ∧
      answers.Perm (res ++ unseen) ∧ res.length < size := by
  rcases status with _ | _ | hits
  · exact absurd hbusy (by simp [hround.1, hround.2.1])
  · exact ⟨rfl, hround⟩
  · exact absurd hbusy (by simp [hround.1, hround.2.1])

structure Inv (state : State ι ω) : Prop where
  readable : ∀ request ∈ state.requests,
    readConfigs request.configsText = some request.requestConfigs
  rounds : ∀ lookupId, RoundOk setting.tensorParallelSize (state.view lookupId)

variable {setting methods} {state next : State ι ω}

theorem Inv.sound (hinv : Inv setting state) (hranks : setting.ranks = setting.tensorParallelSize)
    (action : Action ι ω) : state.Sound setting methods action := by
  cases action with
  | lookup lookupId configs =>
    have hround := hinv.rounds lookupId
    simp only [State.Sound, State.lookup, State.view] at hround ⊢
    cases hstatus : state.reqsStatus lookupId with
    | none => simp
    | some result =>
      rw [hstatus] at hround
      cases result with
      | none =>
        refine ⟨by simp, fun _ => ?_⟩
        obtain ⟨hcount, hperm, hless⟩ := hround
        by_contra hnone
        rw [not_or, not_not, not_not] at hnone
        rw [hnone.2, append_nil] at hperm
        have hlength := hperm.length_eq
        omega
      | some hits =>
        obtain ⟨hasked, -, hres, hlength, hmin⟩ := hround
        refine ⟨?_, by simp⟩
        rintro _ ⟨⟩
        exact ⟨hasked, hlength.trans hranks.symm, hmin, by simp, hres⟩
  | processRequest index hits =>
    intro found hfound
    exact hinv.readable _ (mem_of_pick hfound)
  | processResponse index => trivial

theorem Inv.touch (hinv : Inv setting state) (lookupId : ι) (hreadable : ∀ request ∈ next.requests,
      readConfigs request.configsText = some request.requestConfigs)
    (hothers : ∀ other, other ≠ lookupId → next.view other = state.view other)
    (hround : RoundOk setting.tensorParallelSize (next.view lookupId)) :
    Inv setting next where
  readable := hreadable
  rounds other := by
    by_cases hother : other = lookupId
    · exact hother ▸ hround
    · exact hothers other hother ▸ hinv.rounds other

theorem Inv.lookup (hinv : Inv setting state) (hranks : setting.ranks = setting.tensorParallelSize)
    {lookupId : ι} {configs : Option (RequestConfigs ω)}
    (hplain : Plain (.lookup lookupId configs)) :
    Inv setting (state.lookup setting methods lookupId configs).2 := by
  have hround := hinv.rounds lookupId
  unfold State.lookup State.view at *
  split
  · exact hinv
  · next hits hstatus =>
    rw [hstatus] at hround
    refine hinv.touch lookupId hinv.readable (fun other hother => ?_) ?_
    · simp [State.view, State.asked, State.unseen, hother]
    · simpa [State.view, RoundOk] using ⟨hround.1, hround.2.1, hround.2.2.1⟩
  · next hstatus =>
    rw [hstatus] at hround
    obtain ⟨hasked, hunseen, hres⟩ := hround
    refine hinv.touch lookupId ?_ (fun other hother => ?_) ?_
    · intro request hrequest
      rcases mem_append.mp hrequest with hold | hnew
      · exact hinv.readable request hold
      · obtain ⟨rank, -, rfl⟩ := mem_map.mp hnew
        exact readConfigs_writeConfigs methods hplain
    · simp [State.view, State.asked, State.unseen, hother, Ne.symm hother,
        countP_map, Function.comp_def]
    · have hsize := setting.tensorParallelSize_pos
      simp only [State.asked, State.unseen] at hasked hunseen
      simp [State.view, State.asked, State.unseen, RoundOk, hasked, hunseen,
        hres, hranks, hsize, countP_map, Function.comp_def]

theorem Inv.processRequest (hinv : Inv setting state) {index hits : Nat}
    (hstep : state.step setting methods (.processRequest index hits) =
      some next) : Inv setting next := by
  obtain ⟨⟨before, request, after⟩, hpick, hnext⟩ := Option.bind_eq_some_iff.mp hstep
  have hrequests := pick_eq hpick
  simp only [hinv.readable request (mem_of_pick hpick), Option.isNone_some,
    Bool.false_eq_true, if_false] at hnext
  split at hnext
  · cases hnext
  · cases hnext
    have hround := hinv.rounds request.lookupId
    refine hinv.touch request.lookupId ?_ (fun other hother => ?_) ?_
    · exact fun other hother => hinv.readable other (mem_of_mem_others hrequests hother)
    · simp [State.view, State.asked, State.unseen, hrequests, hother, Ne.symm hother]
    · simp only [State.view, State.asked, State.unseen, hrequests,
        countP_append, countP_cons, decide_true, if_true] at hround ⊢
      obtain ⟨hstatus, hcount, hperm, hless⟩ := hround.ongoing (Or.inl (by omega))
      rw [hstatus]
      refine ⟨?_, ?_, hless⟩
      · rw [Function.update_self, length_append, length_singleton]
        omega
      · simp only [Function.update_self, filter_append, map_append, filter_cons, decide_true,
          if_true, filter_nil, map_cons, map_nil, ← append_assoc]
        exact hperm.append_right [hits]

theorem min?_of_perm {first second : List Nat} (hperm : first.Perm second) :
    first.min? = second.min? := by
  ext value
  simp only [min?_eq_some_iff, hperm.mem_iff]

theorem roundOk_collect {lookupId : ι} {res : Nat} (hstatus : state.reqsStatus lookupId = some none)
    (hcount : state.asked lookupId + (state.answers lookupId).length =
      setting.tensorParallelSize) (hperm : (state.answers lookupId).Perm
      (state.resForEachWorker lookupId ++ [res] ++ state.unseen lookupId))
    (hless : (state.resForEachWorker lookupId).length < setting.tensorParallelSize) :
    RoundOk setting.tensorParallelSize ((state.collect setting lookupId res).view lookupId) := by
  have hlength := hperm.length_eq
  simp only [length_append, length_singleton] at hlength
  dsimp only [State.collect]
  split
  · next hlast =>
    rw [length_append, length_singleton] at hlast
    obtain ⟨hits, hhits⟩ := Option.isSome_iff_exists.mp (isSome_min?_of_mem (mem_append_right
        (state.resForEachWorker lookupId) (mem_singleton_self res)))
    have hunseen : state.unseen lookupId = [] := length_eq_zero_iff.mp (by omega)
    rw [hunseen, append_nil] at hperm
    simp only [State.view, Function.update_self, hhits]
    exact ⟨(by omega : state.asked lookupId = 0), hunseen, rfl, by omega,
      (min?_of_perm hperm).trans hhits⟩
  · next hmore =>
    rw [length_append, length_singleton] at hmore
    simp only [State.view, Function.update_self, hstatus]
    refine ⟨hcount, hperm, ?_⟩
    rw [length_append, length_singleton]
    omega

theorem Inv.processResponse (hinv : Inv setting state) {index : Nat}
    (hstep : state.step setting methods (.processResponse index) =
      some next) : Inv setting next := by
  obtain ⟨⟨before, ⟨lookupId, res⟩, after⟩, hpick, rfl⟩ := Option.map_eq_some_iff.mp hstep
  have hresponses := pick_eq hpick
  have hthere : (state.unseen lookupId).Perm (res :: State.unseen { state with
        responses := before ++ after } lookupId) := by
    simp [State.unseen, hresponses, perm_middle]
  obtain ⟨hstatus, hcount, hperm, hless⟩ := (hinv.rounds lookupId).ongoing
    (Or.inr fun hnil => by simp [hnil] at hthere)
  refine hinv.touch lookupId ?_ (fun other hother => ?_) (roundOk_collect hstatus hcount ?_ hless)
  · dsimp only [State.collect]
    split <;> exact hinv.readable
  · dsimp only [State.collect]
    split <;> simp [State.view, State.asked, State.unseen, hresponses, hother, Ne.symm hother]
  · rw [append_assoc]
    exact hperm.trans (hthere.append_left _)

theorem Inv.step (hranks : setting.ranks = setting.tensorParallelSize) (hinv : Inv setting state)
    {action : Action ι ω} (hplain : Plain action)
    (hstep : state.step setting methods action = some next) : Inv setting next := by
  cases action with
  | lookup lookupId configs =>
    cases hstep
    exact hinv.lookup hranks hplain
  | processRequest index hits => exact hinv.processRequest hstep
  | processResponse index => exact hinv.processResponse hstep

/-- Two workers, and the one that is asked for a model with MLA. -/
def workers (onlyWorker0 : Bool) : Setting where
  tensorParallelSize := 2
  createLookupServerOnlyOnWorker0ForMla := onlyWorker0
  processTokens _ := []
  tensorParallelSize_pos := Nat.two_pos

/-- A lookup with a tag is sent, answered by two workers and taken. -/
def answeredTwice : List (Action Nat Int) :=
  let configs := some ⟨[(['u'], .text ['1'])], by decide⟩
  [.lookup 0 configs, .processRequest 1 5, .processRequest 0 3,
    .processResponse 0, .lookup 0 configs, .processResponse 0, .lookup 0 configs]

end CatKV.AsyncLookup
