/-
The synchronous lookup service.  `LMCacheLookupClient` sends a message of parts
to the server of each rank over a request-reply socket and waits for all the
replies.  The server thread calls the engine and then replies with the length of
`tokens`, a name that is bound only where blending is enabled.
-/
import Mathlib.Algebra.Order.Ring.Nat
import Mathlib.Order.MinMax

namespace CatKV
namespace LookupService

variable {σ ρ υ : Type}

/-- The parts of a message by what they encode: lists of integers in msgpack, a
lookup id, and the request's configuration in JSON or the empty text. -/
inductive Frame (ρ υ : Type) where
  | ints (values : List Nat)
  | lookupId (id : ρ)
  | configs (values : Option (List (String × υ)))

def Frame.decodeInts : Frame ρ υ → Option (List Nat)
  | .ints values => some values
  | _ => none

def Frame.decodeId : Frame ρ υ → Option ρ
  | .lookupId id => some id
  | _ => none

def Frame.decodeConfigs : Frame ρ υ → Option (Option (List (String × υ)))
  | .configs values => some values
  | _ => none

/-- The arguments of `engine.lookup`; `pin` is always true. -/
structure LookupCall (ρ υ : Type) where
  hashes : List Nat
  offsets : List Nat
  tokens : Option (List Nat)
  lookupId : ρ
  requestConfigs : Option (List (String × υ))

/-- `engine.lookup` of one rank, on whatever is stored there. -/
abbrev Engine (σ ρ υ : Type) := σ → LookupCall ρ υ → Nat × σ

/-- The call a server makes out of the parts of a message.  The last two parts
are read in both modes. -/
def callOf (enableBlending : Bool) (frames : List (Frame ρ υ)) : Option (LookupCall ρ υ) :=
  (frames[frames.length - 2]?.bind Frame.decodeId).bind fun lookupId =>
    (frames[frames.length - 1]?.bind Frame.decodeConfigs).bind fun configs =>
      if enableBlending then
        (frames[0]?.bind Frame.decodeInts).map fun tokens =>
          ⟨[], [], some tokens, lookupId, configs⟩
      else
        (frames[0]?.bind Frame.decodeInts).bind fun hashes =>
          (frames[1]?.bind Frame.decodeInts).map fun offsets =>
            ⟨hashes, offsets, none, lookupId, configs⟩

/-- A server: what its engine stores, and the thread with its local variable
`tokens`, until an exception ends it. -/
structure Server (σ : Type) where
  engine : σ
  thread : Option (Option (List Nat))

/-- One turn of `process_request`, with the reply it sends.  `len(tokens)`
raises while `tokens` is unbound, and `to_bytes(4)` on a larger number. -/
def Server.processRequest (engine : Engine σ ρ υ) (enableBlending : Bool)
    (server : Server σ) (frames : List (Frame ρ υ)) :
    Server σ × Option Nat :=
  match server.thread with
  | none => (server, none)
  | some tokens =>
    match callOf enableBlending frames with
    | none => ({ server with thread := none }, none)
    | some call =>
      let bound := call.tokens.or tokens
      let after := (engine server.engine call).2
      match bound with
      | some values =>
        if values.length < 2 ^ 32 then (⟨after, some bound⟩, some values.length)
        else (⟨after, none⟩, none)
      | none => (⟨after, none⟩, none)

/-- One lookup of a client. -/
structure Request (ρ υ : Type) where
  tokenIds : List Nat
  lookupId : ρ
  requestConfigs : Option (List (String × υ))

/-- The ranks, and how tokens are cut into chunks with a start, an end and a
hash. -/
structure Setting where
  tensorParallelSize : Nat
  createLookupServerOnlyOnWorker0ForMla : Bool
  processTokens : List Nat → List (Nat × Nat × Nat)
  tensorParallelSize_pos : 0 < tensorParallelSize

def Setting.ranks (setting : Setting) : Nat :=
  if setting.createLookupServerOnlyOnWorker0ForMla then 1
  else setting.tensorParallelSize

/-- The message of a lookup; an empty configuration is sent like none. -/
def Request.message (setting : Setting) (enableBlending : Bool)
    (request : Request ρ υ) : List (Frame ρ υ) :=
  let chunks := setting.processTokens request.tokenIds
  let last := [.lookupId request.lookupId, .configs (request.requestConfigs.filter (!·.isEmpty))]
  if enableBlending then .ints request.tokenIds :: last
  else .ints (chunks.map (·.2.2)) :: .ints (chunks.map fun chunk => chunk.2.1 - chunk.1) :: last

/-- `lookup` with the servers it leaves behind.  Without a reply of each the
client waits for ever. -/
def lookup (setting : Setting) (engine : Engine σ ρ υ) (enableBlending : Bool)
    (servers : List (Server σ)) (request : Request ρ υ) :
    List (Server σ) × Option Nat :=
  let served := servers.map fun server => server.processRequest engine
    enableBlending (request.message setting enableBlending)
  (served.map Prod.fst, (served.mapM Prod.snd).bind List.min?)

/-- The servers of all ranks before the first request. -/
def start (setting : Setting) (stored : Nat → σ) : List (Server σ) :=
  (List.range setting.ranks).map fun rank => ⟨stored rank, some none⟩

/-- Request after request each server replies and stays alive, and the client
returns the least of what the engines answer. -/
def Serves (setting : Setting) (engine : Engine σ ρ υ) (enableBlending : Bool) :
    List (Server σ) → List (Request ρ υ) → Prop
  | _, [] => True
  | servers, request :: rest =>
    (∀ server ∈ servers,
      let served := server.processRequest engine enableBlending
        (request.message setting enableBlending)
      served.2.isSome ∧ served.1.thread.isSome) ∧
    (lookup setting engine enableBlending servers request).2 = ((callOf enableBlending
        (request.message setting enableBlending)).bind fun call =>
          (servers.map fun server => (engine server.engine call).1).min?) ∧
    Serves setting engine enableBlending
      (lookup setting engine enableBlending servers request).1 rest

variable (setting : Setting) (engine : Engine σ ρ υ)

theorem callOf_message (request : Request ρ υ) :
    ∃ call, callOf false (request.message setting false) = some call ∧ call.tokens = none :=
  ⟨_, rfl, rfl⟩

theorem processRequest_fresh (stored : σ) (request : Request ρ υ) :
    let served := Server.processRequest engine false ⟨stored, some none⟩
      (request.message setting false)
    served.2 = none ∧ served.1.thread = none := by
  obtain ⟨call, hcall, htokens⟩ := callOf_message setting request
  simp only [Server.processRequest, hcall, htokens]
  exact ⟨rfl, rfl⟩

theorem ranks_pos : 0 < setting.ranks := by
  unfold Setting.ranks
  split
  · exact Nat.one_pos
  · exact setting.tensorParallelSize_pos

/-- The service works as long as it is never asked. -/
theorem serves_iff_nil (stored : Nat → σ) (requests : List (Request ρ υ)) :
    Serves setting engine false (start setting stored) requests ↔ requests = [] := by
  rcases requests with _ | ⟨request, rest⟩
  · exact iff_of_true trivial rfl
  · refine iff_of_false (fun hserves => ?_) (List.cons_ne_nil _ _)
    have hfirst : (⟨stored 0, some none⟩ : Server σ) ∈ start setting stored :=
      List.mem_map.mpr ⟨0, List.mem_range.mpr (ranks_pos setting), rfl⟩
    have hreply := (hserves.1 _ hfirst).1
    rw [(processRequest_fresh setting engine (stored 0) request).1] at hreply
    cases hreply

/-- One rank, one token and nothing stored: no reply, and the client waits. -/
theorem not_serves_oneToken : ¬ Serves ⟨1, false, fun _ => [(0, 1, 7)], Nat.one_pos⟩
      (fun (_ : Unit) (_ : LookupCall Nat Nat) => (0, ()))
      false [⟨(), some none⟩] [⟨[5], 0, none⟩] ∧
    (lookup ⟨1, false, fun _ => [(0, 1, 7)], Nat.one_pos⟩
      (fun (_ : Unit) (_ : LookupCall Nat Nat) => (0, ()))
      false [⟨(), some none⟩] ⟨[5], 0, none⟩).2 = none := by
  refine ⟨fun hserves => ?_, rfl⟩
  have hreply := (hserves.1 _ List.mem_cons_self).1
  cases hreply

end LookupService
end CatKV
