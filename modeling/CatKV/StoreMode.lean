/-
Store mode of `CatKVCBlender.blend`: a prompt with at most one segment is
computed in full and offloaded layer by layer.  The name of the object is taken
from the tokens of the segment, its content from the whole prompt.
-/
import Mathlib.Algebra.Order.Ring.Nat
import CatKV.KeySvNames

namespace CatKV

open List

/-! `SegmentTokenDatabase`. -/

/-- Positions where the separator starts, overlapping ones included. -/
def separatorMatches (sepTokens tokens : List Nat) : List Nat :=
  (List.range (tokens.length + 1 - sepTokens.length)).filter fun position =>
    (tokens.drop position).take sepTokens.length == sepTokens

/-- The ranges between consecutive separators, without the empty ones. -/
def segmentsBetween (sepLen : Nat) : List Nat → List (Nat × Nat)
  | first :: second :: rest =>
    if second > first + sepLen then
      (first + sepLen, second) :: segmentsBetween sepLen (second :: rest)
    else segmentsBetween sepLen (second :: rest)
  | _ => []

/-- `_fast_split_by_subtensor`.  Without a separator, or with one longer than
the prompt, it yields the bare tokens, which `process_tokens` cannot unpack
into a range and a chunk. -/
def fastSplitBySubtensor (sepTokens tokens : List Nat) : Option (List (Nat × Nat)) :=
  if sepTokens.length = 0 ∨ tokens.length < sepTokens.length then none
  else if (separatorMatches sepTokens tokens).length ≤ 1 then some [(0, tokens.length)]
  else some (segmentsBetween sepTokens.length (separatorMatches sepTokens tokens))

/-- The ranges `process_tokens` yields; the mask only has to leave a token. -/
def processSegments (sepTokens tokens : List Nat) (numFalses : Nat) : Option (List (Nat × Nat)) :=
  if numFalses < tokens.length then fastSplitBySubtensor sepTokens tokens
  else none

/-! The blender. -/

/-- What `blend` takes from the engine; its constructor reads the first layer of
the model. -/
structure BlendSetup where
  compressType : CompressType
  device : Nat
  layerNum : Nat
  layerNum_pos : 0 < layerNum
  hashText : List Nat → Bytes

def sliceTokens (tokens : List Nat) (segment : Nat × Nat) : List Nat :=
  (tokens.drop segment.1).take (segment.2 - segment.1)

/-- One call of `offload_layer_data` with the positions of the prompt whose keys
and values it is given. -/
structure StoreOffload where
  name : Bytes
  start : Nat
  stop : Nat
deriving Repr, DecidableEq

/-- The store branch of `prefill`: all keys and values of the layer. -/
def prefillStore (setup : BlendSetup) (hashText : Bytes) (inputLen layer : Nat) : StoreOffload :=
  ⟨getKvcacheFilename setup.compressType setup.device hashText layer, 0, inputLen⟩

/-- `blend` in store state; `hash_text[0]` raises when there is no segment. -/
def blendStore (setup : BlendSetup) (tokens : List Nat)
    (segments : List (Nat × Nat)) : Option (List StoreOffload) :=
  match segments.map fun segment =>
      setup.hashText (sliceTokens tokens segment) with
  | [] => none
  | hashText :: _ =>
    some ((List.range setup.layerNum).map (prefillStore setup hashText tokens.length))

def StoreOffload.positions (offload : StoreOffload) : List Nat :=
  List.range' offload.start (offload.stop - offload.start)

/-- `decompress` keeps the first `kv_len` rows of the left factors. -/
def StoreOffload.decompress (offload : StoreOffload) (kvLen : Nat) : List Nat :=
  offload.positions.take kvLen

/-- The object holds the KV of the segment: a retrieve-mode request with a chunk
of that length can copy it as it is, and decompresses it to the positions of
the segment. -/
structure ServesSegment (offload : StoreOffload) (segment : Nat × Nat) : Prop where
  positions_eq : offload.positions = List.range' segment.1 (segment.2 - segment.1)
  serves : ∀ (request : ReuseRequest) (chunk : Chunk), chunk.stop ≤ request.inputLen →
    chunk.stop - chunk.start = segment.2 - segment.1 →
    (Found.raw offload.positions.length).Fits request chunk ∧
      offload.decompress (chunk.stop - chunk.start) = List.range' segment.1 (segment.2 - segment.1)

/-- `blend` offloads one object per layer, named after its one segment and
holding the KV of that segment. -/
def StoresSegment (setup : BlendSetup) (tokens : List Nat) (segments : List (Nat × Nat)) : Prop :=
  ∃ segment offloads, segments = [segment] ∧ blendStore setup tokens segments = some offloads ∧
    offloads.map StoreOffload.name = (List.range setup.layerNum).map
      (getKvcacheFilename setup.compressType setup.device
        (setup.hashText (sliceTokens tokens segment))) ∧
    ∀ offload ∈ offloads, ServesSegment offload segment

theorem servesSegment_of_positions {offload : StoreOffload} {segment : Nat × Nat}
    (hpositions : offload.positions =
      List.range' segment.1 (segment.2 - segment.1)) : ServesSegment offload segment := by
  refine ⟨hpositions, fun request chunk hstop hlength => ⟨?_, ?_⟩⟩
  · simp only [Found.Fits, hpositions, length_range', Chunk.sliceLength]
    omega
  · rw [StoreOffload.decompress, hpositions, hlength]
    exact take_of_length_le (by simp)

theorem le_of_mem_segmentsBetween {sepLen : Nat} {positions : List Nat} {segment : Nat × Nat}
    (hsegment : segment ∈ segmentsBetween sepLen positions) : sepLen ≤ segment.1 := by
  fun_induction segmentsBetween sepLen positions with
  | case1 first second rest hgap ih =>
    rcases mem_cons.mp hsegment with rfl | hrest
    · exact Nat.le_add_left sepLen first
    · exact ih hrest
  | case2 first second rest hgap ih => exact ih hsegment
  | case3 => simp at hsegment

theorem ServesSegment.start_eq {setup : BlendSetup} {hashText : Bytes}
    {inputLen layer : Nat} {segment : Nat × Nat} (hlength : 0 < inputLen)
    (hserves : ServesSegment (prefillStore setup hashText inputLen layer)
      segment) : segment.1 = 0 := by
  have hpositions := hserves.positions_eq
  have hlengths := congrArg List.length hpositions
  simp only [prefillStore, StoreOffload.positions, length_range',
    Nat.sub_zero] at hpositions hlengths
  have hheads := congrArg head? hpositions
  rw [head?_range', head?_range', if_neg (by omega), if_neg (by omega), Option.some.injEq] at hheads
  exact hheads.symm

/-- Store mode is right exactly when the prompt has at most one separator. -/
theorem storesSegment_iff (setup : BlendSetup) {sepTokens tokens : List Nat}
    {numFalses : Nat} {segments : List (Nat × Nat)}
    (hsegments : processSegments sepTokens tokens numFalses = some segments)
    (hstore : segments.length ≤ 1) :
    StoresSegment setup tokens segments ↔ (separatorMatches sepTokens tokens).length ≤ 1 := by
  unfold processSegments fastSplitBySubtensor at hsegments
  split at hsegments
  · split at hsegments
    · cases hsegments
    · next hsep =>
      split at hsegments
      · next hfew =>
        cases hsegments
        refine ⟨fun _ => hfew, fun _ => ⟨_, _, rfl, rfl, ?_, ?_⟩⟩
        · simp [prefillStore, Function.comp_def]
        · intro offload hoffload
          obtain ⟨layer, _, rfl⟩ := mem_map.mp hoffload
          exact servesSegment_of_positions rfl
      · next hmany =>
        cases hsegments
        refine ⟨fun hstores => ?_, fun hfew => absurd hfew hmany⟩
        obtain ⟨segment, offloads, hone, hblend, _, hserves⟩ := hstores
        simp only [hone, blendStore, map_cons, map_nil, Option.some.injEq] at hblend
        subst hblend
        have hfirst := hserves _ (mem_map_of_mem (mem_range.mpr setup.layerNum_pos))
        have hstart := hfirst.start_eq (by omega)
        have hafter : sepTokens.length ≤ segment.1 := le_of_mem_segmentsBetween (by rw [hone]; simp)
        omega
  · cases hsegments

def sampleSetup : BlendSetup :=
  ⟨.ours, 0, 2, Nat.two_pos, fun tokens => tokens.map fun token =>
    UInt8.ofNat token⟩

/-- A prompt without a separator is stored as one segment. -/
theorem storesSegment_plain : processSegments [9] [1, 2, 3] 0 = some [(0, 3)] ∧
    StoresSegment sampleSetup [1, 2, 3] [(0, 3)] :=
  ⟨by decide, (storesSegment_iff sampleSetup
    (show processSegments [9] [1, 2, 3] 0 = some [(0, 3)] by decide)
    (by decide)).mpr (by decide)⟩

/-- Between two separators the segment is one token, but three are offloaded
under its name; between adjacent separators there is none and `blend` raises. -/
theorem not_storesSegment_separated : (processSegments [9] [9, 1, 9] 0 = some [(1, 2)] ∧
      (blendStore sampleSetup [9, 1, 9] [(1, 2)]).map
        (fun offloads => offloads.map StoreOffload.positions) = some [[0, 1, 2], [0, 1, 2]] ∧
      ¬ StoresSegment sampleSetup [9, 1, 9] [(1, 2)]) ∧
    (processSegments [9] [9, 9] 0 = some [] ∧ blendStore sampleSetup [9, 9] [] = none) := by
  refine ⟨⟨by decide, by decide, ?_⟩, by decide, rfl⟩
  rintro ⟨segment, offloads, hone, hblend, _, hserves⟩
  cases hone
  cases hblend
  have hfirst := hserves _ (mem_map_of_mem (mem_range.mpr sampleSetup.layerNum_pos))
  exact absurd hfirst.positions_eq (by decide)

end CatKV
