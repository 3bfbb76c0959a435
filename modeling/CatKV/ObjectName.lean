/-
Names of the objects that one cache key owns in the bucket, from
`shared_key_sv_path.cpp` and the suffix helpers of
`remote_storage_manager.cpp`.
-/
import CatKV.ByteString

namespace CatKV

open List

/-- The flattened int32 words of a `uuid` tensor. -/
abbrev Uuid := List Int

def keySvSuffix : Bytes := ascii "_key_sv"

def otherSuffix : Bytes := ascii "_other"

def keySvPath (path : Bytes) : Bytes := path ++ keySvSuffix

def otherPath (path : Bytes) : Bytes := path ++ otherSuffix

def toSignedInt32 (value : UInt32) : Int := value.toInt32.toInt

/-- FNV-style hash of a caller-supplied group id, as two signed words. -/
def uuidStringToTensor (uuid : Bytes) : Uuid :=
  let hash : UInt64 := uuid.foldl (fun hash byte => (hash ^^^ byte.toUInt64) * 1099511628211)
    1469598103934665603
  [toSignedInt32 (hash >>> 32).toUInt32, toSignedInt32 hash.toUInt32]

/-- The uuid of a task without a group: two 31-bit halves of a process-local
counter. -/
def makeUuidTensor (counter : Nat) : Uuid :=
  [((counter % 2 ^ 31 : Nat) : Int), ((counter / 2 ^ 31 % 2 ^ 31 : Nat) : Int)]

/-- Words joined by underscores. -/
def uuidTensorToPathId : Uuid → Bytes
  | [] => []
  | [word] => decimalInt word
  | word :: next :: rest =>
    decimalInt word ++ ascii "_" ++ uuidTensorToPathId (next :: rest)

/-- The key_sv object shared by every payload with this uuid and layer in the
directory of `basePath`. -/
def sharedKeySvPath (uuid : Uuid) (layerIdx : Int) (basePath : Bytes) : Bytes :=
  directoryOf basePath ++ uuidTensorToPathId uuid ++ ascii "_layer_" ++
    decimalInt layerIdx ++ keySvSuffix

def layerMarker : Bytes := ascii "layer_"

/-- The number after the last `layer_`, or -1.  `none` is the range error that
`std::stoll` throws on a numeral beyond int64. -/
def parseLayerIdx (path : Bytes) : Option Int :=
  match rfind layerMarker path with
  | none => some (-1)
  | some position =>
    let digits := (path.drop (position + layerMarker.length)).takeWhile isDigitByte
    if digits = [] then some (-1)
    else if digitsValue digits < 2 ^ 63 then some (digitsValue digits)
    else none

theorem parseLayerIdx_le {path : Bytes} {layer : Int}
    (hparse : parseLayerIdx path = some layer) : layer < 2 ^ 63 := by
  unfold parseLayerIdx at hparse
  split at hparse
  · cases hparse
    decide
  · simp only at hparse
    split at hparse
    · cases hparse
      decide
    · split at hparse
      · next hlt =>
        cases hparse
        exact_mod_cast hlt
      · cases hparse

theorem otherPath_injective : Function.Injective otherPath := by
  intro left right heq
  exact append_cancel_right heq

theorem keySvPath_injective : Function.Injective keySvPath := by
  intro left right heq
  exact append_cancel_right heq

theorem otherPath_ne_append_keySvSuffix (path pre : Bytes) :
    otherPath path ≠ pre ++ keySvSuffix := by
  intro heq
  have hlast := congrArg getLast? heq
  simp only [otherPath, getLast?_append] at hlast
  have hleft : otherSuffix.getLast? = some (charByte 'r') := by decide
  have hright : keySvSuffix.getLast? = some (charByte 'v') := by decide
  simp only [hleft, hright, Option.some_or, Option.some.injEq] at hlast
  exact absurd hlast (by decide)

theorem otherPath_ne_keySvPath (path other : Bytes) : otherPath path ≠ keySvPath other :=
  otherPath_ne_append_keySvSuffix path other

theorem otherPath_ne_sharedKeySvPath (path : Bytes) (uuid : Uuid) (layer : Int)
    (base : Bytes) : otherPath path ≠ sharedKeySvPath uuid layer base :=
  otherPath_ne_append_keySvSuffix path _

/-- A path that ends in a layer numeral, possibly followed by text without the
letter the marker starts with, parses to that numeral. -/
theorem parseLayerIdx_append (before after : Bytes) (layer : Nat) (hlt : layer < 2 ^ 63)
    (hletter : charByte 'l' ∉ after) (hdigit : after.takeWhile isDigitByte = []) :
    parseLayerIdx (before ++ layerMarker ++ (decimal layer ++ after)) = some (layer : Int) := by
  have hrest : charByte 'l' ∉ ascii "ayer_" ++ (decimal layer ++ after) := by
    simp only [mem_append, not_or]
    refine ⟨by decide, ?_, hletter⟩
    intro hmem
    have := isDigitByte_of_mem_decimal hmem
    revert this
    decide
  have hfind : rfind layerMarker (before ++ layerMarker ++ (decimal layer ++ after)) =
        some before.length :=
    rfind_append before (decimal layer ++ after) (rfind_eq_none_of_head_not_mem hrest)
  have hdigits : ((before ++ layerMarker ++ (decimal layer ++ after)).drop
      (before.length + layerMarker.length)).takeWhile isDigitByte = decimal layer := by
    rw [← length_append, drop_left, takeWhile_append_of_pos fun byte hbyte =>
        isDigitByte_of_mem_decimal hbyte,
      hdigit, append_nil]
  simp only [parseLayerIdx, hfind, hdigits, decimal_ne_nil, ↓reduceIte, digitsValue_decimal, hlt]

/-- A private key_sv name can only equal a shared one when its own path parses
to the shared layer, and such a path uses the shared name itself. -/
theorem parseLayerIdx_of_keySvPath_eq_shared {path base : Bytes} {uuid : Uuid} {layer : Nat}
    (hlt : layer < 2 ^ 63) (heq : keySvPath path = sharedKeySvPath uuid (layer : Int) base) :
    parseLayerIdx path = some (layer : Int) := by
  have hpath : path = (directoryOf base ++ uuidTensorToPathId uuid ++ ascii "_") ++
        layerMarker ++ (decimal layer ++ []) := by
    have hcancel := append_cancel_right heq
    rw [hcancel]
    simp only [append_nil, append_assoc]
    rfl
  rw [hpath]
  exact parseLayerIdx_append _ [] layer hlt (by simp) (by simp)

private theorem takeWhile_decimalInt_append (word : Int) (rest : Bytes) :
    (decimalInt word ++ ascii "_" ++ rest).takeWhile
        (fun byte => byte != charByte '_') = decimalInt word := by
  have hword : ∀ byte ∈ decimalInt word, (byte != charByte '_') = true := by
    intro byte hbyte
    have hne : byte ≠ charByte '_' := by
      rintro rfl
      exact not_mem_decimalInt (by decide) (by decide) word hbyte
    simpa using hne
  rw [append_assoc, takeWhile_append_of_pos hword]
  have hstop : (ascii "_" ++ rest).takeWhile (fun byte => byte != charByte '_') = [] := by
    change (charByte '_' :: rest).takeWhile _ = []
    simp
  rw [hstop, append_nil]

theorem decimalInt_append_inj {word other : Int} {rest rest' : Bytes}
    (heq : decimalInt word ++ ascii "_" ++ rest =
      decimalInt other ++ ascii "_" ++ rest') : word = other ∧ rest = rest' := by
  have htake := congrArg (List.takeWhile fun byte => byte != charByte '_') heq
  rw [takeWhile_decimalInt_append, takeWhile_decimalInt_append] at htake
  rw [htake] at heq
  exact ⟨decimalInt_injective htake, append_cancel_left heq⟩

private theorem underscore_not_mem_decimalInt (word : Int) : charByte '_' ∉ decimalInt word :=
  not_mem_decimalInt (by decide) (by decide) word

theorem uuidTensorToPathId_injective : Function.Injective uuidTensorToPathId := by
  intro left
  induction left with
  | nil =>
    intro right heq
    match right with
    | [] => rfl
    | [word] => exact absurd heq.symm (decimalInt_ne_nil word)
    | word :: next :: rest =>
      have hlength := congrArg List.length heq
      simp [uuidTensorToPathId, ascii] at hlength
  | cons word tail ih =>
    intro right heq
    match tail, right with
    | [], [] => exact absurd heq (decimalInt_ne_nil word)
    | _ :: _, [] =>
      have hlength := congrArg List.length heq
      simp [uuidTensorToPathId, ascii] at hlength
    | [], [other] =>
      rw [decimalInt_injective heq]
    | [], other :: next :: rest =>
      refine absurd ?_ (underscore_not_mem_decimalInt word)
      rw [show decimalInt word = decimalInt other ++ ascii "_" ++
        uuidTensorToPathId (next :: rest) from heq]
      simp [ascii]
    | next :: rest, [other] =>
      refine absurd ?_ (underscore_not_mem_decimalInt other)
      rw [show decimalInt other = decimalInt word ++ ascii "_" ++
        uuidTensorToPathId (next :: rest) from heq.symm]
      simp [ascii]
    | next :: rest, other :: next' :: rest' =>
      obtain ⟨hhead, htail⟩ := decimalInt_append_inj heq
      rw [hhead, ih htail]

example : sharedKeySvPath [11, 22] 3 (ascii "vllm/kvcache/OURS/chunk-a-layer_3-device_cuda:0.bin") =
      ascii "vllm/kvcache/OURS/11_22_layer_3_key_sv" := by
  decide

end CatKV
