/-
The TENSDICT object format of `s3_manager.cpp`: the writer appends to a growing
string, the reader walks a bounded cursor and keeps zero-copy payload offsets.
Sizes are `size_t` values, so products are taken modulo 2^64.
-/
import CatKV.ByteParser
import Mathlib.Algebra.BigOperators.Group.List.Basic
import Mathlib.Data.Nat.ModEq

namespace CatKV

inductive DType where
  | float32
  | float16
  | int8
  | uint8
  | bfloat16
  | int32
  | float64
deriving Repr, DecidableEq

def DType.code : DType → Nat
  | .float32 => 0
  | .float16 => 1
  | .int8 => 2
  | .uint8 => 3
  | .bfloat16 => 4
  | .int32 => 5
  | .float64 => 6

def DType.ofCode : Nat → Option DType
  | 0 => some .float32
  | 1 => some .float16
  | 2 => some .int8
  | 3 => some .uint8
  | 4 => some .bfloat16
  | 5 => some .int32
  | 6 => some .float64
  | _ => none

theorem DType.ofCode_code (dtype : DType) : DType.ofCode dtype.code = some dtype := by
  cases dtype <;> rfl

theorem DType.code_of_ofCode {code : Nat} {dtype : DType}
    (hcode : DType.ofCode code = some dtype) : dtype.code = code := by
  unfold DType.ofCode at hcode
  split at hcode <;> cases hcode <;> rfl

theorem DType.code_lt (dtype : DType) : dtype.code < 256 ^ 4 := by
  cases dtype <;> decide

def elementSize : DType → Nat
  | .float32 => 4
  | .float16 => 2
  | .int8 => 1
  | .uint8 => 1
  | .bfloat16 => 2
  | .int32 => 4
  | .float64 => 8

/-- `Tensor::ComputeSize`, in `size_t` arithmetic. -/
def computeSize (dtype : DType) (shape : List Nat) : Nat :=
  elementSize dtype * shape.foldl (fun total dim => total * dim % 2 ^ 64) 1 % 2 ^ 64

/-- The byte count of a shape over the natural numbers. -/
def exactSize (dtype : DType) (shape : List Nat) : Nat := elementSize dtype * shape.prod

theorem computeSize_eq (dtype : DType) (shape : List Nat) :
    computeSize dtype shape = exactSize dtype shape % 2 ^ 64 := by
  have hfold : ∀ total : Nat, shape.foldl (fun total dim => total * dim % 2 ^ 64) total % 2 ^ 64 =
        total * shape.prod % 2 ^ 64 := by
    induction shape with
    | nil => simp
    | cons dim shape ih =>
      intro total
      rw [List.foldl_cons, ih, List.prod_cons, ← Nat.mul_assoc]
      exact Nat.ModEq.mul_right shape.prod (Nat.mod_modEq _ _)
  have hprod := hfold 1
  rw [Nat.one_mul] at hprod
  rw [computeSize, exactSize, Nat.mul_mod, hprod, ← Nat.mul_mod]

theorem computeSize_lt (dtype : DType) (shape : List Nat) : computeSize dtype shape < 256 ^ 8 :=
  Nat.mod_lt _ (by decide)

/-- The most elements a `std::vector<std::size_t>` can hold. -/
def vectorMaxSize : Nat := 2 ^ 60 - 1

/-- A host tensor.  The constructors fix `ndim` and `data_size` from the shape,
and `data_ptr()` reaches exactly `data_size` bytes. -/
structure Tensor where
  dtype : DType
  shape : List Nat
  data : Bytes
  rank_le : shape.length ≤ vectorMaxSize
  dims_lt : ∀ dim ∈ shape, dim < 2 ^ 64
  data_length : data.length = computeSize dtype shape
deriving DecidableEq

def Tensor.ndim (tensor : Tensor) : Nat := tensor.shape.length

def Tensor.dataSize (tensor : Tensor) : Nat := computeSize tensor.dtype tensor.shape

def kMagic : Bytes := ascii "TENSDICT"

def kVersion : Nat := 2

def kTensorAlignment : Nat := 256

/-! The writer. -/

def appendValue (out : Bytes) (value bytes : Nat) : Bytes :=
  out ++ (List.range bytes).map fun index =>
    UInt8.ofNat ((value >>> (index * 8)) &&& 0xFF)

/-- Zero bytes written so that the payload starts on the alignment. -/
def paddingAt (size : Nat) : Nat :=
  (kTensorAlignment - (size + 4) % kTensorAlignment) % kTensorAlignment

def appendTensor (out name : Bytes) (tensor : Tensor) : Bytes :=
  let out := appendValue out name.length 4
  let out := out ++ name
  let out := appendValue out tensor.dtype.code 4
  let out := appendValue out tensor.ndim 8
  let out := tensor.shape.foldl (fun out dim => appendValue out dim 8) out
  let out := appendValue out tensor.dataSize 8
  if tensor.dataSize = 0 then out
  else
    let padding := paddingAt out.length
    let out := appendValue out padding 4
    let out := out ++ List.replicate padding 0
    out ++ tensor.data

/-- The writer visits the map in some iteration order, here the list's. -/
def serializeTensorMap (tensors : List (Bytes × Tensor)) : Bytes :=
  let out := appendValue kMagic kVersion 4
  let out := appendValue out tensors.length 4
  tensors.foldl (fun out entry => appendTensor out entry.1 entry.2) out

/-! The size computed ahead. -/

def serializedTensorSize (cursor : Nat) (tensor : Tensor) : Nat :=
  let total := 4 + 8 + tensor.shape.length * 8 + 8
  if tensor.dataSize = 0 then total
  else total + 4 + paddingAt (cursor + total) + tensor.dataSize

/-- `total_size` after one more entry. -/
def addEntrySize (totalSize : Nat) (entry : Bytes × Tensor) : Nat :=
  let totalSize := totalSize + 4 + entry.1.length
  totalSize + serializedTensorSize (totalSize + entry.1.length + 4) entry.2

/-- `total_size` when the writing starts. -/
def predictedSize (tensors : List (Bytes × Tensor)) : Nat :=
  tensors.foldl addEntrySize (kMagic.length + 4 + 4)

/-! The reader. -/

inductive ParseError where
  | unexpectedEnd
  | invalidMagic
  | unsupportedVersion
  | unsupportedDType
  | byteSizeMismatch
  | vectorReserve
deriving Repr, DecidableEq

/-- A parsed tensor views its payload at an offset of the buffer it was parsed
from; a tensor of size zero has no such view. -/
structure ParsedTensor where
  dtype : DType
  shape : List Nat
  dataSize : Nat
  externalData : Option Nat
deriving Repr, DecidableEq

def ParsedTensor.bytes (buffer : Bytes) (tensor : ParsedTensor) : Bytes :=
  match tensor.externalData with
  | none => []
  | some offset => (buffer.drop offset).take tensor.dataSize

abbrev ParsedMap := List (Bytes × ParsedTensor)

/-- `unordered_map::emplace`: an existing key keeps its first value. -/
def emplace (tensors : ParsedMap) (entry : Bytes × ParsedTensor) : ParsedMap :=
  if tensors.any (fun old => old.1 == entry.1) then tensors
  else tensors ++ [entry]

def readValue (width : Nat) : ByteParser ParseError Nat := leValue <$> advance .unexpectedEnd width

def readBytes (count : Nat) : ByteParser ParseError Bytes :=
  if count = 0 then pure [] else advance .unexpectedEnd count

def skip (count : Nat) : ByteParser ParseError Unit := (fun _ => ()) <$> readBytes count

def currentPtr : ByteParser ParseError Nat := fun cursor =>
  .ok cursor.position cursor

/-- Throw unless the check holds. -/
def require (check : Bool) (failure : ParseError) : ByteParser ParseError Unit :=
  if check then pure () else throw failure

def readDims : Nat → ByteParser ParseError (List Nat)
  | 0 => pure []
  | count + 1 => do
      let dim ← readValue 8
      let rest ← readDims count
      pure (dim :: rest)

def castDType (code : Nat) : ByteParser ParseError DType :=
  match DType.ofCode code with
  | some dtype => pure dtype
  | none => throw .unsupportedDType

def readPayload (dtype : DType) (shape : List Nat) : ByteParser ParseError ParsedTensor :=
  if 0 < computeSize dtype shape then do
    let paddingSize ← readValue 4
    skip paddingSize
    let external ← currentPtr
    skip (computeSize dtype shape)
    pure ⟨dtype, shape, computeSize dtype shape, some external⟩
  else pure ⟨dtype, shape, computeSize dtype shape, none⟩

/-- The element size is looked up only after the whole header was read, so an
unknown dtype code is reported there. -/
def readTensor : ByteParser ParseError ParsedTensor := do
  let code ← readValue 4
  let ndim ← readValue 8
  require (ndim ≤ vectorMaxSize) .vectorReserve
  let shape ← readDims ndim
  let dataSize ← readValue 8
  let dtype ← castDType code
  require (computeSize dtype shape == dataSize) .byteSizeMismatch
  readPayload dtype shape

def readEntries : Nat → ParsedMap → ByteParser ParseError ParsedMap
  | 0, tensors => pure tensors
  | count + 1, tensors => do
      let keySize ← readValue 4
      let key ← readBytes keySize
      let tensor ← readTensor
      readEntries count (emplace tensors (key, tensor))

def readTensorMap : ByteParser ParseError ParsedMap := do
  let magic ← readBytes kMagic.length
  require (magic == kMagic) .invalidMagic
  let version ← readValue 4
  require (version == kVersion) .unsupportedVersion
  let tensorCount ← readValue 4
  readEntries tensorCount []

/-- `parse_from_memory_zero_copy` on the buffer `[begin, end)`. -/
def parseFromMemoryZeroCopy (buffer : Bytes) : EStateM.Result ParseError Cursor ParsedMap :=
  readTensorMap ⟨buffer, 0⟩

end CatKV
