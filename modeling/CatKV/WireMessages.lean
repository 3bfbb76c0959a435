/-
The messages on the wire: `RemoteMetadata`, `ClientMetaMessage` and
`ServerMetaMessage`.  All are packed into 32-bit integers, and the key of a
client message travels behind them in a field of fixed width.
-/
import CatKV.CacheEngineKey

namespace CatKV

/-! `struct`. -/

/-- One field `i`: four bytes, least significant first. -/
def packInt (value : Int) : Option Bytes :=
  if -2 ^ 31 ≤ value ∧ value < 2 ^ 31 then some (leBytes 4 (value % 2 ^ 32).toNat)
  else none

def unpackInt (bytes : Bytes) : Int :=
  let value := leValue bytes
  if value < 2 ^ 31 then value else (value : Int) - 2 ^ 32

/-- `struct.pack` of several such fields. -/
def packInts (values : List Int) : Option Bytes := (values.mapM packInt).map List.flatten

/-- `struct.unpack` of the given number of fields from the front. -/
def unpackInts : Nat → Bytes → List Int
  | 0, _ => []
  | count + 1, bytes =>
    unpackInt (bytes.take 4) :: unpackInts count (bytes.drop 4)

/-! The numbers on the wire. -/

inductive MemoryFormat where
  | undefined
  | kv2LTD
  | kvT2D
  | kv2TD
  | binary
  | binaryBuffer
  | kvMlaFmt
deriving Repr, DecidableEq

def MemoryFormat.value : MemoryFormat → Int
  | .undefined => 0
  | .kv2LTD => 1
  | .kvT2D => 2
  | .kv2TD => 3
  | .binary => 4
  | .binaryBuffer => 5
  | .kvMlaFmt => 6

def MemoryFormat.ofValue : Int → Option MemoryFormat
  | 0 => some .undefined
  | 1 => some .kv2LTD
  | 2 => some .kvT2D
  | 3 => some .kv2TD
  | 4 => some .binary
  | 5 => some .binaryBuffer
  | 6 => some .kvMlaFmt
  | _ => none

/-- The types of `torch`; `half`, `float` and `double` are other names for
three of them, and some have no number. -/
inductive TorchDtype where
  | float16
  | bfloat16
  | float32
  | float64
  | uint8
  | float8E4m3fn
  | float8E5m2
  | other (name : Nat)
deriving Repr, DecidableEq

/-- `DTYPE_TO_INT`: the entry for `float16` overwrites the one for `half`. -/
def dtypeToInt : Option TorchDtype → Option Int
  | none => some 0
  | some .float16 => some 2
  | some .bfloat16 => some 3
  | some .float32 => some 4
  | some .float64 => some 5
  | some .uint8 => some 6
  | some .float8E4m3fn => some 7
  | some .float8E5m2 => some 8
  | some (.other _) => none

def intToDtype : Int → Option (Option TorchDtype)
  | 0 => some none
  | 1 => some (some .float16)
  | 2 => some (some .float16)
  | 3 => some (some .bfloat16)
  | 4 => some (some .float32)
  | 5 => some (some .float64)
  | 6 => some (some .uint8)
  | 7 => some (some .float8E4m3fn)
  | 8 => some (some .float8E5m2)
  | _ => none

def locationToInt : Option Text → Option Int
  | none => some 0
  | some location =>
    if location = "LocalCPUBackend".toList then some 1
    else if location = "LocalDiskBackend".toList then some 2
    else none

def intToLocation : Int → Option (Option Text)
  | 0 => some none
  | 1 => some (some "LocalCPUBackend".toList)
  | 2 => some (some "LocalDiskBackend".toList)
  | _ => none

inductive ClientCommand where
  | put
  | get
  | exist
  | list
  | health
deriving Repr, DecidableEq

def ClientCommand.value : ClientCommand → Int
  | .put => 1
  | .get => 2
  | .exist => 3
  | .list => 4
  | .health => 5

def ClientCommand.ofValue : Int → Option ClientCommand
  | 1 => some .put
  | 2 => some .get
  | 3 => some .exist
  | 4 => some .list
  | 5 => some .health
  | _ => none

inductive ServerReturnCode where
  | success
  | fail
deriving Repr, DecidableEq

def ServerReturnCode.value : ServerReturnCode → Int
  | .success => 200
  | .fail => 400

def ServerReturnCode.ofValue : Int → Option ServerReturnCode
  | 200 => some .success
  | 400 => some .fail
  | _ => none

/-! `RemoteMetadata`. -/

structure RemoteMetadata where
  length : Int
  shape : List Int
  dtype : Option TorchDtype
  fmt : MemoryFormat
deriving Repr, DecidableEq

namespace RemoteMetadata

def serialize (metadata : RemoteMetadata) : Option Bytes :=
  if metadata.shape.length ≠ 4 then none
  else do
    let dtype ← dtypeToInt metadata.dtype
    packInts ([metadata.length, metadata.fmt.value, dtype] ++ metadata.shape)

/-- `unpack_from` looks at the front of the buffer. -/
def deserialize (bytes : Bytes) : Option RemoteMetadata :=
  if bytes.length < 28 then none
  else
    match unpackInts 7 bytes with
    | [length, fmt, dtype, shape0, shape1, shape2, shape3] => do
        let dtype ← intToDtype dtype
        let fmt ← MemoryFormat.ofValue fmt
        return ⟨length, [shape0, shape1, shape2, shape3], dtype, fmt⟩
    | _ => none

end RemoteMetadata

/-! `ClientMetaMessage`. -/

def maxKeyLength : Nat := 150

structure ClientMetaMessage (ω : Type) where
  command : ClientCommand
  key : AnyKey ω
  length : Int
  fmt : MemoryFormat
  dtype : Option TorchDtype
  shape : List Int
  location : Option Text

/-- `ljust` with spaces, and the field `150s`. -/
def keyField (keyText : Text) : Bytes :=
  let bytes := encodeText keyText
  (bytes ++ List.replicate (maxKeyLength - bytes.length) 32).take maxKeyLength

namespace ClientMetaMessage

variable {ω : Type} (methods : ValueMethods ω)

def packlength : Nat := 4 * 9 + maxKeyLength

def serialize (message : ClientMetaMessage ω) : Option Bytes :=
  if maxKeyLength < (message.key.toText methods).length then none
  else if message.shape.length ≠ 4 then none
  else do
    let dtype ← dtypeToInt message.dtype
    let location ← locationToInt message.location
    let fields ← packInts ([message.command.value, message.length,
      message.fmt.value, dtype, location] ++ message.shape)
    return fields ++ keyField (message.key.toText methods)

/-- The key is read by `CacheEngineKey.from_string`. -/
def deserialize (bytes : Bytes) : Option (ClientMetaMessage ω) :=
  if bytes.length ≠ packlength then none
  else
    match unpackInts 9 bytes with
    | [command, length, fmt, dtype, location, shape0, shape1, shape2, shape3] => do
        let command ← ClientCommand.ofValue command
        let keyText ← decodeText (bytes.drop (4 * 9))
        let key ← CacheEngineKey.fromText (strip keyText)
        let fmt ← MemoryFormat.ofValue fmt
        let dtype ← intToDtype dtype
        let location ← intToLocation location
        return ⟨command, .chunk key, length, fmt, dtype, [shape0, shape1, shape2, shape3], location⟩
    | _ => none

/-- `==` of two messages, field by field. -/
def isEq (message other : ClientMetaMessage ω) : Bool :=
  decide (message.command = other.command) && message.key.isEq methods other.key &&
    decide (message.length = other.length) &&
    decide (message.fmt = other.fmt) && decide (message.dtype = other.dtype) &&
    decide (message.shape = other.shape) &&
    decide (message.location = other.location)

end ClientMetaMessage

/-! `ServerMetaMessage`. -/

structure ServerMetaMessage where
  code : ServerReturnCode
  length : Int
  fmt : MemoryFormat
  dtype : Option TorchDtype
  shape : List Int
  location : Option Text
deriving Repr, DecidableEq

namespace ServerMetaMessage

def packlength : Nat := 4 * 9

def serialize (message : ServerMetaMessage) : Option Bytes :=
  if message.shape.length ≠ 4 then none
  else do
    let dtype ← dtypeToInt message.dtype
    let location ← locationToInt message.location
    packInts ([message.code.value, message.length, message.fmt.value, dtype] ++
      message.shape ++ [location])

def deserialize (bytes : Bytes) : Option ServerMetaMessage :=
  if bytes.length ≠ packlength then none
  else
    match unpackInts 9 bytes with
    | [code, length, fmt, dtype, shape0, shape1, shape2, shape3, location] =>
      do
        let code ← ServerReturnCode.ofValue code
        let fmt ← MemoryFormat.ofValue fmt
        let dtype ← intToDtype dtype
        let location ← intToLocation location
        return ⟨code, length, fmt, dtype, [shape0, shape1, shape2, shape3], location⟩
    | _ => none

end ServerMetaMessage

end CatKV
