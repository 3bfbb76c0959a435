/-
The byte grammar accepted by the TENSDICT reader.  The reader succeeds exactly
on the buffers that start with a dictionary of this grammar, and it returns
the first entry of every name.
-/
import CatKV.TensorMapCodec

namespace CatKV

/-! One tensor. -/

/-- A tensor as its bytes lie in a buffer, with whatever padding precedes the
payload. -/
structure RawTensor where
  dtype : DType
  shape : List Nat
  padding : Bytes
  payload : Bytes
  rank_le : shape.length ≤ vectorMaxSize
  dims_lt : ∀ dim ∈ shape, dim < 2 ^ 64
  padding_lt : padding.length < 2 ^ 32
  payload_length : payload.length = computeSize dtype shape
  padding_empty : computeSize dtype shape = 0 → padding = []

def RawTensor.dataSize (raw : RawTensor) : Nat := computeSize raw.dtype raw.shape

def dimsBytes (shape : List Nat) : Bytes := shape.flatMap (leBytes 8)

def RawTensor.header (raw : RawTensor) : Bytes :=
  leBytes 4 raw.dtype.code ++ (leBytes 8 raw.shape.length ++
    (dimsBytes raw.shape ++ leBytes 8 raw.dataSize))

def RawTensor.body (raw : RawTensor) : Bytes :=
  if raw.dataSize = 0 then []
  else leBytes 4 raw.padding.length ++ (raw.padding ++ raw.payload)

def RawTensor.bytes (raw : RawTensor) : Bytes := raw.header ++ raw.body

/-- Where the payload of a tensor that starts at `start` begins. -/
def RawTensor.payloadOffset (raw : RawTensor) (start : Nat) : Nat :=
  start + raw.header.length + 4 + raw.padding.length

def RawTensor.parsed (raw : RawTensor) (start : Nat) : ParsedTensor :=
  ⟨raw.dtype, raw.shape, raw.dataSize,
    if raw.dataSize = 0 then none else some (raw.payloadOffset start)⟩

/-! Reading known bytes. -/

theorem consumes_readValue {width value : Nat} (hlt : value < 256 ^ width) (start : Nat) :
    Consumes (readValue width) start (leBytes width value) value := by
  have hadvance := consumes_advance ParseError.unexpectedEnd start (leBytes width value)
  rw [leBytes_length] at hadvance
  have hmap := hadvance.map leValue
  rwa [leValue_leBytes_of_lt hlt] at hmap

theorem consumes_readBytes (start : Nat) (bytes : Bytes) :
    Consumes (readBytes bytes.length) start bytes bytes := by
  by_cases hempty : bytes.length = 0
  · have hnil : bytes = [] := List.length_eq_zero_iff.mp hempty
    subst hnil
    exact consumes_pure start []
  · simp only [readBytes, hempty, ↓reduceIte]
    exact consumes_advance _ start bytes

theorem consumes_skip (start : Nat) (bytes : Bytes) : Consumes (skip bytes.length) start bytes () :=
  (consumes_readBytes start bytes).map _

theorem consumes_currentPtr (start : Nat) : Consumes currentPtr start [] start := by
  intro before after _
  rfl

theorem consumes_require {check : Bool} (hcheck : check = true) (failure : ParseError)
    (start : Nat) : Consumes (require check failure) start [] () := by
  simp only [require, hcheck, ↓reduceIte]
  exact consumes_pure start ()

theorem consumes_readDims (shape : List Nat) (hdims : ∀ dim ∈ shape, dim < 2 ^ 64) (start : Nat) :
    Consumes (readDims shape.length) start (dimsBytes shape) shape := by
  induction shape generalizing start with
  | nil => exact consumes_pure start []
  | cons dim rest ih =>
    have hdim : dim < 256 ^ 8 := hdims dim List.mem_cons_self
    have hrest := ih (fun next hnext => hdims next (List.mem_cons_of_mem dim hnext))
      (start + (leBytes 8 dim).length)
    have hbytes : dimsBytes (dim :: rest) = leBytes 8 dim ++ (dimsBytes rest ++ []) := by
      simp [dimsBytes]
    rw [hbytes]
    exact (consumes_readValue hdim start).bind (hrest.bind (consumes_pure _ (dim :: rest)))

theorem consumes_castDType (dtype : DType) (start : Nat) :
    Consumes (castDType dtype.code) start [] dtype := by
  simp only [castDType, DType.ofCode_code]
  exact consumes_pure start dtype

open RawTensor

theorem consumes_readPayload (raw : RawTensor) (start : Nat) :
    Consumes (readPayload raw.dtype raw.shape)
      (start + raw.header.length) raw.body (raw.parsed start) := by
  by_cases hempty : raw.dataSize = 0
  · have hzero : ¬ 0 < computeSize raw.dtype raw.shape := Nat.not_lt.mpr (Nat.le_of_eq hempty)
    simp only [readPayload, hzero, ↓reduceIte, body, parsed, if_pos hempty]
    exact consumes_pure _ _
  · have hpos : 0 < computeSize raw.dtype raw.shape := Nat.pos_of_ne_zero hempty
    have hpadding : raw.padding.length < 256 ^ 4 := raw.padding_lt
    have hoffset : start + raw.header.length +
        (leBytes 4 raw.padding.length).length + raw.padding.length = raw.payloadOffset start := by
      rw [leBytes_length]
      rfl
    have hbytes : raw.body = leBytes 4 raw.padding.length ++
        (raw.padding ++ ([] ++ (raw.payload ++ []))) := by
      simp [body, hempty]
    simp only [readPayload, hpos, ↓reduceIte, hbytes, parsed, hempty]
    refine (consumes_readValue hpadding _).bind
      ((consumes_skip _ raw.padding).bind ((consumes_currentPtr _).bind ?_))
    rw [hoffset, ← raw.payload_length, dataSize, ← raw.payload_length]
    exact (consumes_skip _ raw.payload).bind (consumes_pure _ _)

theorem consumes_readTensor (raw : RawTensor) (start : Nat) :
    Consumes readTensor start raw.bytes (raw.parsed start) := by
  have hrank : raw.shape.length < 256 ^ 8 := Nat.lt_of_le_of_lt raw.rank_le (by decide)
  have hpayload := consumes_readPayload raw start
  have hlength : start + (leBytes 4 raw.dtype.code).length +
      (leBytes 8 raw.shape.length).length + (dimsBytes raw.shape).length +
        (leBytes 8 raw.dataSize).length = start + raw.header.length := by
    simp only [header, List.length_append]
    omega
  have hbytes : raw.bytes = leBytes 4 raw.dtype.code ++
      (leBytes 8 raw.shape.length ++ ([] ++ (dimsBytes raw.shape ++
        (leBytes 8 raw.dataSize ++ ([] ++ ([] ++ raw.body)))))) := by
    simp [bytes, header]
  rw [hbytes]
  refine (consumes_readValue raw.dtype.code_lt _).bind ((consumes_readValue hrank _).bind
      ((consumes_require (by simpa using raw.rank_le) _ _).bind
        ((consumes_readDims raw.shape raw.dims_lt _).bind
          ((consumes_readValue (computeSize_lt _ _) _).bind ((consumes_castDType raw.dtype _).bind
              ((consumes_require (by simp) _ _).bind ?_))))))
  simp only [List.length_nil, Nat.add_zero]
  rw [← dataSize, hlength]
  exact hpayload

/-! What a successful read says about the bytes. -/

theorem parses_readValue (width : Nat) : Parses (readValue width) (fun _ bytes value =>
    value < 256 ^ width ∧ bytes = leBytes width value) := by
  refine ((parses_advance ParseError.unexpectedEnd width).map leValue).mono ?_
  rintro start bytes value ⟨read, ⟨hlength, rfl⟩, rfl⟩
  subst hlength
  exact ⟨leValue_lt read, (leBytes_leValue read).symm⟩

theorem parses_readBytes (count : Nat) : Parses (readBytes count) (fun _ bytes value =>
    bytes.length = count ∧ value = bytes) := by
  by_cases hzero : count = 0
  · subst hzero
    refine (parses_pure (ε := ParseError) ([] : Bytes)).mono ?_
    rintro start bytes value ⟨rfl, rfl⟩
    exact ⟨rfl, rfl⟩
  · simp only [readBytes, hzero, ↓reduceIte]
    exact parses_advance _ count

theorem parses_skip (count : Nat) :
    Parses (skip count) (fun _ bytes _ => bytes.length = count) := by
  refine ((parses_readBytes count).map _).mono ?_
  rintro start bytes _ ⟨_, ⟨hlength, _⟩, _⟩
  exact hlength

theorem parses_currentPtr :
    Parses currentPtr (fun start bytes value => bytes = [] ∧ value = start) := by
  intro cursor _
  exact ⟨[], cursor.passed_nil, rfl, rfl⟩

theorem parses_require (check : Bool) (failure : ParseError) :
    Parses (require check failure) (fun _ bytes _ =>
      bytes = [] ∧ check = true) := by
  cases check with
  | false => exact parses_throw failure _
  | true =>
    refine (parses_pure (ε := ParseError) ()).mono ?_
    rintro start bytes _ ⟨rfl, _⟩
    exact ⟨rfl, rfl⟩

theorem parses_readDims (count : Nat) : Parses (readDims count) (fun _ bytes shape =>
    shape.length = count ∧ (∀ dim ∈ shape, dim < 2 ^ 64) ∧ bytes = dimsBytes shape) := by
  induction count with
  | zero =>
    refine (parses_pure (ε := ParseError) ([] : List Nat)).mono ?_
    rintro start bytes shape ⟨rfl, rfl⟩
    exact ⟨rfl, by simp, rfl⟩
  | succ count ih =>
    refine ((parses_readValue 8).bind fun dim =>
      ih.bind fun rest => parses_pure (dim :: rest)).mono ?_
    rintro start bytes shape ⟨_, _, dim, rfl, ⟨hdim, rfl⟩, _, _, rest, rfl,
      ⟨hcount, hrest, rfl⟩, rfl, rfl⟩
    refine ⟨by simp [hcount], ?_, by simp [dimsBytes]⟩
    intro next hnext
    simp only [List.mem_cons] at hnext
    rcases hnext with rfl | hnext
    · exact hdim
    · exact hrest next hnext

theorem parses_castDType (code : Nat) : Parses (castDType code) (fun _ bytes dtype =>
    bytes = [] ∧ dtype.code = code) := by
  unfold castDType
  split
  · next dtype hcode =>
    refine (parses_pure (ε := ParseError) dtype).mono ?_
    rintro start bytes _ ⟨rfl, rfl⟩
    exact ⟨rfl, DType.code_of_ofCode hcode⟩
  · exact parses_throw _ _

/-- Nothing after the header, or padding and payload of the checked sizes. -/
def PayloadBytes (dtype : DType) (shape : List Nat) (start : Nat)
    (bytes : Bytes) (tensor : ParsedTensor) : Prop :=
  (computeSize dtype shape = 0 ∧ bytes = [] ∧
      tensor = ⟨dtype, shape, computeSize dtype shape, none⟩) ∨
    ∃ padding payload : Bytes, 0 < computeSize dtype shape ∧ padding.length < 2 ^ 32 ∧
      payload.length = computeSize dtype shape ∧
      bytes = leBytes 4 padding.length ++ (padding ++ payload) ∧
      tensor = ⟨dtype, shape, computeSize dtype shape, some (start + 4 + padding.length)⟩

theorem parses_readPayload (dtype : DType) (shape : List Nat) :
    Parses (readPayload dtype shape) (PayloadBytes dtype shape) := by
  by_cases hpos : 0 < computeSize dtype shape
  · simp only [readPayload, hpos, ↓reduceIte]
    refine ((parses_readValue 4).bind fun paddingSize =>
      (parses_skip paddingSize).bind fun _ => parses_currentPtr.bind fun ptr =>
        (parses_skip _).bind fun _ => parses_pure
          (⟨dtype, shape, computeSize dtype shape, some ptr⟩ : ParsedTensor)).mono ?_
    rintro start bytes tensor ⟨_, _, size, rfl, ⟨hsize, rfl⟩, padding, _, _,
      rfl, rfl, _, _, ptr, rfl, ⟨rfl, rfl⟩, payload, _, _, rfl, hpayload, rfl,
      rfl⟩
    exact Or.inr ⟨padding, payload, hpos, hsize, hpayload, by simp,
      by simp [Nat.add_assoc]⟩
  · simp only [readPayload, hpos, ↓reduceIte]
    refine (parses_pure (ε := ParseError) _).mono ?_
    rintro start bytes tensor ⟨rfl, rfl⟩
    exact Or.inl ⟨by omega, rfl, rfl⟩

theorem parses_readTensor : Parses readTensor (fun start bytes tensor =>
    ∃ raw : RawTensor, bytes = raw.bytes ∧ tensor = raw.parsed start) := by
  refine ((parses_readValue 4).bind fun code => (parses_readValue 8).bind
    fun ndim => (parses_require _ _).bind fun _ => (parses_readDims ndim).bind
      fun shape => (parses_readValue 8).bind fun dataSize =>
        (parses_castDType code).bind fun dtype => (parses_require _ _).bind
          fun _ => parses_readPayload dtype shape).mono ?_
  rintro start bytes tensor ⟨_, _, code, rfl, ⟨_, rfl⟩, _, _, ndim, rfl,
    ⟨_, rfl⟩, _, _, _, rfl, ⟨rfl, hrank⟩, _, _, shape, rfl,
    ⟨rfl, hdims, rfl⟩, _, _, dataSize, rfl, ⟨_, rfl⟩, _, _, dtype, rfl,
    ⟨rfl, rfl⟩, _, _, _, rfl, ⟨rfl, hsize⟩, hpayload⟩
  have hrank' : shape.length ≤ vectorMaxSize := by simpa using hrank
  have hsize' : computeSize dtype shape = dataSize := by simpa using hsize
  subst hsize'
  rcases hpayload with ⟨hzero, rfl, rfl⟩ | ⟨padding, payload, hpos, hpadding, hlength, rfl, rfl⟩
  · refine ⟨⟨dtype, shape, [], [], hrank', hdims, by decide, by simp [hzero],
      fun _ => rfl⟩, ?_, ?_⟩
    · simp [bytes, header, body, dataSize, hzero]
    · simp [parsed, dataSize, hzero]
  · have hne : computeSize dtype shape ≠ 0 := Nat.ne_of_gt hpos
    refine ⟨⟨dtype, shape, padding, payload, hrank', hdims, hpadding, hlength,
      fun hzero => absurd hzero hne⟩, ?_, ?_⟩
    · simp [bytes, header, body, dataSize, hne]
    · simp only [parsed, dataSize, hne, ↓reduceIte, payloadOffset, header, List.length_append,
        leBytes_length, List.length_nil, ParsedTensor.mk.injEq, true_and, Option.some.injEq]
      omega

/-! A whole dictionary. -/

structure RawEntry where
  name : Bytes
  tensor : RawTensor
  name_lt : name.length < 2 ^ 32

def RawEntry.bytes (entry : RawEntry) : Bytes :=
  leBytes 4 entry.name.length ++ (entry.name ++ entry.tensor.bytes)

/-- What the reader builds from an entry that starts at `start`. -/
def RawEntry.parsed (entry : RawEntry) (start : Nat) : Bytes × ParsedTensor :=
  (entry.name, entry.tensor.parsed (start + 4 + entry.name.length))

def entriesBytes (entries : List RawEntry) : Bytes := entries.flatMap RawEntry.bytes

def parsedEntries : Nat → List RawEntry → ParsedMap
  | _, [] => []
  | start, entry :: rest =>
    entry.parsed start :: parsedEntries (start + entry.bytes.length) rest

def dictionaryBytes (entries : List RawEntry) : Bytes :=
  kMagic ++ (leBytes 4 kVersion ++ (leBytes 4 entries.length ++ entriesBytes entries))

/-- Magic, version and entry count. -/
def dictionaryHeaderSize : Nat := 16

theorem dictionaryBytes_length (entries : List RawEntry) : (dictionaryBytes entries).length =
    dictionaryHeaderSize + (entriesBytes entries).length := by
  have hmagic : kMagic.length = 8 := by decide
  simp only [dictionaryBytes, List.length_append, leBytes_length, hmagic, dictionaryHeaderSize]
  omega

def parsedDictionary (entries : List RawEntry) : ParsedMap :=
  (parsedEntries dictionaryHeaderSize entries).foldl emplace []

/-- The buffer starts with the bytes of these entries; the reader stops after
the counted entries and ignores what follows. -/
def IsDictionary (buffer : Bytes) (entries : List RawEntry) : Prop :=
  entries.length < 2 ^ 32 ∧ ∃ rest, buffer = dictionaryBytes entries ++ rest

theorem consumes_readEntries (entries : List RawEntry) (tensors : ParsedMap) (start : Nat) :
    Consumes (readEntries entries.length tensors) start (entriesBytes entries)
      ((parsedEntries start entries).foldl emplace tensors) := by
  induction entries generalizing tensors start with
  | nil => exact consumes_pure start tensors
  | cons entry rest ih =>
    have hname : entry.name.length < 256 ^ 4 := entry.name_lt
    have hbytes : entriesBytes (entry :: rest) = leBytes 4 entry.name.length ++ (entry.name ++
          (entry.tensor.bytes ++ entriesBytes rest)) := by
      simp [entriesBytes, RawEntry.bytes]
    have hnext : start + (leBytes 4 entry.name.length).length +
        entry.name.length + entry.tensor.bytes.length = start + entry.bytes.length := by
      simp only [RawEntry.bytes, List.length_append]
      omega
    have hentry : (entry.name, entry.tensor.parsed (start + (leBytes 4 entry.name.length).length +
          entry.name.length)) = entry.parsed start := by
      rw [leBytes_length]
      rfl
    rw [hbytes]
    refine (consumes_readValue hname start).bind ((consumes_readBytes _ entry.name).bind
        ((consumes_readTensor entry.tensor _).bind ?_))
    rw [hnext, hentry]
    exact ih _ _

theorem parses_readEntries (count : Nat) (tensors : ParsedMap) :
    Parses (readEntries count tensors) (fun start bytes result =>
      ∃ entries : List RawEntry, entries.length = count ∧ bytes = entriesBytes entries ∧
        result = (parsedEntries start entries).foldl emplace tensors) := by
  induction count generalizing tensors with
  | zero =>
    refine (parses_pure (ε := ParseError) tensors).mono ?_
    rintro start bytes result ⟨rfl, rfl⟩
    exact ⟨[], rfl, rfl, rfl⟩
  | succ count ih =>
    refine ((parses_readValue 4).bind fun keySize =>
      (parses_readBytes keySize).bind fun key => parses_readTensor.bind
        fun tensor => ih (emplace tensors (key, tensor))).mono ?_
    rintro start bytes result ⟨_, _, _, rfl, ⟨hkey, rfl⟩, _, _, key, rfl,
      ⟨rfl, rfl⟩, _, _, _, rfl, ⟨raw, rfl, rfl⟩, rest, hcount, rfl, rfl⟩
    let entry : RawEntry := ⟨key, raw, hkey⟩
    refine ⟨entry :: rest, by simp [hcount], ?_, ?_⟩
    · simp [entry, entriesBytes, RawEntry.bytes]
    · simp [entry, parsedEntries, RawEntry.parsed, RawEntry.bytes, Nat.add_assoc]

theorem consumes_readTensorMap {entries : List RawEntry} (hcount : entries.length < 2 ^ 32) :
    Consumes readTensorMap 0 (dictionaryBytes entries) (parsedDictionary entries) := by
  have hbytes : dictionaryBytes entries = kMagic ++ ([] ++
      (leBytes 4 kVersion ++ ([] ++ (leBytes 4 entries.length ++ entriesBytes entries)))) := by
    simp [dictionaryBytes]
  have hentries := consumes_readEntries entries [] dictionaryHeaderSize
  have hcount' : entries.length < 256 ^ 4 := hcount
  rw [hbytes]
  refine (consumes_readBytes 0 kMagic).bind ((consumes_require (by decide) _ _).bind
      ((consumes_readValue (by decide) _).bind ((consumes_require (by decide) _ _).bind
          ((consumes_readValue hcount' _).bind ?_))))
  simp only [leBytes_length]
  exact hentries

theorem parses_readTensorMap : Parses readTensorMap (fun start bytes result =>
    start = 0 → ∃ entries : List RawEntry, entries.length < 2 ^ 32 ∧
      bytes = dictionaryBytes entries ∧
      result = parsedDictionary entries) := by
  refine ((parses_readBytes _).bind fun magic => (parses_require _ _).bind
    fun _ => (parses_readValue 4).bind fun version =>
      (parses_require _ _).bind fun _ => (parses_readValue 4).bind
        fun count => parses_readEntries count []).mono ?_
  rintro start bytes result ⟨_, _, magic, rfl, ⟨_, rfl⟩, _, _, _, rfl,
    ⟨rfl, hmagic⟩, _, _, version, rfl, ⟨_, rfl⟩, _, _, _, rfl,
    ⟨rfl, hversion⟩, _, _, _, rfl, ⟨hcount, rfl⟩, entries, rfl, rfl, rfl⟩ rfl
  have hmagic' : magic = kMagic := by simpa using hmagic
  have hversion' : version = kVersion := by simpa using hversion
  subst hmagic' hversion'
  refine ⟨entries, hcount, by simp [dictionaryBytes], ?_⟩
  simp only [leBytes_length]
  rfl

theorem parseFromMemoryZeroCopy_of_isDictionary {buffer : Bytes}
    {entries : List RawEntry} (hdictionary : IsDictionary buffer entries) :
    parseFromMemoryZeroCopy buffer = .ok (parsedDictionary entries)
      ⟨buffer, (dictionaryBytes entries).length⟩ := by
  obtain ⟨hcount, rest, rfl⟩ := hdictionary
  have hrun := consumes_readTensorMap hcount [] rest rfl
  simpa [parseFromMemoryZeroCopy] using hrun

theorem isDictionary_of_parseFromMemoryZeroCopy {buffer : Bytes} {tensors : ParsedMap}
    {final : Cursor} (hrun : parseFromMemoryZeroCopy buffer = .ok tensors final) :
    ∃ entries : List RawEntry, IsDictionary buffer entries ∧
      tensors = parsedDictionary entries := by
  obtain ⟨bytes, hpassed, hdescribed⟩ := parses_readTensorMap.ok (Nat.zero_le _) hrun
  obtain ⟨entries, hcount, rfl, htensors⟩ := hdescribed rfl
  exact ⟨entries, ⟨hcount, hpassed.segment⟩, htensors⟩

/-- The reader accepts a buffer exactly if it begins with a dictionary of the
grammar, and then returns what the dictionary says. -/
theorem parseFromMemoryZeroCopy_eq_ok_iff {buffer : Bytes} {tensors : ParsedMap} :
    (∃ final, parseFromMemoryZeroCopy buffer = .ok tensors final) ↔
      ∃ entries, IsDictionary buffer entries ∧ tensors = parsedDictionary entries := by
  constructor
  · rintro ⟨final, hrun⟩
    exact isDictionary_of_parseFromMemoryZeroCopy hrun
  · rintro ⟨entries, hdictionary, rfl⟩
    exact ⟨_, parseFromMemoryZeroCopy_of_isDictionary hdictionary⟩

end CatKV
