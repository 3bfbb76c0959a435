/-
Writing a tensor map and reading it back.  The writer's output is a dictionary
of the grammar with zero padding up to the alignment, so the reader returns the
entries that were written.
-/
import CatKV.TensorMapGrammar

namespace CatKV

open List

/-! The writer in the terms of the grammar. -/

theorem map_range_eq_leBytes (value bytes : Nat) : (List.range bytes).map (fun index =>
    UInt8.ofNat ((value >>> (index * 8)) &&& 0xFF)) = leBytes bytes value := by
  induction bytes generalizing value with
  | zero => rfl
  | succ bytes ih =>
    have hbyte : ∀ low : Nat, UInt8.ofNat (low &&& 0xFF) = UInt8.ofNat low := by
      intro low
      apply UInt8.toNat_inj.mp
      rw [UInt8.toNat_ofNat', UInt8.toNat_ofNat', Nat.and_two_pow_sub_one_eq_mod low 8, Nat.mod_mod]
    have hshift : ∀ index : Nat, value >>> ((index + 1) * 8) = (value / 256) >>> (index * 8) := by
      intro index
      rw [Nat.add_mul, Nat.add_comm, Nat.shiftRight_add, Nat.shiftRight_eq_div_pow value]
    rw [range_succ_eq_map, map_cons, map_map, leBytes, ← ih (value / 256)]
    simp only [Nat.zero_mul, Nat.shiftRight_zero, hbyte, Function.comp_def,
      Nat.succ_eq_add_one, hshift]

theorem appendValue_eq (out : Bytes) (value bytes : Nat) :
    appendValue out value bytes = out ++ leBytes bytes value := by
  rw [appendValue, map_range_eq_leBytes]

theorem foldl_appendValue (shape : List Nat) (out : Bytes) :
    shape.foldl (fun out dim => appendValue out dim 8) out = out ++ dimsBytes shape := by
  induction shape generalizing out with
  | nil => simp [dimsBytes]
  | cons dim rest ih =>
    rw [foldl_cons, ih, appendValue_eq]
    simp [dimsBytes]

def tensorHeaderSize (shape : List Nat) : Nat := 20 + 8 * shape.length

theorem RawTensor.header_length (raw : RawTensor) :
    raw.header.length = tensorHeaderSize raw.shape := by
  have hdims : (dimsBytes raw.shape).length = 8 * raw.shape.length := by
    simp [dimsBytes, length_flatMap, Nat.mul_comm]
  simp only [RawTensor.header, length_append, leBytes_length, hdims, tensorHeaderSize]
  omega

theorem paddingAt_lt (size : Nat) : paddingAt size < 256 := Nat.mod_lt _ (by decide)

theorem paddingAt_aligns (size : Nat) : (size + 4 + paddingAt size) % kTensorAlignment = 0 := by
  simp only [paddingAt, kTensorAlignment]
  omega

/-- The tensor as written when its header starts at offset `start`. -/
def Tensor.written (tensor : Tensor) (start : Nat) : RawTensor where
  dtype := tensor.dtype
  shape := tensor.shape
  padding := if tensor.dataSize = 0 then []
    else List.replicate (paddingAt (start + tensorHeaderSize tensor.shape)) 0
  payload := tensor.data
  rank_le := tensor.rank_le
  dims_lt := tensor.dims_lt
  padding_lt := by
    have hlt := paddingAt_lt (start + tensorHeaderSize tensor.shape)
    split
    · decide
    · rw [List.length_replicate]
      omega
  payload_length := tensor.data_length
  padding_empty := fun hzero => if_pos hzero

def writtenEntry (start : Nat) (entry : Bytes × Tensor)
    (hname : entry.1.length < 2 ^ 32) : RawEntry where
  name := entry.1
  tensor := entry.2.written (start + 4 + entry.1.length)
  name_lt := hname

theorem appendTensor_eq (out : Bytes) (entry : Bytes × Tensor) (hname : entry.1.length < 2 ^ 32) :
    appendTensor out entry.1 entry.2 = out ++ (writtenEntry out.length entry hname).bytes := by
  obtain ⟨name, tensor⟩ := entry
  let raw := tensor.written (out.length + 4 + name.length)
  have hheader : appendValue (tensor.shape.foldl
      (fun out dim => appendValue out dim 8) (appendValue (appendValue
        (appendValue out name.length 4 ++ name) tensor.dtype.code 4)
          tensor.ndim 8)) tensor.dataSize 8 =
        out ++ leBytes 4 name.length ++ name ++ raw.header := by
    rw [foldl_appendValue]
    simp only [appendValue_eq, append_assoc]
    rfl
  have hlength : (out ++ leBytes 4 name.length ++ name ++ raw.header).length =
      out.length + 4 + name.length + tensorHeaderSize tensor.shape := by
    simp only [length_append, leBytes_length, raw.header_length]
    rfl
  simp only [appendTensor, hheader]
  by_cases hsize : tensor.dataSize = 0
  · have hraw : raw.dataSize = 0 := hsize
    simp only [hsize, ↓reduceIte, writtenEntry, RawEntry.bytes, RawTensor.bytes]
    change _ = out ++ (leBytes 4 name.length ++ (name ++ (raw.header ++ raw.body)))
    simp [RawTensor.body, hraw]
  · have hraw : raw.dataSize ≠ 0 := hsize
    have hpadding : raw.padding = List.replicate (paddingAt
        (out.length + 4 + name.length + tensorHeaderSize tensor.shape)) 0 :=
      if_neg hsize
    simp only [hsize, ↓reduceIte, hlength, appendValue_eq, writtenEntry,
      RawEntry.bytes, RawTensor.bytes]
    change _ = out ++ (leBytes 4 name.length ++ (name ++ (raw.header ++ raw.body)))
    have hbody : raw.body = leBytes 4 raw.padding.length ++
        (raw.padding ++ tensor.data) := if_neg hraw
    rw [hbody, hpadding, length_replicate]
    simp only [append_assoc]

/-- The grammar entries of everything the writer appends from `start` on. -/
def writtenEntries : Nat → (entries : List (Bytes × Tensor)) →
    (∀ entry ∈ entries, entry.1.length < 2 ^ 32) → List RawEntry
  | _, [], _ => []
  | start, entry :: rest, hnames =>
    let raw := writtenEntry start entry (hnames entry List.mem_cons_self)
    raw :: writtenEntries (start + raw.bytes.length) rest
      (fun next hnext => hnames next (List.mem_cons_of_mem _ hnext))

section Written

variable (entries : List (Bytes × Tensor)) (hnames : ∀ entry ∈ entries, entry.1.length < 2 ^ 32)

theorem writtenEntries_length (start : Nat) :
    (writtenEntries start entries hnames).length = entries.length := by
  induction entries generalizing start with
  | nil => rfl
  | cons entry rest ih => simp [writtenEntries, ih]

theorem foldl_appendTensor (out : Bytes) :
    entries.foldl (fun out entry => appendTensor out entry.1 entry.2) out =
      out ++ entriesBytes (writtenEntries out.length entries hnames) := by
  induction entries generalizing out with
  | nil => simp [writtenEntries, entriesBytes]
  | cons entry rest ih =>
    have hname := hnames entry mem_cons_self
    rw [foldl_cons, appendTensor_eq out entry hname,
      ih (fun next hnext => hnames next (mem_cons_of_mem _ hnext)), append_assoc, length_append]
    simp [writtenEntries, entriesBytes]

theorem serializeTensorMap_eq : serializeTensorMap entries =
    dictionaryBytes (writtenEntries dictionaryHeaderSize entries hnames) := by
  have hlength : (kMagic ++ leBytes 4 kVersion ++
      leBytes 4 entries.length).length = dictionaryHeaderSize := by
    simp only [length_append, leBytes_length]
    rfl
  simp only [serializeTensorMap, appendValue_eq]
  rw [foldl_appendTensor entries hnames, hlength]
  simp only [dictionaryBytes, writtenEntries_length, append_assoc]

/-! What is read back. -/

/-- The observable part of a map entry: name, dtype, shape and bytes. -/
abbrev Contents := Bytes × DType × List Nat × Bytes

def Tensor.contents (entry : Bytes × Tensor) : Contents :=
  (entry.1, entry.2.dtype, entry.2.shape, entry.2.data)

def ParsedTensor.contents (buffer : Bytes) (item : Bytes × ParsedTensor) : Contents :=
  (item.1, item.2.dtype, item.2.shape, item.2.bytes buffer)

theorem RawEntry.parsed_bytes (entry : RawEntry) (before after : Bytes) :
    (entry.parsed before.length).2.bytes (before ++ entry.bytes ++ after) =
      entry.tensor.payload := by
  have hpayload : entry.tensor.payload.length = entry.tensor.dataSize := entry.tensor.payload_length
  by_cases hsize : entry.tensor.dataSize = 0
  · rw [hsize] at hpayload
    simp [RawEntry.parsed, RawTensor.parsed, ParsedTensor.bytes, hsize,
      length_eq_zero_iff.mp hpayload]
  · let start := before ++ leBytes 4 entry.name.length ++ entry.name ++
      entry.tensor.header ++ leBytes 4 entry.tensor.padding.length ++ entry.tensor.padding
    have hstart : entry.tensor.payloadOffset
        (before.length + 4 + entry.name.length) = start.length := by
      simp only [start, length_append, leBytes_length, RawTensor.payloadOffset]
    have hbuffer : before ++ entry.bytes ++ after = start ++ (entry.tensor.payload ++ after) := by
      simp [start, RawEntry.bytes, RawTensor.bytes, RawTensor.body, hsize]
    simp only [RawEntry.parsed, RawTensor.parsed, ParsedTensor.bytes, hsize,
      ↓reduceIte, hstart, hbuffer, drop_left]
    rw [← hpayload, take_left]

theorem contents_parsedEntries (before after : Bytes) : (parsedEntries before.length
      (writtenEntries before.length entries hnames)).map
    (ParsedTensor.contents (before ++ entriesBytes
      (writtenEntries before.length entries hnames) ++ after)) =
    entries.map Tensor.contents := by
  induction entries generalizing before with
  | nil => rfl
  | cons entry rest ih =>
    have hrest : ∀ next ∈ rest, next.1.length < 2 ^ 32 :=
      fun next hnext => hnames next (mem_cons_of_mem _ hnext)
    let raw := writtenEntry before.length entry (hnames entry mem_cons_self)
    let tail := writtenEntries (before ++ raw.bytes).length rest hrest
    have htail : writtenEntries before.length (entry :: rest) hnames = raw :: tail := by
      simp only [writtenEntries, tail, raw, length_append]
    have hbuffer : before ++ entriesBytes (raw :: tail) ++ after =
        before ++ raw.bytes ++ (entriesBytes tail ++ after) := by
      simp [entriesBytes]
    have hhead := raw.parsed_bytes before (entriesBytes tail ++ after)
    have hih := ih hrest (before ++ raw.bytes)
    rw [htail, hbuffer, parsedEntries, map_cons, map_cons, ← length_append]
    rw [append_assoc (before ++ raw.bytes)] at hih
    rw [hih]
    congr 1
    exact congrArg (fun bytes => (entry.1, entry.2.dtype, entry.2.shape, bytes)) hhead

theorem foldl_emplace_of_nodup {entries tensors : ParsedMap}
    (hnodup : ((tensors ++ entries).map Prod.fst).Nodup) :
    entries.foldl emplace tensors = tensors ++ entries := by
  induction entries generalizing tensors with
  | nil => simp
  | cons entry rest ih =>
    have hfresh : ¬ tensors.any (fun old => old.1 == entry.1) = true := by
      simp only [map_append, map_cons, nodup_append] at hnodup
      simp only [any_eq_true, beq_iff_eq, not_exists, not_and]
      intro old hold
      exact hnodup.2.2 old.1 (mem_map_of_mem hold) entry.1 mem_cons_self
    have hstep : emplace tensors entry = tensors ++ [entry] := by
      simp only [emplace, hfresh, Bool.false_eq_true, ↓reduceIte]
    rw [foldl_cons, hstep, ih (by simpa using hnodup)]
    simp

theorem writtenEntry_payloadOffset (start : Nat) (entry : Bytes × Tensor)
    (hname : entry.1.length < 2 ^ 32) (hsize : entry.2.dataSize ≠ 0) :
    (writtenEntry start entry hname).tensor.payloadOffset
      (start + 4 + entry.1.length) % kTensorAlignment = 0 := by
  have haligned := paddingAt_aligns (start + 4 + entry.1.length + tensorHeaderSize entry.2.shape)
  have hheader := (entry.2.written (start + 4 + entry.1.length)).header_length
  have hpadding : (entry.2.written (start + 4 + entry.1.length)).padding.length =
      paddingAt (start + 4 + entry.1.length + tensorHeaderSize entry.2.shape) := by
    simp only [Tensor.written, hsize, ↓reduceIte, length_replicate]
  simp only [writtenEntry, RawTensor.payloadOffset, hheader, hpadding]
  exact haligned

theorem parsedEntries_aligned (start : Nat) :
    ∀ item ∈ parsedEntries start (writtenEntries start entries hnames),
      item.2.dataSize ≠ 0 → ∃ offset, item.2.externalData = some offset ∧
        offset % kTensorAlignment = 0 := by
  induction entries generalizing start with
  | nil => simp [writtenEntries, parsedEntries]
  | cons entry rest ih =>
    intro item hitem hsize
    simp only [writtenEntries, parsedEntries, mem_cons] at hitem
    rcases hitem with rfl | hitem
    · exact ⟨_, if_neg hsize, writtenEntry_payloadOffset start entry _ hsize⟩
    · exact ih _ _ item hitem hsize

end Written

/-- An `unordered_map` of tensors that the format's 32-bit counts can hold. -/
structure TensorMap where
  entries : List (Bytes × Tensor)
  nodup : (entries.map Prod.fst).Nodup
  names_lt : ∀ entry ∈ entries, entry.1.length < 2 ^ 32
  count_lt : entries.length < 2 ^ 32

/-- Whatever order the map is iterated in, reading the written blob gives the
map back, with every payload on the alignment. -/
theorem parse_serializeTensorMap (map : TensorMap)
    {order : List (Bytes × Tensor)} (horder : order.Perm map.entries) :
    ∃ tensors final, parseFromMemoryZeroCopy (serializeTensorMap order) = .ok tensors final ∧
      (tensors.map (ParsedTensor.contents (serializeTensorMap order))).Perm
        (map.entries.map Tensor.contents) ∧
      ∀ item ∈ tensors, item.2.dataSize ≠ 0 → ∃ offset, item.2.externalData = some offset ∧
          offset % kTensorAlignment = 0 := by
  have hnames : ∀ entry ∈ order, entry.1.length < 2 ^ 32 :=
    fun entry hentry => map.names_lt entry (horder.mem_iff.mp hentry)
  have hnodup : (order.map Prod.fst).Nodup := (horder.map Prod.fst).nodup_iff.mpr map.nodup
  let raw := writtenEntries dictionaryHeaderSize order hnames
  have hblob : serializeTensorMap order = dictionaryBytes raw := serializeTensorMap_eq order hnames
  have hdictionary : IsDictionary (serializeTensorMap order) raw := by
    refine ⟨?_, [], by rw [hblob, append_nil]⟩
    rw [writtenEntries_length, horder.length_eq]
    exact map.count_lt
  let header := kMagic ++ (leBytes 4 kVersion ++ leBytes 4 raw.length)
  have hheader : header.length = dictionaryHeaderSize := by
    simp only [header, length_append, leBytes_length]
    rfl
  have hcontents : (parsedEntries dictionaryHeaderSize raw).map
      (ParsedTensor.contents (serializeTensorMap order)) = order.map Tensor.contents := by
    have hread := contents_parsedEntries order hnames header []
    simp only [hheader, append_nil] at hread
    rw [hblob]
    simpa [header, dictionaryBytes] using hread
  have hparsed : parsedDictionary raw = parsedEntries dictionaryHeaderSize raw := by
    apply foldl_emplace_of_nodup
    have hfst := congrArg (List.map Prod.fst) hcontents
    simp only [map_map] at hfst
    rw [nil_append]
    exact hfst ▸ hnodup
  have hrun := parseFromMemoryZeroCopy_of_isDictionary hdictionary
  rw [hparsed] at hrun
  refine ⟨_, _, hrun, ?_, parsedEntries_aligned order hnames dictionaryHeaderSize⟩
  rw [hcontents]
  exact horder.map Tensor.contents

def sampleTensorMap : TensorMap where
  entries :=
    [(ascii "u_meta", ⟨.int8, [2], [7, 8], by decide, by decide, by decide⟩),
      ([], ⟨.float32, [3, 0], [], by decide, by decide, by decide⟩)]
  nodup := by decide
  names_lt := by decide
  count_lt := by decide

theorem parse_serializeTensorMap_sample : ∃ tensors final, parseFromMemoryZeroCopy
      (serializeTensorMap sampleTensorMap.entries.reverse) = .ok tensors final ∧
    (tensors.map (ParsedTensor.contents (serializeTensorMap sampleTensorMap.entries.reverse))).Perm
      (sampleTensorMap.entries.map Tensor.contents) ∧
    ∀ item ∈ tensors, item.2.dataSize ≠ 0 → ∃ offset, item.2.externalData = some offset ∧
        offset % kTensorAlignment = 0 :=
  parse_serializeTensorMap sampleTensorMap (reverse_perm _)

/-! The size computed ahead. -/

/-- What follows aligned bytes, up to the next multiple of the alignment. -/
def aligned (size : Int) : Int := (size + 255) / 256 * 256

/-- By how much the size computed ahead is too large.  `gap` counts the bytes since
the last payload's start, and `ahead` is how far the cursor was ahead of the
writer at that payload: by the length and the bytes of the name, which are counted
twice.  The next payload moves by the difference, rounded to the alignment. -/
def drift : (gap ahead : Int) → List (Bytes × Tensor) → Int
  | _, ahead, [] => -ahead
  | gap, ahead, (name, tensor) :: rest =>
    let gap := gap + 4 + name.length + tensorHeaderSize tensor.shape
    if tensor.dataSize = 0 then drift gap ahead rest
    else aligned (gap + 4 + (4 + name.length) - ahead) - aligned (gap + 4) +
      drift tensor.dataSize (4 + name.length) rest

theorem length_appendTensor (out name : Bytes) (tensor : Tensor) :
    (appendTensor out name tensor).length =
      if tensor.dataSize = 0 then out.length + 4 + name.length + tensorHeaderSize tensor.shape
      else out.length + 4 + name.length + tensorHeaderSize tensor.shape + 4 +
        paddingAt (out.length + 4 + name.length + tensorHeaderSize tensor.shape) +
          tensor.dataSize := by
  have hdims : (dimsBytes tensor.shape).length = 8 * tensor.shape.length := by
    simp [dimsBytes, length_flatMap, Nat.mul_comm]
  have hheader (size : Nat) : size + 4 + name.length + 4 + 8 + 8 * tensor.shape.length + 8 =
      size + 4 + name.length + tensorHeaderSize tensor.shape := by
    rw [tensorHeaderSize]
    omega
  have hdata : tensor.data.length = tensor.dataSize := tensor.data_length
  unfold appendTensor
  simp only [foldl_appendValue]
  split <;> simp only [appendValue_eq, length_append, leBytes_length, hdims, length_replicate,
    hdata, hheader]

/-- Both sizes are counted from the last payload's start, which is aligned in the
blob, and in the prediction up to the cursor's lead. -/
theorem foldl_sizes (entries : List (Bytes × Tensor)) (out : Bytes) (total : Nat) (gap ahead : Int)
    (hwriter : (out.length - gap) % 256 = 0) (hcursor : (total + ahead - gap) % 256 = 0) :
    ((entries.foldl addEntrySize total : Nat) : Int) -
        (entries.foldl (fun out entry => appendTensor out entry.1 entry.2) out).length =
      total - out.length + ahead + drift gap ahead entries := by
  induction entries generalizing out total gap ahead with
  | nil => simp [drift]
  | cons entry rest ih =>
    obtain ⟨name, tensor⟩ := entry
    have hlength := length_appendTensor out name tensor
    rw [foldl_cons, foldl_cons]
    simp only [addEntrySize, serializedTensorSize, drift]
    simp only [paddingAt, kTensorAlignment, tensorHeaderSize] at hlength ⊢
    split
    · next hsize =>
      rw [if_pos hsize] at hlength
      rw [ih _ _ (gap + 4 + name.length + (20 + 8 * tensor.shape.length : Nat)) ahead
        (by omega) (by omega)]
      omega
    · next hsize =>
      rw [if_neg hsize] at hlength
      rw [ih _ _ tensor.dataSize (4 + name.length) (by omega) (by omega)]
      unfold aligned
      omega

/-- The size computed ahead is the length of the blob exactly if the payloads'
moves add up to the cursor's lead at the last one. -/
theorem predictedSize_eq_length_iff (tensors : List (Bytes × Tensor)) :
    predictedSize tensors = (serializeTensorMap tensors).length ↔
      drift dictionaryHeaderSize 0 tensors = 0 := by
  have hheader : (appendValue (appendValue kMagic kVersion 4) tensors.length 4).length = 16 := by
    simp only [appendValue_eq, length_append, leBytes_length]
    rfl
  have hsizes := foldl_sizes tensors (appendValue (appendValue kMagic kVersion 4) tensors.length 4)
    (kMagic.length + 4 + 4) dictionaryHeaderSize 0 (by rw [hheader]; rfl) (by rfl)
  have htotal : kMagic.length + 4 + 4 = 16 := rfl
  rw [hheader, htotal] at hsizes
  simp only [predictedSize, serializeTensorMap, htotal]
  omega

theorem predictedSize_ne_length_sample : predictedSize sampleTensorMap.entries ≠
    (serializeTensorMap sampleTensorMap.entries).length := by
  decide +kernel

end CatKV
