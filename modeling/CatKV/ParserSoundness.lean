/-
What the TENSDICT reader guarantees on arbitrary bytes.  The cursor and every
payload stay inside the buffer always; the recorded byte size is the true size
of the shape exactly when no size product of the buffer wraps around 2^64.
-/
import CatKV.TensorMapGrammar

namespace CatKV

open List

/-! The map keeps the first entry of each name. -/

def HasName (tensors : ParsedMap) (name : Bytes) : Prop := ∃ tensor, (name, tensor) ∈ tensors

variable {tensors : ParsedMap}

theorem hasName_iff_any {name : Bytes} :
    tensors.any (fun old => old.1 == name) = true ↔ HasName tensors name := by
  simp [HasName]

theorem mem_emplace {entry old : Bytes × ParsedTensor} : old ∈ emplace tensors entry ↔
    old ∈ tensors ∨ (old = entry ∧ ¬ HasName tensors entry.1) := by
  unfold emplace
  split
  · next hpresent => simp [hasName_iff_any.mp hpresent]
  · next habsent =>
    simp only [hasName_iff_any] at habsent
    simp [habsent]

theorem hasName_emplace {entry : Bytes × ParsedTensor} {name : Bytes} :
    HasName (emplace tensors entry) name ↔ HasName tensors name ∨ entry.1 = name := by
  simp only [HasName, mem_emplace]
  constructor
  · rintro ⟨tensor, hold | ⟨rfl, _⟩⟩
    · exact Or.inl ⟨tensor, hold⟩
    · exact Or.inr rfl
  · rintro (⟨tensor, hold⟩ | rfl)
    · exact ⟨tensor, Or.inl hold⟩
    · by_cases hpresent : HasName tensors entry.1
      · obtain ⟨tensor, hold⟩ := hpresent
        exact ⟨tensor, Or.inl hold⟩
      · exact ⟨entry.2, Or.inr ⟨rfl, hpresent⟩⟩

/-- A buffer entry with the entries before and after it. -/
structure FirstEntry (entries before : List RawEntry) (entry : RawEntry) : Prop where
  split : ∃ after, entries = before ++ entry :: after
  fresh : ∀ other ∈ before, other.name ≠ entry.name

theorem firstEntry_head (entry : RawEntry) (rest : List RawEntry) :
    FirstEntry (entry :: rest) [] entry :=
  ⟨⟨rest, rfl⟩, by simp⟩

variable {entry : RawEntry} {before : List RawEntry}

theorem FirstEntry.cons {head : RawEntry} {rest : List RawEntry}
    (hfirst : FirstEntry rest before entry) (hne : head.name ≠ entry.name) :
    FirstEntry (head :: rest) (head :: before) entry := by
  obtain ⟨⟨after, rfl⟩, hfresh⟩ := hfirst
  refine ⟨⟨after, rfl⟩, ?_⟩
  intro other hother
  simp only [mem_cons] at hother
  rcases hother with rfl | hother
  · exact hne
  · exact hfresh other hother

theorem firstEntry_cons_cases {head : RawEntry} {rest : List RawEntry}
    (hfirst : FirstEntry (head :: rest) before entry) :
    (before = [] ∧ entry = head) ∨ ∃ before', before = head :: before' ∧ head.name ≠ entry.name ∧
        FirstEntry rest before' entry := by
  obtain ⟨⟨after, heq⟩, hfresh⟩ := hfirst
  cases before with
  | nil =>
    simp only [nil_append, List.cons.injEq] at heq
    exact Or.inl ⟨rfl, heq.1.symm⟩
  | cons first before' =>
    simp only [cons_append, List.cons.injEq] at heq
    obtain ⟨rfl, rfl⟩ := heq
    exact Or.inr ⟨before', rfl, hfresh _ mem_cons_self, ⟨after, rfl⟩,
      fun other hother => hfresh other (mem_cons_of_mem _ hother)⟩

variable {entries : List RawEntry} {item : Bytes × ParsedTensor}

/-- The parsed map holds exactly the first entry of every name, parsed where it
stands in the buffer. -/
theorem mem_foldl_emplace {start : Nat} :
    item ∈ (parsedEntries start entries).foldl emplace tensors ↔
      item ∈ tensors ∨ ∃ before entry, FirstEntry entries before entry ∧
        ¬ HasName tensors entry.name ∧
        item = entry.parsed (start + (entriesBytes before).length) := by
  induction entries generalizing start tensors with
  | nil =>
    simp only [parsedEntries, foldl_nil]
    constructor
    · exact Or.inl
    · rintro (hold | ⟨before, entry, ⟨⟨after, heq⟩, _⟩, _⟩)
      · exact hold
      · simp at heq
  | cons head rest ih =>
    have hlength : ∀ before, start + (entriesBytes (head :: before)).length =
        start + head.bytes.length + (entriesBytes before).length := by
      intro before
      simp only [entriesBytes, flatMap_cons, length_append]
      omega
    rw [parsedEntries, foldl_cons, ih, mem_emplace]
    simp only [hasName_emplace]
    constructor
    · rintro ((hold | ⟨rfl, hnew⟩) | ⟨before, entry, hfirst, hnew, rfl⟩)
      · exact Or.inl hold
      · exact Or.inr ⟨[], head, firstEntry_head head rest, hnew, rfl⟩
      · have hne : ¬ HasName tensors entry.name ∧ head.name ≠ entry.name := not_or.mp hnew
        refine Or.inr ⟨head :: before, entry, hfirst.cons hne.2, hne.1, ?_⟩
        rw [hlength]
    · rintro (hold | ⟨before, entry, hfirst, hnew, rfl⟩)
      · exact Or.inl (Or.inl hold)
      · rcases firstEntry_cons_cases hfirst with
          ⟨rfl, rfl⟩ | ⟨before', rfl, hne, hfirst'⟩
        · exact Or.inl (Or.inr ⟨rfl, hnew⟩)
        · refine Or.inr ⟨before', entry, hfirst', not_or.mpr ⟨hnew, hne⟩, ?_⟩
          rw [hlength]

theorem mem_parsedDictionary : item ∈ parsedDictionary entries ↔
    ∃ before entry, FirstEntry entries before entry ∧ item = entry.parsed
        (dictionaryHeaderSize + (entriesBytes before).length) := by
  simp [parsedDictionary, mem_foldl_emplace, HasName]

/-! Payloads stay inside the buffer. -/

/-- The interval a parsed tensor views ends inside the buffer. -/
def PayloadInside (buffer : Bytes) (tensor : ParsedTensor) : Prop :=
  match tensor.externalData with
  | none => tensor.dataSize = 0
  | some offset => offset + tensor.dataSize ≤ buffer.length

theorem RawTensor.payload_end (raw : RawTensor) (start : Nat) (hsize : raw.dataSize ≠ 0) :
    raw.payloadOffset start + raw.dataSize = start + raw.bytes.length := by
  have hpayload : raw.payload.length = raw.dataSize := raw.payload_length
  simp only [RawTensor.payloadOffset, RawTensor.bytes, RawTensor.body, hsize,
    ↓reduceIte, length_append, leBytes_length, hpayload]
  omega

variable {buffer : Bytes}

theorem RawEntry.parsed_inside (entry : RawEntry) {start : Nat}
    (hend : start + entry.bytes.length ≤ buffer.length) :
    PayloadInside buffer (entry.parsed start).2 := by
  by_cases hsize : entry.tensor.dataSize = 0
  · simp [PayloadInside, RawEntry.parsed, RawTensor.parsed, hsize]
  · have hpayload := entry.tensor.payload_end (start + 4 + entry.name.length) hsize
    have hbytes : entry.bytes.length = 4 + entry.name.length + entry.tensor.bytes.length := by
      simp only [RawEntry.bytes, length_append, leBytes_length]
      omega
    simp only [PayloadInside, RawEntry.parsed, RawTensor.parsed, hsize, ↓reduceIte]
    omega

theorem FirstEntry.end_le (hfirst : FirstEntry entries before entry)
    (hdictionary : IsDictionary buffer entries) :
    dictionaryHeaderSize + (entriesBytes before).length + entry.bytes.length ≤ buffer.length := by
  obtain ⟨_, rest, rfl⟩ := hdictionary
  obtain ⟨after, rfl⟩ := hfirst.split
  rw [length_append, dictionaryBytes_length]
  simp only [entriesBytes, flatMap_append, flatMap_cons, length_append]
  omega

/-- The result a caller of `parse_from_memory_zero_copy` relies on.  The cursor
only moves forward, so its last position bounds every earlier one. -/
def ParseSafe (buffer : Bytes) : Prop :=
  match parseFromMemoryZeroCopy buffer with
  | .error _ final => final.position ≤ buffer.length
  | .ok tensors final =>
    final.position ≤ buffer.length ∧ ∀ item ∈ tensors, PayloadInside buffer item.2 ∧
        item.2.dataSize = exactSize item.2.dtype item.2.shape

/-- However the buffer reads as a dictionary, the first entry of each name has
a byte size below 2^64 over the natural numbers. -/
def NoSizeOverflow (buffer : Bytes) : Prop :=
  ∀ entries before entry, IsDictionary buffer entries → FirstEntry entries before entry →
      exactSize entry.tensor.dtype entry.tensor.shape < 2 ^ 64

theorem computeSize_eq_exactSize_iff (dtype : DType) (shape : List Nat) :
    computeSize dtype shape = exactSize dtype shape ↔ exactSize dtype shape < 2 ^ 64 := by
  rw [computeSize_eq]
  exact Nat.mod_eq_iff_lt (by decide)

variable {final : Cursor}

theorem parseFromMemoryZeroCopy_error_inBounds {failure : ParseError}
    (hrun : parseFromMemoryZeroCopy buffer = .error failure final) :
    final.position ≤ buffer.length := by
  have hadvanced := parses_readTensorMap.error (Nat.zero_le _) hrun
  have hbounds := hadvanced.inBounds
  rwa [Cursor.InBounds, hadvanced.buffer_eq] at hbounds

theorem parseFromMemoryZeroCopy_ok_inBounds
    (hrun : parseFromMemoryZeroCopy buffer = .ok tensors final) :
    final.position ≤ buffer.length := by
  obtain ⟨bytes, hpassed, _⟩ := parses_readTensorMap.ok (Nat.zero_le _) hrun
  have hadvanced := hpassed.advanced (Nat.zero_le _)
  have hbounds := hadvanced.inBounds
  rwa [Cursor.InBounds, hadvanced.buffer_eq] at hbounds

theorem parseFromMemoryZeroCopy_payloads_inside
    (hrun : parseFromMemoryZeroCopy buffer = .ok tensors final)
    (hitem : item ∈ tensors) : PayloadInside buffer item.2 := by
  obtain ⟨entries, hdictionary, rfl⟩ := isDictionary_of_parseFromMemoryZeroCopy hrun
  obtain ⟨before, entry, hfirst, rfl⟩ := mem_parsedDictionary.mp hitem
  exact entry.parsed_inside (hfirst.end_le hdictionary)

/-- The reader is safe on a buffer exactly when no kept entry of it has a size
product that wraps around. -/
theorem parseSafe_iff_noSizeOverflow (buffer : Bytes) :
    ParseSafe buffer ↔ NoSizeOverflow buffer := by
  constructor
  · intro hsafe entries before entry hdictionary hfirst
    have hrun := parseFromMemoryZeroCopy_of_isDictionary hdictionary
    simp only [ParseSafe, hrun] at hsafe
    have hitem := hsafe.2 _ (mem_parsedDictionary.mpr ⟨before, entry, hfirst, rfl⟩)
    exact (computeSize_eq_exactSize_iff _ _).mp hitem.2
  · intro hsizes
    unfold ParseSafe
    split
    · next hrun => exact parseFromMemoryZeroCopy_error_inBounds hrun
    · next hrun =>
      refine ⟨parseFromMemoryZeroCopy_ok_inBounds hrun, fun item hitem =>
        ⟨parseFromMemoryZeroCopy_payloads_inside hrun hitem, ?_⟩⟩
      obtain ⟨entries, hdictionary, rfl⟩ := isDictionary_of_parseFromMemoryZeroCopy hrun
      obtain ⟨before, entry, hfirst, rfl⟩ := mem_parsedDictionary.mp hitem
      exact (computeSize_eq_exactSize_iff _ _).mpr (hsizes entries before entry hdictionary hfirst)

/-- One float32 tensor "t" of shape 2^32 × 2^32 with a recorded size of 0. -/
def wrappedDictionary : Bytes :=
  kMagic ++ leBytes 4 2 ++ leBytes 4 1 ++ leBytes 4 1 ++ ascii "t" ++
    leBytes 4 0 ++ leBytes 8 2 ++ leBytes 8 (2 ^ 32) ++ leBytes 8 (2 ^ 32) ++
    leBytes 8 0

/-- The wrapped size passes the check, so 57 bytes are accepted as a tensor of
2^66 bytes. -/
theorem not_parseSafe_wrappedDictionary : ¬ ParseSafe wrappedDictionary := by
  have hrun : parseFromMemoryZeroCopy wrappedDictionary =
      .ok [(ascii "t", ⟨.float32, [2 ^ 32, 2 ^ 32], 0, none⟩)] ⟨wrappedDictionary, 57⟩ := by rfl
  intro hsafe
  simp only [ParseSafe, hrun] at hsafe
  have hsize := (hsafe.2 _ mem_cons_self).2
  exact absurd hsize (by decide)

end CatKV
