/-
`ParseLayerIdx` on arbitrary strings and on the names it is meant for.  It takes
the digits after the last `layer_`, wherever that stands, and converts them with
`std::stoll`, which throws on a number beyond int64; the dispatcher calls it
from worker threads that have no handler.
-/
import Mathlib.Data.List.Infix
import CatKV.ObjectName

namespace CatKV

open List
namespace LayerParsing

/-! Occurrences of a marker. -/

section Marker

variable {α : Type*}

theorem infix_of_append {head : α} {marker first rest : List α} (hfirst : head ∉ first)
    (hmark : (head :: marker) <:+: first ++ rest) : (head :: marker) <:+: rest := by
  induction first with
  | nil => exact hmark
  | cons letter first ih =>
    rw [mem_cons, not_or] at hfirst
    rw [cons_append, infix_cons_iff] at hmark
    rcases hmark with hstart | hlater
    · exact absurd (cons_prefix_cons.mp hstart).1 hfirst.1
    · exact ih hfirst.2 hlater

theorem infix_or_of_append_cons {separator : α} {marker first rest : List α}
    (hnot : separator ∉ marker) (hmark : marker <:+: first ++ separator :: rest) :
    marker <:+: first ∨ marker <:+: rest := by
  obtain ⟨before, after, heq⟩ := hmark
  rw [append_assoc, append_eq_append_iff] at heq
  rcases heq with ⟨common, rfl, hmid⟩ | ⟨common, rfl, hmid⟩
  · rcases append_eq_append_iff.mp hmid with
      ⟨more, rfl, -⟩ | ⟨more, rfl, hsep⟩
    · exact Or.inl ⟨before, more, by simp⟩
    · cases more with
      | nil => exact Or.inl ⟨before, [], by simp⟩
      | cons letter more =>
        rw [cons_append, List.cons.injEq] at hsep
        simp [hsep.1] at hnot
  · cases common with
    | nil =>
      cases marker with
      | nil => exact Or.inl nil_infix
      | cons letter marker =>
        rw [nil_append, cons_append, List.cons.injEq] at hmid
        simp [hmid.1] at hnot
    | cons letter common =>
      rw [cons_append, List.cons.injEq] at hmid
      exact Or.inr ⟨common, after, by rw [hmid.2, append_assoc]⟩

end Marker

theorem rfind_eq_none_iff {head : UInt8} {marker text : Bytes} :
    rfind (head :: marker) text = none ↔ ¬ (head :: marker) <:+: text := by
  induction text with
  | nil => simp [rfind]
  | cons letter rest ih =>
    rw [infix_cons_iff, not_or, ← ih, ← isPrefixOf_iff_prefix, rfind]
    cases rfind (head :: marker) rest <;> simp

theorem layerMarker_eq : layerMarker = charByte 'l' :: ascii "ayer_" := by
  decide

/-- What stands after the last occurrence of `layer_`. -/
def AfterLastMarker (path rest : Bytes) : Prop :=
  ∃ before, path = before ++ layerMarker ++ rest ∧ ¬ layerMarker <:+: ascii "ayer_" ++ rest

theorem AfterLastMarker.rfind_eq {path rest : Bytes} (hlast : AfterLastMarker path rest) :
    ∃ before, path = before ++ layerMarker ++ rest ∧
      rfind layerMarker path = some before.length := by
  obtain ⟨before, rfl, hnone⟩ := hlast
  exact ⟨before, rfl, rfind_append before rest (rfind_eq_none_iff.mpr hnone)⟩

theorem exists_afterLastMarker {path : Bytes}
    (hmark : layerMarker <:+: path) : ∃ rest, AfterLastMarker path rest := by
  induction path with
  | nil => exact absurd hmark (by decide)
  | cons letter text ih =>
    by_cases hlater : layerMarker <:+: text
    · obtain ⟨rest, before, heq, hnone⟩ := ih hlater
      exact ⟨rest, letter :: before, by simp [heq], hnone⟩
    · obtain ⟨rest, heq⟩ := (infix_cons_iff.mp hmark).resolve_right hlater
      have htext : ascii "ayer_" ++ rest = text := tail_eq_of_cons_eq heq
      exact ⟨rest, [], heq.symm, by rwa [htext]⟩

/-- The digits at the start of a text. -/
def leadingDigits (text : Bytes) : Bytes := text.takeWhile isDigitByte

theorem parseLayerIdx_of_afterLastMarker {path rest : Bytes}
    (hlast : AfterLastMarker path rest) : parseLayerIdx path =
      if leadingDigits rest = [] then some (-1)
      else if digitsValue (leadingDigits rest) < 2 ^ 63 then
        some (digitsValue (leadingDigits rest) : Int)
      else none := by
  obtain ⟨before, hpath, hfind⟩ := hlast.rfind_eq
  have hdrop : path.drop (before.length + layerMarker.length) = rest := by
    rw [hpath, ← length_append, drop_left]
  simp only [parseLayerIdx, hfind, hdrop, leadingDigits]
  rfl

/-- The value the parser is to return: that of the digits after the last
marker, and -1 if there are none. -/
def Reads (path : Bytes) (value : Int) : Prop :=
  (∃ rest, AfterLastMarker path rest ∧ leadingDigits rest ≠ [] ∧
    value = digitsValue (leadingDigits rest)) ∨
  ((∀ rest, AfterLastMarker path rest → leadingDigits rest = []) ∧ value = -1)

/-- The digits after the last marker stand for an int64. -/
def LayerFits (path : Bytes) : Prop :=
  ∀ rest, AfterLastMarker path rest → digitsValue (leadingDigits rest) < 2 ^ 63

theorem AfterLastMarker.unique {path rest other : Bytes} (hlast : AfterLastMarker path rest)
    (hother : AfterLastMarker path other) : rest = other := by
  obtain ⟨before, hpath, hfind⟩ := hlast.rfind_eq
  obtain ⟨before', hpath', hfind'⟩ := hother.rfind_eq
  rw [hfind, Option.some.injEq] at hfind'
  rw [hpath] at hpath'
  exact (append_inj hpath' (by simp [hfind'])).2

theorem parseLayerIdx_reads_iff (path : Bytes) :
    (∃ value, parseLayerIdx path = some value ∧ Reads path value) ↔ LayerFits path := by
  by_cases hmark : layerMarker <:+: path
  · obtain ⟨rest, hlast⟩ := exists_afterLastMarker hmark
    have hparse := parseLayerIdx_of_afterLastMarker hlast
    have hfits : LayerFits path ↔ digitsValue (leadingDigits rest) < 2 ^ 63 :=
      ⟨fun hall => hall rest hlast, fun hlt other hother =>
        hlast.unique hother ▸ hlt⟩
    rw [hfits]
    by_cases hdigits : leadingDigits rest = []
    · rw [if_pos hdigits] at hparse
      have hzero : digitsValue (leadingDigits rest) < 2 ^ 63 := by
        rw [hdigits]
        decide
      refine iff_of_true ⟨-1, hparse, Or.inr ⟨?_, rfl⟩⟩ hzero
      intro other hother
      rwa [← hlast.unique hother]
    · rw [if_neg hdigits] at hparse
      constructor
      · rintro ⟨value, hvalue, -⟩
        by_contra hlarge
        rw [if_neg hlarge, hvalue] at hparse
        exact Option.some_ne_none value hparse
      · intro hlt
        rw [if_pos hlt] at hparse
        exact ⟨_, hparse, Or.inl ⟨rest, hlast, hdigits, rfl⟩⟩
  · have hnone : rfind layerMarker path = none := rfind_eq_none_iff.mpr hmark
    have habsent : ∀ rest, ¬ AfterLastMarker path rest := by
      rintro rest ⟨before, hpath, -⟩
      exact hmark ⟨before, rest, hpath.symm⟩
    refine iff_of_true ⟨-1, by simp [parseLayerIdx, hnone], Or.inr ⟨?_, rfl⟩⟩ ?_
    · exact fun rest hlast => (habsent rest hlast).elim
    · exact fun rest hlast => (habsent rest hlast).elim

theorem parseLayerIdx_numeral {path after : Bytes} {layer : Nat}
    (hlast : AfterLastMarker path (decimal layer ++ after)) (hafter : leadingDigits after = [])
    (hlt : layer < 2 ^ 63) : parseLayerIdx path = some (layer : Int) := by
  have hdigits : leadingDigits (decimal layer ++ after) = decimal layer := by
    rw [leadingDigits, takeWhile_append_of_pos fun byte hbyte =>
      isDigitByte_of_mem_decimal hbyte]
    rw [leadingDigits] at hafter
    rw [hafter, append_nil]
  rw [parseLayerIdx_of_afterLastMarker hlast, hdigits,
    if_neg (decimal_ne_nil layer), digitsValue_decimal, if_pos hlt]

/-! The names. -/

/-- `os.path.join` of two paths. -/
def osPathJoin (path name : Bytes) : Bytes :=
  if name.head? = some (charByte '/') then name
  else if path = [] ∨ path.getLast? = some (charByte '/') then path ++ name
  else path ++ [charByte '/'] ++ name

theorem osPathJoin_eq (path name : Bytes) : ∃ before, osPathJoin path name = before ++ name := by
  rw [osPathJoin]
  split
  · exact ⟨[], rfl⟩
  split
  · exact ⟨path, rfl⟩
  · exact ⟨path ++ [charByte '/'], rfl⟩

def storeKvcacheDir : Bytes := ascii "vllm/kvcache/"

/-- `get_kvcache_filename`, with the compress type already in capitals. -/
def getKvcacheFilename (hash : Bytes) (layerIdx : Int) (device compressType : Bytes) : Bytes :=
  osPathJoin (osPathJoin storeKvcacheDir compressType)
    (hash ++ ascii "-layer_" ++ decimalInt layerIdx ++ ascii "-device_" ++ device ++ ascii ".bin")

theorem letter_not_mem_decimal (layer : Nat) : charByte 'l' ∉ decimal layer := by
  intro hmem
  exact absurd (isDigitByte_of_mem_decimal hmem) (by decide)

theorem parseLayerIdx_getKvcacheFilename (hash device compressType : Bytes)
    {layer : Nat} (hlt : layer < 2 ^ 63) (hdevice : ¬ layerMarker <:+: device) :
    parseLayerIdx (getKvcacheFilename hash layer device compressType) = some (layer : Int) := by
  obtain ⟨before, heq⟩ := osPathJoin_eq (osPathJoin storeKvcacheDir compressType)
    (hash ++ ascii "-layer_" ++ decimalInt layer ++ ascii "-device_" ++ device ++ ascii ".bin")
  have hmark : ascii "-layer_" = ascii "-" ++ layerMarker := by decide
  have hbin : ascii ".bin" = charByte '.' :: ascii "bin" := rfl
  have hlast : AfterLastMarker (getKvcacheFilename hash layer device compressType)
      (decimal layer ++ (ascii "-device_" ++ (device ++ ascii ".bin"))) := by
    refine ⟨before ++ hash ++ ascii "-", ?_, ?_⟩
    · rw [getKvcacheFilename, heq, hmark]
      simp only [append_assoc]
      rfl
    · -- the marker would have to start in the device and end before its dot
      intro hagain
      have hfirst : charByte 'l' ∉ ascii "ayer_" ++ (decimal layer ++ ascii "-device_") := by
        simp only [mem_append, not_or]
        exact ⟨by decide, letter_not_mem_decimal layer, by decide⟩
      rw [layerMarker_eq] at hagain hdevice
      simp only [← append_assoc] at hagain hfirst
      rw [append_assoc _ device, hbin] at hagain
      rcases infix_or_of_append_cons (by decide) (infix_of_append hfirst hagain) with hin | hin
      · exact hdevice hin
      · exact absurd hin (by decide)
  exact parseLayerIdx_numeral hlast rfl hlt

theorem parseLayerIdx_sharedKeySvPath (uuid : Uuid) (base : Bytes)
    {layer : Nat} (hlt : layer < 2 ^ 63) :
    parseLayerIdx (sharedKeySvPath uuid layer base) = some (layer : Int) := by
  have hpath : sharedKeySvPath uuid layer base =
      (directoryOf base ++ CatKV.uuidTensorToPathId uuid ++ ascii "_") ++
        layerMarker ++ (decimal layer ++ keySvSuffix) := by
    have hmark : ascii "_layer_" = ascii "_" ++ layerMarker := by decide
    rw [sharedKeySvPath, hmark]
    simp only [append_assoc]
    rfl
  rw [hpath]
  exact parseLayerIdx_append _ _ layer hlt (by decide) (by decide)

/-- The parser returns what it is to return exactly on the paths whose last
layer number is an int64, and it reads the layer back from both kinds of
names. -/
theorem parseLayerIdx_inverse_iff (path : Bytes) :
    ((∃ value, parseLayerIdx path = some value ∧ Reads path value) ↔ LayerFits path) ∧
    (∀ (uuid : Uuid) (base : Bytes) (layer : Nat), layer < 2 ^ 63 →
      parseLayerIdx (sharedKeySvPath uuid layer base) = some (layer : Int)) ∧
    (∀ (hash device compressType : Bytes) (layer : Nat), layer < 2 ^ 63 →
      ¬ layerMarker <:+: device →
      parseLayerIdx (getKvcacheFilename hash layer device compressType) = some (layer : Int)) :=
  ⟨parseLayerIdx_reads_iff path,
    fun uuid base _ hlt => parseLayerIdx_sharedKeySvPath uuid base hlt,
    fun hash device compressType _ hlt hdevice =>
      parseLayerIdx_getKvcacheFilename hash device compressType hlt hdevice⟩

theorem parseLayerIdx_inverse_iff_cuda :
    parseLayerIdx (sharedKeySvPath [-1, 22] (3 : Nat) (ascii "layer_7/a")) =
      some ((3 : Nat) : Int) ∧
    parseLayerIdx (getKvcacheFilename (ascii "layer_7") (3 : Nat)
      (ascii "cuda:0") (ascii "OURS")) = some ((3 : Nat) : Int) :=
  ⟨(parseLayerIdx_inverse_iff []).2.1 _ _ 3 (by decide),
    (parseLayerIdx_inverse_iff []).2.2 _ _ _ 3 (by decide) (by decide)⟩

/-- `std::stoll` throws on the first number beyond int64. -/
theorem not_parseLayerIdx_reads_large :
    ¬ ∃ value, parseLayerIdx (ascii "layer_9223372036854775808") =
      some value ∧ Reads (ascii "layer_9223372036854775808") value := by
  have hthrows : parseLayerIdx (ascii "layer_9223372036854775808") = none := by
    decide +kernel
  rintro ⟨value, hvalue, -⟩
  exact Option.some_ne_none value (hvalue.symm.trans hthrows)

end LayerParsing
end CatKV
