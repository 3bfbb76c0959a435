/-
Messages on the wire are read back as they were.  For a client message this
needs a key of the plain class whose text fits its field in bytes and loses
nothing when it is stripped.
-/
import CatKV.KeyCodec
import CatKV.KeyIdentity
import CatKV.WireMessages

namespace CatKV

open CacheEngineKey List Option

/-! Integers. -/

variable {bytes : Bytes}

theorem length_of_packInt {value : Int} (hpack : packInt value = some bytes) :
    bytes.length = 4 := by
  unfold packInt at hpack
  split at hpack
  · cases hpack
    exact leBytes_length ..
  · cases hpack

theorem unpackInt_of_packInt {value : Int} (hpack : packInt value = some bytes) :
    unpackInt bytes = value := by
  unfold packInt at hpack
  split at hpack
  · next hrange =>
    cases hpack
    have hlt : (value % 2 ^ 32).toNat < 256 ^ 4 := by omega
    rw [unpackInt, leValue_leBytes_of_lt hlt]
    split
    · omega
    · omega
  · cases hpack

theorem packInts_cons {value : Int} {rest : List Int}
    (hpack : packInts (value :: rest) = some bytes) :
    ∃ first more, packInt value = some first ∧ packInts rest = some more ∧
      bytes = first ++ more := by
  unfold packInts at hpack
  rw [mapM_cons] at hpack
  obtain ⟨fields, hfields, rfl⟩ := map_eq_some_iff.mp hpack
  obtain ⟨first, hfirst, hrest⟩ := bind_eq_some_iff.mp hfields
  obtain ⟨more, hmore, hlast⟩ := bind_eq_some_iff.mp hrest
  cases hlast
  refine ⟨first, more.flatten, hfirst, ?_, rfl⟩
  rw [packInts, hmore]
  rfl

theorem unpackInts_of_packInts {values : List Int}
    (hpack : packInts values = some bytes) (rest : Bytes) :
    bytes.length = 4 * values.length ∧ unpackInts values.length (bytes ++ rest) = values := by
  induction values generalizing bytes with
  | nil =>
    cases hpack
    exact ⟨rfl, rfl⟩
  | cons value more ih =>
    obtain ⟨first, tail, hfirst, htail, rfl⟩ := packInts_cons hpack
    obtain ⟨hlength, hvalues⟩ := ih htail
    have hfour := length_of_packInt hfirst
    constructor
    · rw [length_append, hfour, hlength, length_cons]
      omega
    · rw [length_cons, unpackInts, append_assoc, take_left' hfour, drop_left' hfour,
        unpackInt_of_packInt hfirst, hvalues]

/-! Numbers for names. -/

@[simp]
theorem MemoryFormat.ofValue_value (fmt : MemoryFormat) :
    MemoryFormat.ofValue fmt.value = some fmt := by
  cases fmt <;> rfl

@[simp]
theorem ClientCommand.ofValue_value (command : ClientCommand) :
    ClientCommand.ofValue command.value = some command := by
  cases command <;> rfl

@[simp]
theorem ServerReturnCode.ofValue_value (code : ServerReturnCode) :
    ServerReturnCode.ofValue code.value = some code := by
  cases code <;> rfl

theorem intToDtype_of_dtypeToInt {dtype : Option TorchDtype} {number : Int}
    (hnumber : dtypeToInt dtype = some number) : intToDtype number = some dtype := by
  cases dtype with
  | none =>
    cases hnumber
    rfl
  | some dtype =>
    cases dtype <;> cases hnumber <;> rfl

theorem intToLocation_of_locationToInt {location : Option Text} {number : Int}
    (hnumber : locationToInt location = some number) : intToLocation number = some location := by
  cases location with
  | none =>
    cases hnumber
    rfl
  | some location =>
    rw [locationToInt] at hnumber
    split at hnumber
    · next hcpu =>
      cases hnumber
      rw [hcpu]
      rfl
    · split at hnumber
      · next hdisk =>
        cases hnumber
        rw [hdisk]
        rfl
      · cases hnumber

theorem eq_four_of_length {shape : List Int} (hlength : ¬ shape.length ≠ 4) :
    ∃ shape0 shape1 shape2 shape3, shape = [shape0, shape1, shape2, shape3] :=
  length_eq_four.mp (not_not.mp hlength)

/-! Metadata and replies. -/

theorem RemoteMetadata.deserialize_serialize {metadata : RemoteMetadata}
    (hserialize : metadata.serialize = some bytes) (rest : Bytes) :
    bytes.length = 28 ∧ deserialize (bytes ++ rest) = some metadata := by
  unfold serialize at hserialize
  split at hserialize
  · cases hserialize
  · next hshape =>
    obtain ⟨shape0, shape1, shape2, shape3, hfour⟩ := eq_four_of_length hshape
    obtain ⟨dtype, hdtype, hpack⟩ := bind_eq_some_iff.mp hserialize
    rw [hfour] at hpack
    obtain ⟨hlength, hunpack⟩ := unpackInts_of_packInts hpack rest
    have htwenty : bytes.length = 28 := hlength
    have hvalues : unpackInts 7 (bytes ++ rest) = [metadata.length,
      metadata.fmt.value, dtype, shape0, shape1, shape2, shape3] := hunpack
    refine ⟨htwenty, ?_⟩
    rw [deserialize, if_neg (by rw [length_append]; omega), hvalues]
    dsimp only
    rw [intToDtype_of_dtypeToInt hdtype, MemoryFormat.ofValue_value, ← hfour]
    rfl

theorem ServerMetaMessage.deserialize_serialize {message : ServerMetaMessage}
    (hserialize : message.serialize = some bytes) :
    bytes.length = packlength ∧ deserialize bytes = some message := by
  unfold serialize at hserialize
  split at hserialize
  · cases hserialize
  · next hshape =>
    obtain ⟨shape0, shape1, shape2, shape3, hfour⟩ := eq_four_of_length hshape
    obtain ⟨dtype, hdtype, hrest⟩ := bind_eq_some_iff.mp hserialize
    obtain ⟨location, hlocation, hpack⟩ := bind_eq_some_iff.mp hrest
    rw [hfour] at hpack
    obtain ⟨hlength, hunpack⟩ := unpackInts_of_packInts hpack []
    have hpacked : bytes.length = packlength := hlength
    have hvalues : unpackInts 9 bytes = [message.code.value, message.length,
        message.fmt.value, dtype, shape0, shape1, shape2, shape3,
        location] := by
      rw [append_nil] at hunpack
      exact hunpack
    refine ⟨hpacked, ?_⟩
    rw [deserialize, if_neg (not_not.mpr hpacked), hvalues]
    dsimp only
    rw [ServerReturnCode.ofValue_value, MemoryFormat.ofValue_value, intToDtype_of_dtypeToInt hdtype,
      intToLocation_of_locationToInt hlocation, ← hfour]
    rfl

/-! Texts that have been cut. -/

theorem length_splitOn (separator : Char) (text : Text) :
    (text.splitOn separator).length = text.count separator + 1 := by
  induction text with
  | nil => rfl
  | cons letter rest ih =>
    rw [splitOn_cons_eq_if_modifyHead, count_cons]
    split
    · rw [length_cons, ih]
    · rw [length_modifyHead, ih, Nat.add_zero]

theorem intercalate_concat_append (separator : Char) (init : List Text) (last rest : Text) :
    [separator].intercalate (init ++ [last]) ++ rest =
      [separator].intercalate (init ++ [last ++ rest]) := by
  induction init with
  | nil => simp
  | cons head tail ih =>
    rw [cons_append, cons_append, intercalate_cons_of_ne_nil (by simp),
      intercalate_cons_of_ne_nil (by simp), append_assoc, ih]

theorem splitOn_append {separator : Char} {text rest last : Text} {init : List Text}
    (hsplit : text.splitOn separator = init ++ [last]) (hrest : separator ∉ rest) :
    (text ++ rest).splitOn separator = init ++ [last ++ rest] := by
  have hparts : ∀ part ∈ init ++ [last], separator ∉ part := by
    rw [← hsplit]
    exact fun part hpart => not_mem_of_mem_splitOn hpart
  have htext : [separator].intercalate (text.splitOn separator) = text :=
    intercalate_splitOn separator
  rw [← htext, hsplit, intercalate_concat_append]
  apply splitOn_intercalate
  · intro part hpart
    rcases mem_append.mp hpart with hinit | hlast
    · exact hparts part (mem_append_left _ hinit)
    · rw [mem_singleton.mp hlast, mem_append, not_or]
      exact ⟨hparts last (mem_append_right _ mem_cons_self), hrest⟩
  · simp

theorem splitOn_prepend {separator : Char} {text first head : Text} {tail : List Text}
    (hsplit : text.splitOn separator = head :: tail) (hfirst : separator ∉ first) :
    (first ++ text).splitOn separator = (first ++ head) :: tail := by
  induction first with
  | nil => exact hsplit
  | cons letter rest ih =>
    have hrest := ih fun hmem => hfirst (mem_cons_of_mem _ hmem)
    have hne : (letter == separator) = false := by
      rw [beq_eq_false_iff_ne]
      rintro rfl
      exact hfirst mem_cons_self
    rw [cons_append, splitOn_cons_eq_if_modifyHead, hne, hrest]
    rfl

section Cut

variable {ω : Type} {methods : ValueMethods ω}

theorem length_entries_foldlM {parts : List Text} {configs final : RequestConfigs ω}
    (hfold : parts.foldlM (fun configs part =>
      (splitOnce '%' part).map fun pair =>
        configs.set (tagMark ++ pair.1) (.text pair.2)) configs =
      some final) : final.entries.length ≤ configs.entries.length + parts.length := by
  induction parts generalizing configs with
  | nil =>
    cases hfold
    exact Nat.le_refl _
  | cons part rest ih =>
    rw [foldlM_cons] at hfold
    obtain ⟨next, hnext, hrest⟩ := bind_eq_some_iff.mp hfold
    obtain ⟨pair, -, rfl⟩ := map_eq_some_iff.mp hnext
    have hbound := ih hrest
    have hone : (configs.set (tagMark ++ pair.1)
        (.text pair.2)).entries.length ≤ configs.entries.length + 1 := by
      unfold OrderedDict.set
      split
      · rw [length_map]
        exact Nat.le_succ _
      · rw [length_append]
        exact Nat.le_refl _
    rw [length_cons]
    omega

theorem tags_of_configsFrom {parts : List Text} {configs : Option (RequestConfigs ω)}
    (hconfigs : configsFrom tagMark parts = some configs) :
    ((configs.map tagList).getD []).length ≤ parts.length ∧
      ∀ init last, parts = init ++ [last] → ∃ name value, splitOnce '%' last = some (name, value) ∧
          (name, .text value) ∈ (configs.map tagList).getD [] := by
  unfold configsFrom at hconfigs
  split at hconfigs
  · cases hconfigs
    refine ⟨Nat.le_refl _, ?_⟩
    intro init last hparts
    simp at hparts
  · obtain ⟨final, hfold, rfl⟩ := map_eq_some_iff.mp hconfigs
    constructor
    · have hlength := length_entries_foldlM hfold
      have hempty : (OrderedDict.empty : RequestConfigs ω).entries.length = 0 := rfl
      have htags : (tagList final).length ≤ final.entries.length := length_filterMap_le _ _
      rw [map_some, getD_some]
      omega
    · rintro init last rfl
      rw [foldlM_append] at hfold
      obtain ⟨middle, -, hlast⟩ := bind_eq_some_iff.mp hfold
      rw [foldlM_cons] at hlast
      obtain ⟨next, hnext, hdone⟩ := bind_eq_some_iff.mp hlast
      obtain ⟨⟨name, value⟩, hsplit, rfl⟩ := map_eq_some_iff.mp hnext
      cases hdone
      refine ⟨name, value, hsplit, ?_⟩
      apply mem_filterMap.mpr
      refine ⟨(tagMark ++ name, .text value), ?_, tagOf_mark name _⟩
      exact OrderedDict.mem_set.mpr (Or.inl rfl)

theorem rest_eq_nil_of_tags {tags : List (Tag ω)} (hplain : ∀ tag ∈ tags, PlainTag tag)
    (hnodup : (tags.map Prod.fst).Nodup) {init : List Text} {last rest name value : Text}
    (htexts : tags.map methods.tagText = init ++ [last ++ rest])
    (hsplit : splitOnce '%' last = some (name, value)) (hmem : (name, .text value) ∈ tags) :
    rest = [] := by
  have htext : last ++ rest ∈ tags.map methods.tagText := by
    rw [htexts]
    exact mem_append_right _ mem_cons_self
  obtain ⟨tag, htag, htagText⟩ := mem_map.mp htext
  obtain ⟨-, hpercent, -⟩ := hplain tag htag
  obtain ⟨hlast, hname⟩ := splitOnce_eq_some hsplit
  have hwhole : splitOnce '%' (last ++ rest) = some (name, value ++ rest) := by
    rw [hlast, append_assoc, cons_append]
    exact splitOnce_append hname _
  rw [← htagText, ValueMethods.splitOnce_tagText hpercent] at hwhole
  obtain ⟨hfirst, hsecond⟩ := Prod.mk.inj (Option.some.inj hwhole)
  have hsame := inj_on_of_nodup_map hnodup htag hmem hfirst
  rw [hsame] at hsecond
  have hvalue : value = value ++ rest := hsecond
  exact self_eq_append_right.mp hvalue

variable {key back : CacheEngineKey ω}

theorem eq_nil_of_fromText {text rest : Text} (hat : (AnyKey.chunk key).NoAt)
    (hplain : (AnyKey.chunk key).Plain) (htext : key.toText methods = text ++ rest)
    (hback : fromText text = some back) (heq : back.isEq methods key = true) : rest = [] := by
  obtain ⟨-, -, -, -, hhash, htags⟩ := isEq_iff.mp heq
  have hbackPlain : ∀ tag ∈ back.allTags, PlainTag tag := by
    have hread := @AnyKey.plain_of_fromText _ (.chunk key) text (.chunk back)
      (congrArg (Option.map AnyKey.chunk) hback)
    exact hread.2
  have hsameTags : key.allTags = back.allTags := ValueMethods.eq_of_sameTags hbackPlain htags
  have hparts : (text ++ rest).splitOn '@' = (AnyKey.chunk key).parts methods := by
    rw [← htext]
    exact AnyKey.splitOn_toText hat hplain
  have hcount : (text ++ rest).count '@' = 4 + key.allTags.length := by
    have hlength := length_splitOn '@' (text ++ rest)
    rw [hparts] at hlength
    simp only [AnyKey.parts, headParts, AnyKey.layerParts, AnyKey.layerId, length_append,
      length_cons, length_nil, length_map, map_none, toList_none, AnyKey.base] at hlength
    omega
  unfold fromText at hback
  split at hback
  · next fmt modelName worldSize workerId chunkHash tags hsplit =>
    unfold fromParts at hback
    obtain ⟨configs, hconfigs, hback⟩ := bind_eq_some_iff.mp hback
    obtain ⟨world, -, hback⟩ := bind_eq_some_iff.mp hback
    obtain ⟨worker, -, hback⟩ := bind_eq_some_iff.mp hback
    obtain ⟨hash, hparse, hback⟩ := bind_eq_some_iff.mp hback
    cases hback
    obtain ⟨hle, hlast⟩ := tags_of_configsFrom hconfigs
    have hread : (configs.map tagList).getD [] = key.allTags := hsameTags.symm
    rw [hread] at hle hlast
    have hseparators : '@' ∉ rest := by
      have hlength := length_splitOn '@' text
      rw [hsplit] at hlength
      simp only [length_cons] at hlength
      rw [count_append] at hcount
      apply count_eq_zero.mp
      omega
    cases tags using List.reverseRecOn with
    | nil =>
      have hnone : key.allTags = [] := eq_nil_of_length_eq_zero (Nat.le_zero.mp hle)
      have hcut := @splitOn_append '@' text rest chunkHash
        [fmt, modelName, worldSize, workerId] hsplit hseparators
      rw [hparts] at hcut
      simp only [AnyKey.parts, headParts, AnyKey.base, AnyKey.layerParts, AnyKey.layerId, hnone,
        map_nil, map_none, toList_none, append_nil, cons_append, nil_append, List.cons.injEq,
        and_true] at hcut
      obtain ⟨-, -, -, -, hnumeral⟩ := hcut
      have hparse' : parseInt 16 chunkHash = some key.chunkHash := hhash ▸ hparse
      have hwhole := eq_intText_of_prefix (by decide) (by decide) ⟨rest, hnumeral.symm⟩ hparse'
      rw [hwhole] at hnumeral
      exact self_eq_append_right.mp hnumeral
    | append_singleton init last =>
      have hcut := @splitOn_append '@' text rest last
        (fmt :: modelName :: worldSize :: workerId :: chunkHash :: init)
        hsplit hseparators
      rw [hparts] at hcut
      simp only [AnyKey.parts, headParts, AnyKey.base, AnyKey.layerParts, AnyKey.layerId, map_none,
        toList_none, cons_append, nil_append, List.cons.injEq] at hcut
      obtain ⟨-, -, -, -, -, htexts⟩ := hcut
      obtain ⟨name, value, hlastSplit, hmem⟩ := hlast init last rfl
      exact rest_eq_nil_of_tags hplain key.nodup_allTags htexts hlastSplit hmem
  · cases hback

theorem eq_nil_of_fromText_append {first text rest : Text} (hat : (AnyKey.chunk key).NoAt)
    (hplain : (AnyKey.chunk key).Plain) (hfirst : '@' ∉ first)
    (htext : key.toText methods = first ++ (text ++ rest)) (hback : fromText text = some back)
    (heq : back.isEq methods key = true) : first = [] := by
  have hparts : (first ++ (text ++ rest)).splitOn '@' = (AnyKey.chunk key).parts methods := by
    rw [← htext]
    exact AnyKey.splitOn_toText hat hplain
  have hfmt := (isEq_iff.mp heq).1
  unfold fromText at hback
  split at hback
  · next fmt modelName worldSize workerId chunkHash tags hsplit =>
    have hread : back.fmt = fmt := by
      refine (AnyKey.plain_of_fromParts ?_ hback).1
      intro part hpart
      apply @not_mem_of_mem_splitOn _ _ _ '@' text
      rw [hsplit]
      simp [hpart]
    have hhead : '@' ∉ fmt := by
      apply @not_mem_of_mem_splitOn _ _ _ '@' text
      rw [hsplit]
      exact mem_cons_self
    obtain ⟨more, hmore⟩ : ∃ more, text = fmt ++ '@' :: more := by
      have hjoin : ['@'].intercalate (text.splitOn '@') = text := intercalate_splitOn '@'
      rw [hsplit, intercalate_cons_cons, append_assoc] at hjoin
      exact ⟨_, hjoin.symm⟩
    have hwhole : (text ++ rest).splitOn '@' = fmt :: (more ++ rest).splitOn '@' := by
      rw [hmore, append_assoc, cons_append, splitOn_append_cons_self_of_not_mem hhead]
    rw [splitOn_prepend hwhole hfirst] at hparts
    have hkeyFmt : first ++ fmt = key.fmt := (List.cons.inj hparts).1
    rw [← hfmt, hread] at hkeyFmt
    exact append_left_eq_self.mp hkeyFmt
  · cases hback

theorem strip_eq_of_fromText {cut : Text} (hat : (AnyKey.chunk key).NoAt)
    (hplain : (AnyKey.chunk key).Plain) (hcut : cut <+: key.toText methods)
    (hback : fromText (strip cut) = some back)
    (heq : back.isEq methods key = true) : strip cut = key.toText methods := by
  obtain ⟨after, hafter⟩ := hcut
  obtain ⟨right, hright⟩ : strip cut <+: lstrip cut := rdropWhile_prefix _ _
  have hleft : cut.takeWhile isSpace ++ lstrip cut = cut := takeWhile_append_dropWhile
  have htext : key.toText methods = cut.takeWhile isSpace ++ (strip cut ++ (right ++ after)) := by
    rw [← hafter, ← append_assoc (strip cut), hright, ← append_assoc, hleft]
  have hspaces : '@' ∉ cut.takeWhile isSpace := by
    intro hmem
    have hspace := mem_takeWhile_imp hmem
    revert hspace
    decide
  have hnil := eq_nil_of_fromText_append hat hplain hspaces htext hback heq
  rw [hnil, nil_append] at htext
  have hrest := eq_nil_of_fromText hat hplain htext hback heq
  rw [htext, hrest, append_nil]

end Cut

/-! The field of the key. -/

theorem encodeText_replicate (count : Nat) :
    encodeText (List.replicate count ' ') = List.replicate count 32 := by
  induction count with
  | zero => rfl
  | succ count ih =>
    rw [replicate_succ, replicate_succ, ← ih]
    rfl

theorem length_keyField (keyText : Text) : (keyField keyText).length = maxKeyLength := by
  simp only [keyField, length_take, length_append, length_replicate]
  omega

theorem keyField_of_le {keyText : Text} (hle : (encodeText keyText).length ≤ maxKeyLength) :
    keyField keyText = encodeText (keyText ++ List.replicate
      (maxKeyLength - (encodeText keyText).length) ' ') := by
  rw [keyField, encodeText_append, encodeText_replicate]
  apply take_of_length_le
  rw [length_append, length_replicate]
  omega

theorem keyField_of_lt {keyText : Text} (hlt : maxKeyLength < (encodeText keyText).length) :
    keyField keyText = (encodeText keyText).take maxKeyLength := by
  rw [keyField, Nat.sub_eq_zero_of_le (Nat.le_of_lt hlt), replicate_zero, append_nil]

theorem length_strip_le (text : Text) : (strip text).length ≤ text.length := by
  have hright : (strip text).length ≤ (lstrip text).length := ( rdropWhile_prefix _ _).length_le
  have hleft : (lstrip text).length ≤ text.length := (dropWhile_suffix _).length_le
  omega

theorem rstrip_append_replicate (text : Text) (count : Nat) :
    rstrip (text ++ List.replicate count ' ') = rstrip text := by
  induction count with
  | zero => rw [replicate_zero, append_nil]
  | succ count ih =>
    have hspace : isSpace ' ' = true := by decide
    rw [replicate_succ', ← append_assoc, rstrip, rdropWhile_concat_pos _ _ _ hspace]
    exact ih

theorem strip_append_replicate (text : Text) (count : Nat) :
    strip (text ++ List.replicate count ' ') = strip text := by
  rw [strip, strip, lstrip, dropWhile_append]
  split
  · next hempty =>
    have hspaces : (List.replicate count ' ').dropWhile isSpace = [] := by
      rw [dropWhile_eq_nil_iff]
      intro letter hletter
      rw [eq_of_mem_replicate hletter]
      decide
    rw [hspaces, lstrip, isEmpty_iff.mp hempty]
  · exact rstrip_append_replicate _ _

section Client

variable {ω : Type} {methods : ValueMethods ω} {message : ClientMetaMessage ω}

/-- The key as it comes out of its field. -/
def readKey (field : Bytes) : Option (CacheEngineKey ω) :=
  (decodeText field).bind fun keyText =>
    CacheEngineKey.fromText (strip keyText)

/-- A key of the plain class whose text fits the field in bytes, has no blanks
at its ends and can be read back. -/
structure AnyKey.FitsWire (methods : ValueMethods ω) (key : AnyKey ω) : Prop where
  chunk : key.layerId = none
  noAt : key.NoAt
  plain : key.Plain
  bytes : (encodeText (key.toText methods)).length ≤ maxKeyLength
  stripped : strip (key.toText methods) = key.toText methods

theorem readKey_of_fitsWire {key : CacheEngineKey ω} (hfits : (AnyKey.chunk key).FitsWire methods) :
    ∃ back, readKey (keyField (key.toText methods)) = some back ∧ back.isEq methods key = true := by
  obtain ⟨back, hback, heq⟩ := @AnyKey.fromText_toText _ methods (.chunk key) hfits.noAt hfits.plain
  obtain ⟨chunk, hchunk, rfl⟩ := map_eq_some_iff.mp hback
  refine ⟨chunk, ?_, heq⟩
  have hbytes : (encodeText (key.toText methods)).length ≤ maxKeyLength := hfits.bytes
  have hstripped : strip (key.toText methods) = key.toText methods := hfits.stripped
  rw [readKey, keyField_of_le hbytes, decodeText_encodeText,
    bind_some, strip_append_replicate, hstripped]
  exact hchunk

theorem fitsWire_of_readKey {key back : CacheEngineKey ω}
    (hread : readKey (keyField (key.toText methods)) = some back)
    (heq : back.isEq methods key = true) : (AnyKey.chunk key).FitsWire methods := by
  obtain ⟨keyText, hdecode, hback⟩ := bind_eq_some_iff.mp hread
  have hreadPlain := @AnyKey.plain_of_fromText _ (.chunk key) (strip keyText)
    (.chunk back) (congrArg (Option.map AnyKey.chunk) hback)
  have hat : (AnyKey.chunk key).NoAt := by
    obtain ⟨hfmt, hmodel, -⟩ := isEq_iff.mp heq
    exact ⟨hfmt ▸ hreadPlain.1.1, hmodel ▸ hreadPlain.1.2⟩
  have hplain : (AnyKey.chunk key).Plain :=
    @AnyKey.plain_of_isEq _ methods (.chunk back) (.chunk key) hreadPlain.2 heq
  have hfield := eq_encodeText_of_decodeText hdecode
  by_cases hle : (encodeText (key.toText methods)).length ≤ maxKeyLength
  · rw [keyField_of_le hle] at hdecode
    rw [decodeText_encodeText] at hdecode
    cases hdecode
    rw [strip_append_replicate] at hback
    exact ⟨rfl, hat, hplain, hle, strip_eq_of_fromText hat hplain (prefix_refl _) hback heq⟩
  · have hlt := Nat.lt_of_not_le hle
    rw [keyField_of_lt hlt] at hfield
    have hcut : keyText <+: key.toText methods := by
      apply prefix_of_encodeText_append
      rw [← hfield]
      exact take_append_drop _ _
    have hwhole := strip_eq_of_fromText hat hplain hcut hback heq
    have hsame : keyText = key.toText methods := by
      apply hcut.eq_of_length_le
      rw [← hwhole]
      exact length_strip_le keyText
    rw [hsame] at hfield
    have hlengths := congrArg List.length hfield
    rw [length_take] at hlengths
    omega

theorem ClientMetaMessage.isEq_iff {message other : ClientMetaMessage ω} :
    message.isEq methods other = true ↔ message.command = other.command ∧
      message.key.isEq methods other.key = true ∧
      message.length = other.length ∧ message.fmt = other.fmt ∧
      message.dtype = other.dtype ∧ message.shape = other.shape ∧
      message.location = other.location := by
  rw [isEq]
  simp only [Bool.and_eq_true, decide_eq_true_eq, and_assoc]

theorem ClientMetaMessage.deserialize_serialize {bytes : Bytes}
    (hserialize : message.serialize methods = some bytes) :
    bytes.length = packlength ∧ deserialize bytes =
      (readKey (keyField (message.key.toText methods))).map
        fun key : CacheEngineKey ω => { message with key := .chunk key } := by
  unfold serialize at hserialize
  split at hserialize
  · cases hserialize
  · split at hserialize
    · cases hserialize
    · next hshape =>
      obtain ⟨shape0, shape1, shape2, shape3, hfour⟩ := eq_four_of_length hshape
      obtain ⟨dtype, hdtype, hserialize⟩ := bind_eq_some_iff.mp hserialize
      obtain ⟨location, hlocation, hserialize⟩ := bind_eq_some_iff.mp hserialize
      obtain ⟨fields, hpack, hserialize⟩ := bind_eq_some_iff.mp hserialize
      cases hserialize
      rw [hfour] at hpack
      obtain ⟨hlength, hunpack⟩ := unpackInts_of_packInts hpack
        (keyField (message.key.toText methods))
      have hfields : fields.length = 4 * 9 := hlength
      have hvalues : unpackInts 9 (fields ++ keyField (message.key.toText methods)) =
            [message.command.value, message.length, message.fmt.value, dtype,
              location, shape0, shape1, shape2, shape3] := hunpack
      have hpacked : (fields ++ keyField (message.key.toText methods)).length = packlength := by
        rw [length_append, hfields, length_keyField]
        rfl
      refine ⟨hpacked, ?_⟩
      rw [deserialize, if_neg (not_not.mpr hpacked), hvalues]
      dsimp only
      rw [ClientCommand.ofValue_value, MemoryFormat.ofValue_value, intToDtype_of_dtypeToInt hdtype,
        intToLocation_of_locationToInt hlocation, drop_left' hfields, readKey]
      cases decodeText (keyField (message.key.toText methods)) with
      | none => rfl
      | some keyText =>
        rw [bind_some, ← hfour]
        change (fromText (strip keyText)).bind _ = _
        cases fromText (strip keyText) with
        | none => rfl
        | some key => rfl

theorem ClientMetaMessage.readBack_iff {bytes : Bytes}
    (hserialize : message.serialize methods = some bytes) :
    (∃ back : ClientMetaMessage ω, deserialize bytes = some back ∧
      back.isEq methods message = true) ↔ message.key.FitsWire methods := by
  rw [(deserialize_serialize hserialize).2]
  constructor
  · rintro ⟨back, hback, heq⟩
    obtain ⟨key, hread, rfl⟩ := map_eq_some_iff.mp hback
    have hkey := (isEq_iff.mp heq).2.1
    cases hclass : message.key with
    | chunk original =>
      rw [hclass] at hread hkey
      exact fitsWire_of_readKey hread hkey
    | layer original =>
      rw [hclass] at hkey
      cases hkey
  · intro hfits
    cases hclass : message.key with
    | chunk original =>
      rw [hclass] at hfits
      obtain ⟨key, hread, heq⟩ := readKey_of_fitsWire hfits
      refine ⟨_, congrArg (Option.map _) hread, ?_⟩
      rw [isEq_iff, hclass]
      exact ⟨rfl, heq, rfl, rfl, rfl, rfl, rfl⟩
    | layer original =>
      rw [hclass] at hfits
      cases hfits.chunk

end Client

/-- Metadata and replies are read back as they were, and a client message is
exactly when its key fits the wire. -/
theorem wireRoundTrip_iff {ω : Type} (methods : ValueMethods ω) :
    (∀ (message : ClientMetaMessage ω) (bytes : Bytes), message.serialize methods = some bytes →
        ((bytes.length = ClientMetaMessage.packlength ∧ ∃ back : ClientMetaMessage ω,
            ClientMetaMessage.deserialize bytes = some back ∧ back.isEq methods message = true) ↔
        message.key.FitsWire methods)) ∧
    (∀ (message : ServerMetaMessage) (bytes : Bytes), message.serialize = some bytes →
        bytes.length = ServerMetaMessage.packlength ∧
          ServerMetaMessage.deserialize bytes = some message) ∧
    (∀ (metadata : RemoteMetadata) (bytes rest : Bytes),
      metadata.serialize = some bytes → bytes.length = 28 ∧
        RemoteMetadata.deserialize (bytes ++ rest) = some metadata) := by
  refine ⟨?_, ?_, ?_⟩
  · intro message bytes hserialize
    rw [← ClientMetaMessage.readBack_iff hserialize]
    exact and_iff_right (ClientMetaMessage.deserialize_serialize hserialize).1
  · intro message bytes hserialize
    exact ServerMetaMessage.deserialize_serialize hserialize
  · intro metadata bytes rest hserialize
    exact RemoteMetadata.deserialize_serialize hserialize rest

/-- A request for the given key. -/
def getMessage (key : AnyKey Int) : ClientMetaMessage Int where
  command := .get
  key := key
  length := 0
  fmt := .kv2LTD
  dtype := some .bfloat16
  shape := [0, 0, 0, 0]
  location := some "LocalCPUBackend".toList

theorem fitsWire_userConfigs : (AnyKey.chunk (keyWith userConfigs)).FitsWire integerMethods where
  chunk := rfl
  noAt := ⟨by decide, by decide⟩
  plain := plain_userConfigs
  bytes := by decide
  stripped := by decide

theorem wireRoundTrip_getMessage : ∃ bytes, (getMessage (.chunk (keyWith userConfigs))).serialize
      integerMethods = some bytes ∧
    bytes.length = ClientMetaMessage.packlength ∧
    ∃ back : ClientMetaMessage Int, ClientMetaMessage.deserialize bytes = some back ∧ back.isEq
        integerMethods (getMessage (.chunk (keyWith userConfigs))) = true :=
  ⟨_, rfl, ((wireRoundTrip_iff integerMethods).1 _ _ rfl).mpr fitsWire_userConfigs⟩

/-- The key of a layer is not read back. -/
theorem not_readBack_layerKey : ∃ bytes, (getMessage (.layer
      { keyWith userConfigs with layerId := 0 })).serialize integerMethods = some bytes ∧
    ¬ ∃ back : ClientMetaMessage Int, ClientMetaMessage.deserialize bytes = some back ∧
        back.isEq integerMethods (getMessage (.layer
          { keyWith userConfigs with layerId := 0 })) = true := by
  refine ⟨_, rfl, ?_⟩
  rw [ClientMetaMessage.readBack_iff rfl]
  intro hfits
  cases hfits.chunk

end CatKV
