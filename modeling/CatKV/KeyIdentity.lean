/-
What a text, a dictionary, a hash or a file name says about its key.  Over a
set of keys all of them identify the key exactly when the tags are plain, keys
with equal configurations list their tags in one order, and no two keys differ
only in having a slash where the other has a dash.
-/
import CatKV.KeyCodec

namespace CatKV

open List

variable {ω : Type}

namespace AnyKey

variable {methods : ValueMethods ω} {key other : AnyKey ω}

theorem plain_of_fromParts {fmt modelName worldSize workerId chunkHash : Text} {tags : List Text}
    {back : CacheEngineKey ω} (htags : ∀ part ∈ tags, '@' ∉ part)
    (hback : CacheEngineKey.fromParts fmt modelName worldSize workerId chunkHash tags = some back) :
    back.fmt = fmt ∧ back.modelName = modelName ∧ ∀ tag ∈ back.allTags, PlainTag tag := by
  unfold CacheEngineKey.fromParts at hback
  obtain ⟨configs, hconfigs, hrest⟩ := Option.bind_eq_some_iff.mp hback
  obtain ⟨first, -, hrest⟩ := Option.bind_eq_some_iff.mp hrest
  obtain ⟨second, -, hrest⟩ := Option.bind_eq_some_iff.mp hrest
  obtain ⟨third, -, hrest⟩ := Option.bind_eq_some_iff.mp hrest
  cases hrest
  exact ⟨rfl, rfl, CacheEngineKey.plain_of_configsFrom htags hconfigs⟩

theorem plain_of_fromText {text : Text} {back : AnyKey ω}
    (hback : key.fromText text = some back) : back.NoAt ∧ back.Plain := by
  have hparts : ∀ part ∈ text.splitOn '@', '@' ∉ part :=
    fun part hpart => not_mem_of_mem_splitOn hpart
  cases key with
  | chunk key =>
    obtain ⟨base, hbase, rfl⟩ := Option.map_eq_some_iff.mp hback
    unfold CacheEngineKey.fromText at hbase
    split at hbase
    · next fmt modelName worldSize workerId chunkHash tags hsplit =>
      rw [hsplit] at hparts
      obtain ⟨hfmt, hmodel, hplain⟩ := plain_of_fromParts
        (fun part hpart => hparts part (by simp [hpart])) hbase
      refine ⟨⟨?_, ?_⟩, hplain⟩
      · exact hfmt ▸ hparts fmt (by simp)
      · exact hmodel ▸ hparts modelName (by simp)
    · cases hbase
  | layer key =>
    obtain ⟨base, hbase, rfl⟩ := Option.map_eq_some_iff.mp hback
    unfold LayerCacheEngineKey.fromText at hbase
    split at hbase
    · next fmt modelName worldSize workerId chunkHash layer tags hsplit =>
      rw [hsplit] at hparts
      obtain ⟨chunk, hchunk, hrest⟩ := Option.bind_eq_some_iff.mp hbase
      obtain ⟨layerId, -, hlast⟩ := Option.bind_eq_some_iff.mp hrest
      cases hlast
      obtain ⟨hfmt, hmodel, hplain⟩ := plain_of_fromParts
        (fun part hpart => hparts part (by simp [hpart])) hchunk
      refine ⟨⟨?_, ?_⟩, hplain⟩
      · exact hfmt ▸ hparts fmt (by simp)
      · exact hmodel ▸ hparts modelName (by simp)
    · cases hbase

theorem isEq_iff : key.isEq methods other = true ↔ key.layerId = other.layerId ∧
    key.base.isEq methods other.base = true := by
  cases key with
  | chunk key =>
    cases other with
    | chunk other => exact (and_iff_right rfl).symm
    | layer other => simp [isEq, layerId]
  | layer key =>
    cases other with
    | chunk other => simp [isEq, layerId]
    | layer other =>
      rw [isEq, LayerCacheEngineKey.isEq, Bool.and_eq_true, and_comm,
        decide_eq_true_eq, layerId, layerId, Option.some.injEq]
      rfl

theorem plain_of_isEq (hplain : key.Plain) (heq : key.isEq methods other = true) : other.Plain := by
  have htags := (CacheEngineKey.isEq_iff.mp (isEq_iff.mp heq).2).2.2.2.2.2
  intro tag htag
  rw [ValueMethods.eq_of_sameTags hplain htags] at htag
  exact hplain tag htag

/-- Keys whose fields agree up to a change of letters. -/
structure AlikeUnder (methods : ValueMethods ω) (change : Char → Char)
    (key other : AnyKey ω) : Prop where
  fmt : key.base.fmt.map change = other.base.fmt.map change
  modelName : key.base.modelName.map change = other.base.modelName.map change
  worldSize : key.base.worldSize = other.base.worldSize
  workerId : key.base.workerId = other.base.workerId
  chunkHash : key.base.chunkHash = other.base.chunkHash
  layerId : key.layerId = other.layerId
  tags : (key.base.allTags.map fun tag =>
      (tag.1.map change, (methods.formatValue tag.2).map change)) =
    other.base.allTags.map fun tag =>
      (tag.1.map change, (methods.formatValue tag.2).map change)

variable {change : Char → Char}

theorem intText_injective {base : Nat} (hbase : 1 < base) (hle : base ≤ 16)
    (hkeeps : KeepsSeparators change) {value found : Int}
    (heq : (intText base value).map change = (intText base found).map change) : value = found := by
  rw [hkeeps.map_numeral hle (isNumeral_intText hbase value),
    hkeeps.map_numeral hle (isNumeral_intText hbase found)] at heq
  have hparse := parseInt_intText hbase hle value
  rw [heq, parseInt_intText hbase hle] at hparse
  exact (Option.some.inj hparse).symm

section

variable (hkeeps : KeepsSeparators change)

include hkeeps

theorem map_tagText (tag : Tag ω) : (methods.tagText tag).map change =
    tag.1.map change ++ '%' :: (methods.formatValue tag.2).map change := by
  rw [ValueMethods.tagText, map_append, map_cons, (hkeeps.percent_iff '%').mpr rfl]

theorem tags_of_map_tagText {tags others : List (Tag ω)} (htags : ∀ tag ∈ tags, PlainTag tag)
    (hothers : ∀ tag ∈ others, PlainTag tag)
    (heq : (tags.map methods.tagText).map (List.map change) =
      (others.map methods.tagText).map (List.map change)) :
    (tags.map fun tag =>
        (tag.1.map change, (methods.formatValue tag.2).map change)) =
      others.map fun tag =>
        (tag.1.map change, (methods.formatValue tag.2).map change) := by
  have hsplit : ∀ tags : List (Tag ω), (∀ tag ∈ tags, PlainTag tag) →
      ((tags.map methods.tagText).map (List.map change)).map (splitOnce '%') =
        (tags.map fun tag => (tag.1.map change,
          (methods.formatValue tag.2).map change)).map some := by
    intro tags hplain
    rw [map_map, map_map, map_map]
    apply map_congr_left
    intro tag htag
    rw [Function.comp_apply, Function.comp_apply, map_tagText hkeeps]
    apply splitOnce_append
    rw [hkeeps.mem_percent_iff]
    exact (hplain tag htag).2.1
  have hboth := congrArg (List.map (splitOnce '%')) heq
  rw [hsplit tags htags, hsplit others hothers] at hboth
  exact map_injective_iff.mpr (Option.some_injective _) hboth

theorem map_parts_eq (hat : key.NoAt) (hplain : key.Plain) :
    ((key.toText methods).map change).splitOn '@' = (key.parts methods).map (List.map change) := by
  rw [toText_eq, map_intercalate, (hkeeps.at_iff '@').mpr rfl]
  apply splitOn_intercalate
  · intro part hpart
    obtain ⟨source, hsource, rfl⟩ := mem_map.mp hpart
    exact hkeeps.not_mem_at (at_not_mem_parts hat hplain source hsource)
  · exact cons_ne_nil _ _

theorem layerParts_eq (heq : (key.layerParts ++ key.base.allTags.map methods.tagText).map
        (List.map change) =
      (other.layerParts ++ other.base.allTags.map methods.tagText).map (List.map change)) :
    key.layerId = other.layerId ∧ (key.base.allTags.map methods.tagText).map (List.map change) =
        (other.base.allTags.map methods.tagText).map (List.map change) := by
  have hnumeral : ∀ (layerId : Int) (tag : Tag ω),
      (intText 10 layerId).map change ≠ (methods.tagText tag).map change := by
    intro layerId tag hsame
    have hmem : '%' ∈ (methods.tagText tag).map change := by
      rw [map_tagText hkeeps]
      exact mem_append_right _ mem_cons_self
    rw [← hsame, hkeeps.mem_percent_iff] at hmem
    exact percent_not_mem_intText (by decide) (by decide) _ hmem
  unfold layerParts at heq
  cases hkey : key.layerId with
  | none =>
    cases hother : other.layerId with
    | none =>
      rw [hkey, hother] at heq
      exact ⟨rfl, heq⟩
    | some layerId =>
      rw [hkey, hother] at heq
      cases htags : key.base.allTags with
      | nil =>
        rw [htags] at heq
        cases heq
      | cons tag rest =>
        rw [htags] at heq
        exact absurd (List.cons.inj heq).1.symm (hnumeral layerId tag)
  | some layerId =>
    cases hother : other.layerId with
    | none =>
      rw [hkey, hother] at heq
      cases htags : other.base.allTags with
      | nil =>
        rw [htags] at heq
        cases heq
      | cons tag rest =>
        rw [htags] at heq
        exact absurd (List.cons.inj heq).1 (hnumeral layerId tag)
    | some found =>
      rw [hkey, hother] at heq
      obtain ⟨hlayer, htags⟩ := List.cons.inj heq
      have hsame := intText_injective (by decide) (by decide) hkeeps hlayer
      exact ⟨congrArg some hsame, htags⟩

theorem alike_of_map_toText (hat : key.NoAt) (hplain : key.Plain) (hat' : other.NoAt)
    (hplain' : other.Plain) (heq : (key.toText methods).map change =
      (other.toText methods).map change) : key.AlikeUnder methods change other := by
  have hparts := congrArg (List.splitOn '@') heq
  rw [map_parts_eq hkeeps hat hplain, map_parts_eq hkeeps hat' hplain'] at hparts
  simp only [parts, CacheEngineKey.headParts, cons_append, nil_append,
    map_cons, List.cons.injEq] at hparts
  obtain ⟨hfmt, hmodel, hworld, hworker, hhash, hrest⟩ := hparts
  obtain ⟨hlayer, htags⟩ := layerParts_eq hkeeps hrest
  constructor
  · exact hfmt
  · exact hmodel
  · exact intText_injective (by decide) (by decide) hkeeps hworld
  · exact intText_injective (by decide) (by decide) hkeeps hworker
  · exact intText_injective (by decide) (by decide) hkeeps hhash
  · exact hlayer
  · exact tags_of_map_tagText hkeeps hplain hplain' htags

theorem map_toText_of_alike (halike : key.AlikeUnder methods change other) :
    (key.toText methods).map change = (other.toText methods).map change := by
  have htexts : ∀ tags : List (Tag ω), (tags.map methods.tagText).map (List.map change) =
        (tags.map fun tag => (tag.1.map change,
          (methods.formatValue tag.2).map change)).map fun pair =>
            pair.1 ++ '%' :: pair.2 := by
    intro tags
    rw [map_map, map_map]
    apply map_congr_left
    intro tag _
    exact map_tagText hkeeps tag
  rw [toText_eq, toText_eq, map_intercalate, map_intercalate]
  apply congrArg
  simp only [parts, CacheEngineKey.headParts, map_append, map_cons, map_nil, layerParts]
  rw [halike.fmt, halike.modelName, halike.worldSize, halike.workerId,
    halike.chunkHash, halike.layerId, htexts, htexts, halike.tags]

end

theorem isEq_of_alike (hplain : key.Plain) (hplain' : other.Plain)
    (halike : key.AlikeUnder methods id other) : key.isEq methods other = true := by
  have htags : key.base.allTags = other.base.allTags := by
    have hpairs := halike.tags
    simp only [map_id_fun, id_eq] at hpairs
    revert hpairs
    unfold Plain at hplain hplain'
    generalize key.base.allTags = tags at hplain ⊢
    generalize other.base.allTags = others at hplain' ⊢
    induction tags generalizing others with
    | nil =>
      intro hpairs
      exact (map_eq_nil_iff.mp hpairs.symm).symm
    | cons tag rest ih =>
      intro hpairs
      cases others with
      | nil => cases hpairs
      | cons found more =>
        obtain ⟨hhead, htail⟩ := List.cons.inj hpairs
        obtain ⟨-, -, text, htext, -⟩ := hplain tag mem_cons_self
        obtain ⟨-, -, text', htext', -⟩ := hplain' found mem_cons_self
        obtain ⟨hname, hvalue⟩ := Prod.mk.inj hhead
        rw [htext, htext'] at hvalue
        have hsame : text = text' := hvalue
        rw [ih (fun next hnext => hplain next (mem_cons_of_mem _ hnext)) more (fun next hnext =>
            hplain' next (mem_cons_of_mem _ hnext)) htail]
        congr 1
        exact Prod.ext hname (by rw [htext, htext', hsame])
  have hfmt := halike.fmt
  have hmodel := halike.modelName
  rw [map_id, map_id] at hfmt hmodel
  rw [isEq_iff, CacheEngineKey.isEq_iff, ← htags]
  exact ⟨halike.layerId, hfmt, hmodel, halike.worldSize, halike.workerId,
    halike.chunkHash, ValueMethods.sameTags_self _⟩

end AnyKey

/-! Files. -/

/-- `replace("/", "-")`, letter by letter. -/
def dash (letter : Char) : Char := if letter = '/' then '-' else letter

theorem keepsSeparators_dash : KeepsSeparators dash where
  at_iff letter := by
    unfold dash
    split
    · next heq => simp [heq]
    · exact Iff.rfl
  percent_iff letter := by
    unfold dash
    split
    · next heq => simp [heq]
    · exact Iff.rfl
  minus := by decide
  digit := by decide

theorem slash_not_mem_map_dash (text : Text) : '/' ∉ text.map dash := by
  intro hmem
  obtain ⟨letter, -, heq⟩ := mem_map.mp hmem
  unfold dash at heq
  split at heq
  · cases heq
  · next hne => exact hne heq

theorem rtakeWhile_pathJoin {directory name : Text} (hname : '/' ∉ name) :
    (pathJoin directory name).rtakeWhile (· != '/') = name := by
  have hkept : ∀ letter ∈ name.reverse, (letter != '/') = true := by
    intro letter hletter
    rw [bne_iff_ne]
    rintro rfl
    exact hname (mem_reverse.mp hletter)
  have hslash : ∀ before : Text, (before ++ '/' :: name).rtakeWhile (· != '/') = name := by
    intro before
    rw [List.rtakeWhile, reverse_append, reverse_cons, append_assoc, takeWhile_append_of_pos hkept]
    simp
  unfold pathJoin
  split
  · next hcase =>
    rcases hcase with rfl | hlast
    · rw [nil_append, List.rtakeWhile, takeWhile_eq_self_iff.mpr hkept, reverse_reverse]
    · obtain ⟨before, rfl⟩ := getLast?_eq_some_iff.mp hlast
      rw [append_assoc]
      exact hslash before
  · exact hslash directory

section Files

variable {methods : ValueMethods ω} {key other : AnyKey ω}

theorem slash_not_mem_fileName {ending : Text} (hending : '/' ∉ ending) :
    '/' ∉ key.fileStem methods ++ ending := by
  intro hmem
  rcases mem_append.mp hmem with hstem | hlast
  · exact slash_not_mem_map_dash _ hstem
  · exact hending hlast

theorem fileStem_of_pathJoin {first second ending : Text} (hending : '/' ∉ ending)
    (heq : pathJoin first (key.fileStem methods ++ ending) =
      pathJoin second (other.fileStem methods ++ ending)) :
    key.fileStem methods = other.fileStem methods := by
  have hnames := congrArg (List.rtakeWhile (· != '/')) heq
  rw [rtakeWhile_pathJoin (slash_not_mem_fileName hending),
    rtakeWhile_pathJoin (slash_not_mem_fileName hending)] at hnames
  exact append_cancel_right hnames

theorem alike_of_fileStem (hat : key.NoAt) (hplain : key.Plain) (hat' : other.NoAt)
    (hplain' : other.Plain) (heq : key.fileStem methods = other.fileStem methods) :
    key.AlikeUnder methods dash other :=
  AnyKey.alike_of_map_toText keepsSeparators_dash hat hplain hat' hplain' heq

end Files

/-! Configurations that are equal as dictionaries. -/

/-- `==` of two dictionaries: the order does not matter. -/
def SameConfigs (methods : ValueMethods ω) (configs others : RequestConfigs ω) : Prop :=
  (∀ name, name ∈ configs.keys ↔ name ∈ others.keys) ∧
    ∀ name value found, configs.get? name = some value →
      others.get? name = some found → methods.sameValue value found = true

/-- Keys of one class that have been built from the same fields and equal
configurations. -/
structure BuiltAlike (methods : ValueMethods ω) (key other : AnyKey ω) : Prop where
  fmt : key.base.fmt = other.base.fmt
  modelName : key.base.modelName = other.base.modelName
  worldSize : key.base.worldSize = other.base.worldSize
  workerId : key.base.workerId = other.base.workerId
  chunkHash : key.base.chunkHash = other.base.chunkHash
  layerId : key.layerId = other.layerId
  configs : ∃ configs others, key.base.requestConfigs = some configs ∧
    other.base.requestConfigs = some others ∧ SameConfigs methods configs others

theorem mem_entries_of_mem_tagList {configs : RequestConfigs ω} {tag : Tag ω}
    (htag : tag ∈ tagList configs) : (tagMark ++ tag.1, tag.2) ∈ configs.entries := by
  obtain ⟨entry, hentry, htagOf⟩ := mem_filterMap.mp htag
  rw [← tagOf_eq_some htagOf]
  exact hentry

theorem sameTags_of_names {methods : ValueMethods ω} {tags others : List (Tag ω)}
    (hnames : tags.map Prod.fst = others.map Prod.fst)
    (hvalues : ∀ tag ∈ tags, ∀ found ∈ others, tag.1 = found.1 →
      methods.sameValue tag.2 found.2 = true) : methods.sameTags tags others = true := by
  induction tags generalizing others with
  | nil =>
    rw [map_eq_nil_iff.mp hnames.symm]
    rfl
  | cons tag rest ih =>
    cases others with
    | nil => cases hnames
    | cons found more =>
      obtain ⟨hname, htail⟩ := List.cons.inj hnames
      have hvalue := hvalues tag mem_cons_self found mem_cons_self hname
      have hrest := ih htail fun next hnext other hother =>
        hvalues next (mem_cons_of_mem _ hnext) other (mem_cons_of_mem _ hother)
      rw [ValueMethods.sameTags, hvalue, hrest, decide_eq_true hname]
      rfl

namespace BuiltAlike

variable {methods : ValueMethods ω} {key other : AnyKey ω}

theorem sameTags (hbuilt : BuiltAlike methods key other) (hnames : key.base.allTags.map Prod.fst =
      other.base.allTags.map Prod.fst) :
    methods.sameTags key.base.allTags other.base.allTags = true := by
  obtain ⟨configs, others, hkey, hother, hsame⟩ := hbuilt.configs
  apply sameTags_of_names hnames
  intro tag htag found hfound hname
  rw [CacheEngineKey.allTags, hkey] at htag
  rw [CacheEngineKey.allTags, hother] at hfound
  have hentry := mem_entries_of_mem_tagList htag
  have hentry' := mem_entries_of_mem_tagList hfound
  rw [← hname] at hentry'
  exact hsame.2 _ _ _ (OrderedDict.get?_eq_some_iff.mpr hentry)
    (OrderedDict.get?_eq_some_iff.mpr hentry')

theorem isEq (hbuilt : BuiltAlike methods key other) (hnames : key.base.allTags.map Prod.fst =
    other.base.allTags.map Prod.fst) : key.isEq methods other = true := by
  rw [AnyKey.isEq_iff, CacheEngineKey.isEq_iff]
  exact ⟨hbuilt.layerId, hbuilt.fmt, hbuilt.modelName, hbuilt.worldSize,
    hbuilt.workerId, hbuilt.chunkHash, hbuilt.sameTags hnames⟩

end BuiltAlike

/-! Hashes. -/

namespace ValueMethods

variable {methods : ValueMethods ω}

theorem hashValue_eq {value found : ConfigValue ω} (hsame : methods.sameValue value found = true) :
    methods.hashValue value = methods.hashValue found := by
  cases value with
  | text text => rw [eq_of_sameValue_text hsame]
  | other value =>
    cases found with
    | text text => cases hsame
    | other found => exact methods.hash_same value found hsame

theorem map_hashTag_eq {tags others : List (Tag ω)} (hsame : methods.sameTags tags others = true) :
    tags.map methods.hashTag = others.map methods.hashTag := by
  refine map_eq_of_sameTags _ hsame fun tag _ other hname hvalue => ?_
  rw [hashTag, hashTag, hname, hashValue_eq hvalue]

end ValueMethods

namespace AnyKey

variable {methods : ValueMethods ω} {key other : AnyKey ω}

/-- The hash of the tags, by way of the hash of each. -/
def hashOfTags (methods : ValueMethods ω) (hashes : List (Option Int)) : Option Int :=
  if hashes.isEmpty then some methods.hashNone
  else (hashes.mapM id).map methods.hashTuple

theorem hashTags_eq (base : CacheEngineKey ω) : base.hashTags methods =
    hashOfTags methods (base.allTags.map methods.hashTag) := by
  rw [CacheEngineKey.hashTags, base.tags_eq]
  cases base.allTags with
  | nil => rfl
  | cons tag rest =>
    rw [hashOfTags, mapM_map]
    rfl

theorem hash_eq_of_isEq (heq : key.isEq methods other = true) :
    key.hash methods = other.hash methods := by
  obtain ⟨hlayer, hbase⟩ := isEq_iff.mp heq
  obtain ⟨hfmt, hmodel, hworld, hworker, hhash, htags⟩ := CacheEngineKey.isEq_iff.mp hbase
  rw [hash, hash, CacheEngineKey.hashFields, CacheEngineKey.hashFields, hashTags_eq, hashTags_eq,
    ValueMethods.map_hashTag_eq htags, hfmt, hmodel, hworld, hworker, hhash, hlayer]

theorem exists_hash (hplain : key.Plain) : ∃ value, key.hash methods = some value := by
  have htags : ∃ value, key.base.hashTags methods = some value := by
    rw [hashTags_eq, hashOfTags]
    split
    · exact ⟨_, rfl⟩
    · obtain ⟨values, hvalues⟩ : ∃ values,
          (key.base.allTags.map methods.hashTag).mapM id = some values := by
        unfold Plain at hplain
        generalize key.base.allTags = tags at hplain
        induction tags with
        | nil => exact ⟨[], rfl⟩
        | cons tag rest ih =>
          obtain ⟨values, hvalues⟩ := ih fun next hnext => hplain next (mem_cons_of_mem _ hnext)
          obtain ⟨-, -, text, htext, -⟩ := hplain tag mem_cons_self
          have hhead : methods.hashTag tag = some (methods.hashTuple
              [methods.hashText tag.1, methods.hashText text]) := by
            rw [ValueMethods.hashTag, htext]
            rfl
          rw [map_cons, mapM_cons, id_eq, hhead, hvalues]
          exact ⟨_, rfl⟩
      rw [hvalues]
      exact ⟨_, rfl⟩
  obtain ⟨tags, htags⟩ := htags
  rw [hash, CacheEngineKey.hashFields, htags]
  exact ⟨_, rfl⟩

theorem toText_eq_of_isEq (hplain : key.Plain) (heq : key.isEq methods other = true) :
    key.toText methods = other.toText methods := by
  obtain ⟨hlayer, hbase⟩ := isEq_iff.mp heq
  obtain ⟨hfmt, hmodel, hworld, hworker, hhash, htags⟩ := CacheEngineKey.isEq_iff.mp hbase
  have hsame := ValueMethods.eq_of_sameTags hplain htags
  rw [toText_eq, toText_eq, parts, parts, CacheEngineKey.headParts, CacheEngineKey.headParts,
    layerParts, layerParts, hfmt, hmodel, hworld, hworker, hhash, hlayer, hsame]

end AnyKey

/-! Sets of keys. -/

/-- Each way of writing a key down identifies it, among the given keys. -/
structure CodecHolds (methods : ValueMethods ω) (path : Text)
    (connector : FSConnector) (keys : Set (AnyKey ω)) : Prop where
  roundTrip : ∀ key ∈ keys, ∃ back, key.fromText (key.toText methods) = some back ∧
      back.isEq methods key = true
  dictRoundTrip : ∀ key, AnyKey.chunk key ∈ keys → ∃ back,
    CacheEngineKey.fromDict (key.toDict methods) = some back ∧ back.isEq methods key = true
  injective : ∀ key ∈ keys, ∀ other ∈ keys, key.toText methods = other.toText methods →
      key.isEq methods other = true
  builtAlike : ∀ key ∈ keys, ∀ other ∈ keys, BuiltAlike methods key other →
    key.isEq methods other = true ∧ key.toText methods = other.toText methods ∧
      ∃ hash, key.hash methods = some hash ∧ other.hash methods = some hash
  keyToPath : ∀ key ∈ keys, ∀ other ∈ keys,
    keyToPath methods path key = keyToPath methods path other → key.isEq methods other = true
  getFilePath : ∀ key ∈ keys, ∀ other ∈ keys,
    connector.getFilePath methods key = connector.getFilePath methods other →
      key.isEq methods other = true

/-- Tags are plain strings, equal configurations list them in one order, and
no two keys differ only in a slash for a dash. -/
structure KeysFit (methods : ValueMethods ω) (keys : Set (AnyKey ω)) : Prop where
  plain : ∀ key ∈ keys, key.Plain
  order : ∀ key ∈ keys, ∀ other ∈ keys, BuiltAlike methods key other →
    key.base.allTags.map Prod.fst = other.base.allTags.map Prod.fst
  slashes : ∀ key ∈ keys, ∀ other ∈ keys,
    key.AlikeUnder methods dash other → key.isEq methods other = true

/-- The texts, dictionaries, hashes and file names identify the keys of a set
exactly when the keys fit. -/
theorem codecHolds_iff (methods : ValueMethods ω) (path : Text) (connector : FSConnector)
    {keys : Set (AnyKey ω)} (hat : ∀ key ∈ keys, key.NoAt) :
    CodecHolds methods path connector keys ↔ KeysFit methods keys := by
  constructor
  · intro hholds
    constructor
    · intro key hkey
      obtain ⟨back, hback, heq⟩ := hholds.roundTrip key hkey
      exact AnyKey.plain_of_isEq (AnyKey.plain_of_fromText hback).2 heq
    · intro key hkey other hother hbuilt
      have heq := (hholds.builtAlike key hkey other hother hbuilt).1
      exact ValueMethods.names_of_sameTags
        (CacheEngineKey.isEq_iff.mp (AnyKey.isEq_iff.mp heq).2).2.2.2.2.2
    · intro key hkey other hother halike
      apply hholds.keyToPath key hkey other hother
      have hstem : key.fileStem methods = other.fileStem methods :=
        AnyKey.map_toText_of_alike keepsSeparators_dash halike
      rw [keyToPath, keyToPath, hstem]
  · intro hfit
    have hstems : ∀ key ∈ keys, ∀ other ∈ keys, key.fileStem methods = other.fileStem methods →
          key.isEq methods other = true := by
      intro key hkey other hother hstem
      apply hfit.slashes key hkey other hother
      exact alike_of_fileStem (hat key hkey) (hfit.plain key hkey)
        (hat other hother) (hfit.plain other hother) hstem
    constructor
    · intro key hkey
      exact AnyKey.fromText_toText (hat key hkey) (hfit.plain key hkey)
    · intro key hkey
      exact CacheEngineKey.fromDict_toDict (hfit.plain _ hkey)
    · intro key hkey other hother htext
      apply AnyKey.isEq_of_alike (hfit.plain key hkey) (hfit.plain other hother)
      apply AnyKey.alike_of_map_toText keepsSeparators_id (hat key hkey)
        (hfit.plain key hkey) (hat other hother) (hfit.plain other hother)
      rw [htext]
    · intro key hkey other hother hbuilt
      have heq := hbuilt.isEq (hfit.order key hkey other hother hbuilt)
      obtain ⟨value, hvalue⟩ := @AnyKey.exists_hash _ methods key (hfit.plain key hkey)
      refine ⟨heq, AnyKey.toText_eq_of_isEq (hfit.plain key hkey) heq, value, hvalue, ?_⟩
      rw [← AnyKey.hash_eq_of_isEq heq, hvalue]
    · intro key hkey other hother hpath
      exact hstems key hkey other hother (fileStem_of_pathJoin (by decide) hpath)
    · intro key hkey other hother hpath
      exact hstems key hkey other hother (fileStem_of_pathJoin (by decide) hpath)

/-- Values that are integers, if not strings. -/
def integerMethods : ValueMethods Int where
  format := intText 10
  same first second := first == second
  hash := some
  hashText text := text.length
  hashInt value := value
  hashNone := 0
  hashTuple := List.sum
  same_self value := beq_self_eq_true value
  hash_same first second hsame := by rw [beq_iff_eq.mp hsame]

/-- A key of one model with the given configuration. -/
def keyWith (configs : RequestConfigs Int) : CacheEngineKey Int where
  fmt := "vllm".toList
  modelName := "org/model".toList
  worldSize := 1
  workerId := 0
  chunkHash := 0xabc
  requestConfigs := some configs

/-- A tag, and a setting that is none. -/
def userConfigs : RequestConfigs Int :=
  ⟨[("lmcache.tag.user".toList, .text "alice".toList),
    ("lmcache.priority".toList, .other 5)], by decide⟩

def userKeys : Set (AnyKey Int) :=
  {AnyKey.chunk (keyWith userConfigs), AnyKey.layer { keyWith userConfigs with layerId := 3 }}

theorem plain_userConfigs : ∀ tag ∈ (keyWith userConfigs).allTags, PlainTag tag := by
  have htags : (keyWith userConfigs).allTags = [("user".toList, .text "alice".toList)] := by decide
  rw [htags]
  intro tag htag
  rw [mem_singleton.mp htag]
  exact ⟨by decide, by decide, _, rfl, by decide⟩

theorem codecHolds_userKeys : CodecHolds integerMethods "/cache".toList
    ⟨["/a".toList, "/b".toList], by decide⟩ userKeys := by
  apply (codecHolds_iff integerMethods _ _ _).mpr
  · constructor
    · rintro key (rfl | rfl)
      · exact plain_userConfigs
      · exact plain_userConfigs
    · rintro key (rfl | rfl) other (rfl | rfl) hbuilt
      · rfl
      · rfl
      · rfl
      · rfl
    · rintro key (rfl | rfl) other (rfl | rfl) halike
      · decide
      · cases halike.layerId
      · cases halike.layerId
      · decide
  · rintro key (rfl | rfl)
    · exact ⟨by decide, by decide⟩
    · exact ⟨by decide, by decide⟩

/-- One tag with separators in its value, and two tags. -/
def oneTag : RequestConfigs Int := ⟨[("lmcache.tag.user".toList, .text "a@b%c".toList)], by decide⟩

def twoTags : RequestConfigs Int :=
  ⟨[("lmcache.tag.user".toList, .text "a".toList),
    ("lmcache.tag.b".toList, .text "c".toList)], by decide⟩

/-- Different keys have one text. -/
theorem not_codecHolds_oneTag_twoTags :
    ¬ CodecHolds integerMethods "/cache".toList ⟨["/a".toList], by decide⟩
      {AnyKey.chunk (keyWith oneTag), AnyKey.chunk (keyWith twoTags)} := by
  intro hholds
  have heq := hholds.injective (.chunk (keyWith oneTag)) (Or.inl rfl)
    (.chunk (keyWith twoTags)) (Or.inr rfl) (by decide)
  revert heq
  decide

end CatKV
