/-
The text of a key can be read back as long as its tags are plain: strings, with
no separator in them and no `%` in their names.  What `from_string` returns is
always plain, so for other tags the way back cannot end at the same key.
-/
import CatKV.CacheEngineKey

namespace CatKV

open Option hiding map_map

open List

variable {ω : Type}

/-! Tags. -/

/-- A string, without the separators of the text. -/
def PlainTag (tag : Tag ω) : Prop :=
  '@' ∉ tag.1 ∧ '%' ∉ tag.1 ∧ ∃ text, tag.2 = .text text ∧ '@' ∉ text

theorem tagMark_isPrefixOf (name : Text) : tagMark.isPrefixOf (tagMark ++ name) = true :=
  isPrefixOf_iff_prefix.mpr (prefix_append _ _)

theorem tagOf_mark (name : Text) (value : ConfigValue ω) :
    tagOf (tagMark ++ name, value) = some (name, value) := by
  rw [tagOf, if_pos (tagMark_isPrefixOf name), drop_left]

theorem tagOf_eq_some {entry : Text × ConfigValue ω} {tag : Tag ω}
    (htag : tagOf entry = some tag) : entry = (tagMark ++ tag.1, tag.2) := by
  unfold tagOf at htag
  split at htag
  · next hmark =>
    obtain ⟨rest, hrest⟩ := isPrefixOf_iff_prefix.mp hmark
    cases htag
    rw [← hrest, drop_left, hrest]
  · cases htag

theorem tagOf_eq_none {entry : Text × ConfigValue ω}
    (hmark : ¬ tagMark <+: entry.1) : tagOf entry = none := by
  rw [tagOf, if_neg]
  rw [ isPrefixOf_iff_prefix]
  exact hmark

namespace CacheEngineKey

variable (key : CacheEngineKey ω)

/-- The tags, without a difference between none and `None`. -/
def allTags : List (Tag ω) := (key.requestConfigs.map tagList).getD []

theorem tags_eq : key.tags =
    if key.allTags.isEmpty then none else some key.allTags := by
  unfold tags allTags
  cases key.requestConfigs with
  | none => rfl
  | some configs =>
    rw [map_some]
    cases tagList configs with
    | nil => rfl
    | cons tag rest => rfl

theorem getD_tags : key.tags.getD [] = key.allTags := by
  rw [tags_eq]
  cases key.allTags with
  | nil => rfl
  | cons tag rest => rfl

theorem nodup_allTags : (key.allTags.map Prod.fst).Nodup := by
  unfold allTags
  cases key.requestConfigs with
  | none => exact nodup_nil
  | some configs =>
    have hnames : ((tagList configs).map fun tag => tagMark ++ tag.1).Sublist
        (configs.entries.map Prod.fst) := by
      unfold tagList
      induction configs.entries with
      | nil => exact List.Sublist.slnil
      | cons entry rest ih =>
        rw [map_cons, filterMap_cons]
        split
        · exact ih.cons _
        · next tag htag =>
          rw [map_cons, tagOf_eq_some htag]
          exact ih.cons_cons _
    have hmarked := configs.nodup.sublist hnames
    rw [show (fun tag : Tag ω => tagMark ++ tag.1) =
      (tagMark ++ ·) ∘ Prod.fst from rfl, ← map_map] at hmarked
    exact List.Nodup.of_map _ hmarked

variable {key}

theorem isEq_iff {methods : ValueMethods ω} {other : CacheEngineKey ω} :
    key.isEq methods other = true ↔ key.fmt = other.fmt ∧
      key.modelName = other.modelName ∧ key.worldSize = other.worldSize ∧
      key.workerId = other.workerId ∧ key.chunkHash = other.chunkHash ∧
      methods.sameTags key.allTags other.allTags = true := by
  have htags : methods.sameOptionalTags key.tags other.tags =
      methods.sameTags key.allTags other.allTags := by
    rw [key.tags_eq, other.tags_eq]
    cases key.allTags with
    | nil =>
      cases other.allTags with
      | nil => rfl
      | cons tag rest => rfl
    | cons tag rest =>
      cases other.allTags with
      | nil => rfl
      | cons tag rest => rfl
  rw [isEq, htags]
  simp only [Bool.and_eq_true, decide_eq_true_eq, and_assoc]

end CacheEngineKey

namespace ValueMethods

variable {methods : ValueMethods ω} {tags others : List (Tag ω)}

theorem map_eq_of_sameTags {β : Type} (image : Tag ω → β)
    (hsame : methods.sameTags tags others = true) (himage : ∀ tag ∈ tags, ∀ other : Tag ω,
      tag.1 = other.1 → methods.sameValue tag.2 other.2 = true → image tag = image other) :
    tags.map image = others.map image := by
  induction tags generalizing others with
  | nil =>
    cases others with
    | nil => rfl
    | cons other rest => cases hsame
  | cons tag rest ih =>
    cases others with
    | nil => cases hsame
    | cons other more =>
      simp only [sameTags, Bool.and_eq_true, decide_eq_true_eq] at hsame
      obtain ⟨⟨hname, hvalue⟩, hrest⟩ := hsame
      rw [forall_mem_cons] at himage
      rw [map_cons, map_cons, himage.1 other hname hvalue, ih hrest himage.2]

theorem names_of_sameTags (hsame : methods.sameTags tags others = true) :
    tags.map Prod.fst = others.map Prod.fst :=
  map_eq_of_sameTags _ hsame fun _ _ _ hname _ => hname

theorem eq_of_sameValue_text {text : Text} {value : ConfigValue ω}
    (hsame : methods.sameValue (.text text) value = true) : value = .text text := by
  cases value with
  | text other =>
    have heq : text = other := by simpa [sameValue] using hsame
    rw [heq]
  | other other => cases hsame

theorem eq_of_sameTags (hplain : ∀ tag ∈ tags, PlainTag tag)
    (hsame : methods.sameTags tags others = true) : others = tags := by
  have hmap : tags.map id = others.map id := by
    refine map_eq_of_sameTags id hsame fun tag htag other hname hvalue => ?_
    obtain ⟨-, -, text, htext, -⟩ := hplain tag htag
    rw [htext] at hvalue
    exact Prod.ext hname (htext.trans (eq_of_sameValue_text hvalue).symm)
  rw [List.map_id, List.map_id] at hmap
  exact hmap.symm

theorem sameTags_self (tags : List (Tag ω)) : methods.sameTags tags tags = true := by
  induction tags with
  | nil => rfl
  | cons tag rest ih =>
    have hvalue : methods.sameValue tag.2 tag.2 = true := by
      cases tag.2 with
      | text value => exact decide_eq_true rfl
      | other value => exact methods.same_self value
    rw [sameTags, ih, hvalue, decide_eq_true rfl]
    rfl

theorem splitOnce_tagText {tag : Tag ω} (hname : '%' ∉ tag.1) :
    splitOnce '%' (methods.tagText tag) = some (tag.1, methods.formatValue tag.2) :=
  splitOnce_append hname _

theorem not_mem_tagText {tag : Tag ω} (hplain : PlainTag tag) : '@' ∉ methods.tagText tag := by
  obtain ⟨hname, -, text, htext, hvalue⟩ := hplain
  intro hmem
  rcases mem_append.mp hmem with hfirst | hrest
  · exact hname hfirst
  · rcases mem_cons.mp hrest with heq | hsecond
    · cases heq
    · rw [htext] at hsecond
      exact hvalue hsecond

end ValueMethods

/-! Reading tags back. -/

namespace CacheEngineKey

variable {methods : ValueMethods ω}

/-- The entry of a dictionary that a tag comes from. -/
def tagEntry (tag : Tag ω) : Text × ConfigValue ω := (tagMark ++ tag.1, tag.2)

theorem filterMap_tagEntry (tags : List (Tag ω)) : (tags.map tagEntry).filterMap tagOf = tags := by
  induction tags with
  | nil => rfl
  | cons tag rest ih =>
    rw [map_cons, tagEntry, filterMap_cons_some (tagOf_mark ..), ih]

variable {configs : RequestConfigs ω}

theorem foldlM_tagText (mark : Text) {tags done : List (Tag ω)}
    (hconfigs : configs.entries = done.map fun tag => (mark ++ tag.1, tag.2))
    (hnodup : ((done ++ tags).map Prod.fst).Nodup) (hplain : ∀ tag ∈ tags, PlainTag tag) :
    ∃ final, (tags.map methods.tagText).foldlM (fun configs part =>
        (splitOnce '%' part).map fun pair =>
          configs.set (mark ++ pair.1) (.text pair.2)) configs =
        some final ∧
      final.entries = (done ++ tags).map fun tag => (mark ++ tag.1, tag.2) := by
  induction tags generalizing done configs with
  | nil => exact ⟨configs, rfl, by rw [append_nil, hconfigs]⟩
  | cons tag rest ih =>
    obtain ⟨-, hname, text, htext, -⟩ := hplain tag mem_cons_self
    have hnew : mark ++ tag.1 ∉ configs.keys := by
      rw [OrderedDict.keys, hconfigs, map_map]
      intro hmem
      obtain ⟨old, hold, heq⟩ := mem_map.mp hmem
      have hsame : old.1 = tag.1 := append_cancel_left heq
      rw [map_append, nodup_append] at hnodup
      exact hnodup.2.2 _ (mem_map_of_mem hold) _ (mem_map_of_mem mem_cons_self) hsame
    have hset : (configs.set (mark ++ tag.1) (.text (methods.formatValue tag.2))).entries =
          (done ++ [tag]).map fun tag => (mark ++ tag.1, tag.2) := by
      rw [OrderedDict.set_of_not_mem hnew, hconfigs, map_append, map_singleton, htext]
      rfl
    rw [append_cons] at hnodup
    obtain ⟨final, hfold, hfinal⟩ := ih hset hnodup fun next hnext =>
      hplain next (mem_cons_of_mem _ hnext)
    refine ⟨final, ?_, ?_⟩
    · rw [map_cons, foldlM_cons, ValueMethods.splitOnce_tagText hname]
      exact hfold
    · rw [hfinal, ← append_cons]

theorem configsFrom_tagText {tags : List (Tag ω)} (hnodup : (tags.map Prod.fst).Nodup)
    (hplain : ∀ tag ∈ tags, PlainTag tag) :
    ∃ configs, configsFrom tagMark (tags.map methods.tagText) =
      some configs ∧ (configs.map tagList).getD [] = tags := by
  cases tags with
  | nil => exact ⟨none, rfl, rfl⟩
  | cons tag rest =>
    obtain ⟨final, hfold, hfinal⟩ := @foldlM_tagText _ methods
      OrderedDict.empty tagMark (tag :: rest) [] rfl hnodup hplain
    refine ⟨some final, ?_, ?_⟩
    · rw [map_cons, configsFrom]
      · rw [← map_cons (f := methods.tagText), hfold]
        rfl
      · intro hnil
        cases hnil
    · rw [map_some, getD_some, tagList, hfinal, nil_append]
      exact filterMap_tagEntry _

/-- An entry as `from_string` makes it. -/
def ReadEntry (entry : Text × ConfigValue ω) : Prop := ∃ tag, entry = tagEntry tag ∧ PlainTag tag

theorem foldlM_readEntry {parts : List Text} {final : RequestConfigs ω}
    (hconfigs : ∀ entry ∈ configs.entries, ReadEntry entry) (hparts : ∀ part ∈ parts, '@' ∉ part)
    (hfold : parts.foldlM (fun configs part =>
      (splitOnce '%' part).map fun pair =>
        configs.set (tagMark ++ pair.1) (.text pair.2)) configs =
      some final) : ∀ entry ∈ final.entries, ReadEntry entry := by
  induction parts generalizing configs with
  | nil =>
    cases hfold
    exact hconfigs
  | cons part rest ih =>
    rw [foldlM_cons] at hfold
    obtain ⟨next, hnext, hrest⟩ := bind_eq_some_iff.mp hfold
    obtain ⟨⟨name, text⟩, hsplit, rfl⟩ := map_eq_some_iff.mp hnext
    obtain ⟨hpart, hname⟩ := splitOnce_eq_some hsplit
    have hat := hparts part mem_cons_self
    rw [hpart, mem_append, not_or, mem_cons, not_or] at hat
    apply ih _ (fun other hother => hparts other (mem_cons_of_mem _ hother)) hrest
    intro entry hentry
    rcases OrderedDict.mem_set.mp hentry with rfl | ⟨hold, -⟩
    · exact ⟨(name, .text text), rfl, hat.1, hname, text, rfl, hat.2.2⟩
    · exact hconfigs entry hold

theorem plain_of_configsFrom {parts : List Text} {configs : Option (RequestConfigs ω)}
    (hparts : ∀ part ∈ parts, '@' ∉ part) (hconfigs : configsFrom tagMark parts = some configs) :
    ∀ tag ∈ (configs.map tagList).getD [], PlainTag tag := by
  unfold configsFrom at hconfigs
  split at hconfigs
  · cases hconfigs
    intro tag htag
    cases htag
  · obtain ⟨final, hfold, rfl⟩ := map_eq_some_iff.mp hconfigs
    have hread := foldlM_readEntry (by
      intro entry hentry
      cases hentry) hparts hfold
    intro tag htag
    obtain ⟨entry, hentry, htagOf⟩ := mem_filterMap.mp htag
    obtain ⟨read, rfl, hplain⟩ := hread entry hentry
    rw [tagEntry, tagOf_mark] at htagOf
    cases htagOf
    exact hplain

/-! The dictionary of a key. -/

theorem splitOnce_tagText_start (entry : Text × ConfigValue ω) :
    ∃ pair, splitOnce '%' (methods.tagText entry) = some pair ∧ pair.1 <+: entry.1 := by
  by_cases hname : '%' ∈ entry.1
  · obtain ⟨first, rest, hsplit, hfirst⟩ := eq_append_cons_of_mem hname
    refine ⟨(first, rest ++ '%' :: methods.formatValue entry.2), ?_, ?_⟩
    · rw [ValueMethods.tagText, hsplit, append_assoc, cons_append, splitOnce_append hfirst]
    · rw [hsplit]
      exact prefix_append _ _
  · exact ⟨_, ValueMethods.splitOnce_tagText hname, prefix_refl _⟩

theorem tagList_set_of_not_mark {name : Text} (hmark : ¬ tagMark <+: name) (value : ConfigValue ω) :
    tagList (configs.set name value) = tagList configs := by
  unfold tagList
  by_cases hkey : name ∈ configs.keys
  · rw [OrderedDict.set, dif_pos hkey, filterMap_map]
    apply filterMap_congr
    intro entry hentry
    by_cases hsame : entry.1 = name
    · rw [Function.comp_apply, if_pos hsame, tagOf_eq_none hmark, tagOf_eq_none (hsame ▸ hmark)]
    · rw [Function.comp_apply, if_neg hsame]
  · rw [OrderedDict.set_of_not_mem hkey, filterMap_append,
      filterMap_cons_none (tagOf_eq_none hmark), filterMap_nil, append_nil]

theorem foldlM_entries {entries done : List (Text × ConfigValue ω)}
    (hnodup : ((done ++ entries).map Prod.fst).Nodup)
    (htags : tagList configs = done.filterMap tagOf)
    (hkeys : ∀ name ∈ configs.keys, tagMark <+: name →
      name ∈ done.map Prod.fst) (hplain : ∀ tag ∈ entries.filterMap tagOf, PlainTag tag) :
    ∃ final, (entries.map methods.tagText).foldlM (fun configs part =>
        (splitOnce '%' part).map fun pair =>
          configs.set ([] ++ pair.1) (.text pair.2)) configs = some final ∧
      tagList final = (done ++ entries).filterMap tagOf := by
  induction entries generalizing done configs with
  | nil => exact ⟨configs, rfl, by rw [append_nil, htags]⟩
  | cons entry rest ih =>
    obtain ⟨⟨name, text⟩, hsplit, hpre⟩ := @splitOnce_tagText_start _ methods entry
    have hstep : tagList (configs.set name (.text text)) = (done ++ [entry]).filterMap tagOf ∧
        ∀ other ∈ (configs.set name (.text text)).keys, tagMark <+: other →
          other ∈ (done ++ [entry]).map Prod.fst := by
      cases htag : tagOf entry with
      | none =>
        have hmark : ¬ tagMark <+: name := by
          intro hmark
          rw [tagOf, if_pos] at htag
          · cases htag
          · exact isPrefixOf_iff_prefix.mpr (hmark.trans hpre)
        constructor
        · rw [tagList_set_of_not_mark hmark, htags, filterMap_append, filterMap_cons_none htag,
            filterMap_nil, append_nil]
        · intro other hother hmarked
          rcases OrderedDict.mem_keys_set.mp hother with rfl | hold
          · exact absurd hmarked hmark
          · rw [map_append]
            exact mem_append_left _ (hkeys other hold hmarked)
      | some tag =>
        have hentry := tagOf_eq_some htag
        obtain ⟨-, hpercent, value, hvalue, -⟩ := hplain tag (by
          rw [filterMap_cons_some htag]
          exact mem_cons_self)
        have hmarkPlain : '%' ∉ tagMark := by decide
        have hfirst : '%' ∉ entry.1 := by
          rw [hentry, mem_append, not_or]
          exact ⟨hmarkPlain, hpercent⟩
        rw [ValueMethods.splitOnce_tagText hfirst] at hsplit
        cases hsplit
        have hnew : entry.1 ∉ configs.keys := by
          intro hmem
          have hdone := hkeys entry.1 hmem (by
            rw [hentry]
            exact prefix_append _ _)
          rw [map_append, nodup_append] at hnodup
          exact hnodup.2.2 _ hdone _ (mem_map_of_mem mem_cons_self) rfl
        constructor
        · have hadded : tagOf (entry.1, (ConfigValue.text (methods.formatValue entry.2) :
                ConfigValue ω)) = some tag := by
            rw [hentry, tagOf_mark, hvalue]
            exact congrArg some (Prod.ext rfl hvalue.symm)
          unfold tagList at htags ⊢
          rw [OrderedDict.set_of_not_mem hnew, filterMap_append, filterMap_append, htags,
            filterMap_cons_some hadded, filterMap_cons_some htag]
        · intro other hother hmarked
          rw [map_append]
          rcases OrderedDict.mem_keys_set.mp hother with rfl | hold
          · exact mem_append_right _ mem_cons_self
          · exact mem_append_left _ (hkeys other hold hmarked)
    rw [append_cons] at hnodup
    obtain ⟨final, hfold, hfinal⟩ := ih hnodup hstep.1 hstep.2 fun tag htag => hplain tag (by
        obtain ⟨source, hsource, heq⟩ := mem_filterMap.mp htag
        exact mem_filterMap.mpr ⟨source, mem_cons_of_mem _ hsource, heq⟩)
    refine ⟨final, ?_, ?_⟩
    · rw [map_cons, foldlM_cons, hsplit]
      exact hfold
    · rw [hfinal, ← append_cons]

theorem fromDict_toDict {key : CacheEngineKey ω} (hplain : ∀ tag ∈ key.allTags, PlainTag tag) :
    ∃ back, fromDict (key.toDict methods) = some back ∧ back.isEq methods key = true := by
  suffices hconfigs : ∃ configs, configsFrom [] ((key.toDict methods).requestConfigs.getD []) =
        some configs ∧ (configs.map tagList).getD [] = key.allTags by
    obtain ⟨configs, hfrom, htags⟩ := hconfigs
    refine ⟨_, congrArg (Option.map _) hfrom, ?_⟩
    rw [isEq_iff]
    refine ⟨rfl, rfl, rfl, rfl, rfl, ?_⟩
    rw [allTags, htags]
    exact ValueMethods.sameTags_self _
  unfold toDict allTags at *
  cases hsome : key.requestConfigs with
  | none => exact ⟨none, rfl, rfl⟩
  | some configs =>
    rw [hsome] at hplain
    cases hentries : configs.entries with
    | nil =>
      refine ⟨none, ?_, ?_⟩
      · simp only [map_some, hentries, map_nil]
        rfl
      · simp [tagList, hentries]
    | cons entry rest =>
      have hnodup := configs.nodup
      rw [map_some, getD_some, tagList] at hplain
      rw [hentries] at hnodup hplain
      obtain ⟨final, hfold, hfinal⟩ := @foldlM_entries _ methods
        OrderedDict.empty (entry :: rest) [] hnodup rfl
        (by intro name hname; cases hname) hplain
      refine ⟨some final, ?_, ?_⟩
      · simp only [map_some, hentries, map_cons, getD_some]
        rw [map_cons] at hfold
        rw [configsFrom, hfold]
        · rfl
        · intro hnil
          cases hnil
      · rw [map_some, getD_some, map_some, getD_some, hfinal, tagList, hentries, nil_append]

end CacheEngineKey

/-! The parts of a text. -/

/-- A change of letters that keeps separators and numerals apart from the
rest. -/
structure KeepsSeparators (change : Char → Char) : Prop where
  at_iff : ∀ letter, change letter = '@' ↔ letter = '@'
  percent_iff : ∀ letter, change letter = '%' ↔ letter = '%'
  minus : change '-' = '-'
  digit : ∀ digit < 16, change (Nat.digitChar digit) = Nat.digitChar digit

theorem keepsSeparators_id : KeepsSeparators id where
  at_iff _ := Iff.rfl
  percent_iff _ := Iff.rfl
  minus := rfl
  digit _ _ := rfl

variable {change : Char → Char}

theorem KeepsSeparators.not_mem_at (hkeeps : KeepsSeparators change)
    {text : Text} (htext : '@' ∉ text) : '@' ∉ text.map change := by
  intro hmem
  obtain ⟨letter, hletter, heq⟩ := mem_map.mp hmem
  rw [(hkeeps.at_iff letter).mp heq] at hletter
  exact htext hletter

theorem KeepsSeparators.mem_percent_iff (hkeeps : KeepsSeparators change)
    {text : Text} : '%' ∈ text.map change ↔ '%' ∈ text := by
  constructor
  · intro hmem
    obtain ⟨letter, hletter, heq⟩ := mem_map.mp hmem
    rwa [(hkeeps.percent_iff letter).mp heq] at hletter
  · intro hmem
    rw [← (hkeeps.percent_iff '%').mpr rfl]
    exact mem_map_of_mem hmem

theorem KeepsSeparators.map_numeral (hkeeps : KeepsSeparators change)
    {base : Nat} (hbase : base ≤ 16) {text : Text}
    (hnumeral : IsNumeral base text) : text.map change = text := by
  conv_rhs => rw [← map_id text]
  apply map_congr_left
  intro letter hletter
  rcases hnumeral letter hletter with rfl | ⟨digit, hdigit, rfl⟩
  · exact hkeeps.minus
  · exact hkeeps.digit digit (by omega)

theorem map_intercalate (change : Char → Char) (separator : Char) (parts : List Text) :
    ([separator].intercalate parts).map change =
      [change separator].intercalate (parts.map (List.map change)) := by
  induction parts with
  | nil => rfl
  | cons part rest ih =>
    cases rest with
    | nil => simp
    | cons next more =>
      rw [intercalate_cons_cons, map_append, map_append, ih]
      simp only [map_cons, map_nil, intercalate_cons_cons]

namespace AnyKey

variable {methods : ValueMethods ω} {key other : AnyKey ω}

def NoAt (key : AnyKey ω) : Prop := '@' ∉ key.base.fmt ∧ '@' ∉ key.base.modelName

def Plain (key : AnyKey ω) : Prop := ∀ tag ∈ key.base.allTags, PlainTag tag

/-- The parts of the text: the head, the layer, and the tags. -/
def layerParts (key : AnyKey ω) : List Text := (key.layerId.map (intText 10)).toList

def parts (methods : ValueMethods ω) (key : AnyKey ω) : List Text :=
  key.base.headParts ++ (key.layerParts ++ key.base.allTags.map methods.tagText)

theorem toText_eq : key.toText methods = ['@'].intercalate (key.parts methods) := by
  cases key with
  | chunk key =>
    rw [toText, CacheEngineKey.toText, CacheEngineKey.tagParts, CacheEngineKey.getD_tags]
    rfl
  | layer key =>
    rw [toText, LayerCacheEngineKey.toText, CacheEngineKey.tagParts, CacheEngineKey.getD_tags]
    rfl

theorem at_not_mem_intText {base : Nat} (hbase : 1 < base) (hle : base ≤ 16)
    (value : Int) : '@' ∉ intText base value := by
  apply not_mem_of_isNumeral hle (isNumeral_intText hbase value)
  · decide
  · decide

theorem percent_not_mem_intText {base : Nat} (hbase : 1 < base)
    (hle : base ≤ 16) (value : Int) : '%' ∉ intText base value := by
  apply not_mem_of_isNumeral hle (isNumeral_intText hbase value)
  · decide
  · decide

theorem at_not_mem_parts (hat : key.NoAt) (hplain : key.Plain) :
    ∀ part ∈ key.parts methods, '@' ∉ part := by
  intro part hpart
  rcases mem_append.mp hpart with hhead | hrest
  · simp only [CacheEngineKey.headParts, mem_cons, not_mem_nil, or_false] at hhead
    rcases hhead with rfl | rfl | rfl | rfl | rfl
    · exact hat.1
    · exact hat.2
    · exact at_not_mem_intText (by decide) (by decide) _
    · exact at_not_mem_intText (by decide) (by decide) _
    · exact at_not_mem_intText (by decide) (by decide) _
  · rcases mem_append.mp hrest with hlayer | htags
    · obtain ⟨layerId, -, rfl⟩ := map_eq_some_iff.mp (mem_toList.mp hlayer)
      exact at_not_mem_intText (by decide) (by decide) _
    · obtain ⟨tag, htag, rfl⟩ := mem_map.mp htags
      exact ValueMethods.not_mem_tagText (hplain tag htag)

theorem splitOn_toText (hat : key.NoAt) (hplain : key.Plain) :
    (key.toText methods).splitOn '@' = key.parts methods := by
  rw [toText_eq]
  apply splitOn_intercalate
  · exact at_not_mem_parts hat hplain
  · exact cons_ne_nil _ _

theorem fromParts_headParts {base : CacheEngineKey ω}
    (hplain : ∀ tag ∈ base.allTags, PlainTag tag) :
    ∃ back : CacheEngineKey ω, CacheEngineKey.fromParts base.fmt base.modelName
        (intText 10 base.worldSize) (intText 10 base.workerId)
        (intText 16 base.chunkHash) (base.allTags.map methods.tagText) =
          some back ∧ back.isEq methods base = true := by
  obtain ⟨configs, hconfigs, htags⟩ :=
    @CacheEngineKey.configsFrom_tagText _ methods _ base.nodup_allTags hplain
  refine ⟨⟨base.fmt, base.modelName, base.worldSize, base.workerId,
    base.chunkHash, configs⟩, ?_, ?_⟩
  · rw [CacheEngineKey.fromParts, hconfigs, parseInt_intText (by decide) (by decide),
      parseInt_intText (by decide) (by decide), parseInt_intText (by decide) (by decide)]
    rfl
  · rw [CacheEngineKey.isEq_iff]
    refine ⟨rfl, rfl, rfl, rfl, rfl, ?_⟩
    rw [CacheEngineKey.allTags, htags]
    exact ValueMethods.sameTags_self _

theorem fromText_toText (hat : key.NoAt) (hplain : key.Plain) :
    ∃ back, key.fromText (key.toText methods) = some back ∧ back.isEq methods key = true := by
  obtain ⟨base, hbase, heq⟩ := @fromParts_headParts _ methods _ hplain
  have hsplit := @splitOn_toText _ methods key hat hplain
  cases key with
  | chunk key =>
    refine ⟨.chunk base, ?_, heq⟩
    rw [fromText, CacheEngineKey.fromText, hsplit]
    exact congrArg (Option.map AnyKey.chunk) hbase
  | layer key =>
    refine ⟨.layer { base with layerId := key.layerId }, ?_, ?_⟩
    · have hlayer : LayerCacheEngineKey.fromText ((AnyKey.layer key).toText methods) =
            some { base with layerId := key.layerId } := by
        rw [LayerCacheEngineKey.fromText, hsplit]
        apply (congrArg (Option.bind · _) hbase).trans
        rw [bind_some, parseInt_intText (by decide) (by decide)]
        rfl
      rw [fromText, hlayer]
      rfl
    · rw [isEq, LayerCacheEngineKey.isEq, Bool.and_eq_true]
      exact ⟨heq, decide_eq_true rfl⟩

end AnyKey

end CatKV
