/-
Multimodal inputs and the keys of their chunks.  The token ids at a
placeholder are replaced by the low 16 bits of the input's hash before they
are hashed, so keys tell inputs apart as far as these bits do.
-/
import CatKV.ChunkKeys
import CatKV.RequestTracker

namespace CatKV

open List Option

variable {ω : Type}

/-- `hex_hash_to_int16`; `none` where `int` raises. -/
def hexHashToInt16 (s : Text) : Option Nat :=
  (parseInt 16 s).map fun value : Int => (value % 0x10000).toNat

/-- A multimodal hash and the placeholder it is written over. -/
structure MmHash where
  identifier : Text
  offset : Nat
  length : Nat
deriving Repr, DecidableEq

def MmHash.feature (hash : MmHash) : Option MmFeature :=
  (hexHashToInt16 hash.identifier).map (⟨·, hash.offset, hash.length⟩)

/-- `apply_mm_hashes_to_token_ids` with the hashes as texts: a placeholder
behind the tokens is passed over before its hash is read. -/
def applyMmHashes (tokenIds : List Nat) (hashes : List MmHash) : Option (List Nat) :=
  hashes.foldlM (fun ids hash =>
    if ids.length ≤ hash.offset then some ids
    else hash.feature.map fun feature =>
      applyMmHashesToTokenIds ids [feature]) tokenIds

def MmFeature.Covers (feature : MmFeature) (position : Nat) : Prop :=
  feature.offset ≤ position ∧ position < feature.offset + feature.length

instance MmFeature.decidableCovers (feature : MmFeature) (position : Nat) :
    Decidable (feature.Covers position) :=
  inferInstanceAs (Decidable (_ ∧ _))

/-- The feature that is written last at a position. -/
def lastCovering (features : List MmFeature) (position : Nat) : Option MmFeature :=
  features.reverse.find? fun feature => decide (feature.Covers position)

theorem applyMmHashesToTokenIds_cons (tokenIds : List Nat)
    (feature : MmFeature) (rest : List MmFeature) :
    applyMmHashesToTokenIds tokenIds (feature :: rest) = applyMmHashesToTokenIds
        (applyMmHashesToTokenIds tokenIds [feature]) rest :=
  rfl

theorem getElem?_applyMmHashesToTokenIds_singleton (tokenIds : List Nat)
    (feature : MmFeature) (position : Nat) :
    (applyMmHashesToTokenIds tokenIds [feature])[position]? = tokenIds[position]?.map fun id =>
        if feature.Covers position then feature.identifier else id := by
  rw [applyMmHashesToTokenIds, foldl_cons, foldl_nil, getElem?_mapIdx]
  rfl

theorem getElem?_applyMmHashesToTokenIds (tokenIds : List Nat)
    (features : List MmFeature) (position : Nat) :
    (applyMmHashesToTokenIds tokenIds features)[position]? = tokenIds[position]?.map fun id =>
        ((lastCovering features position).map (·.identifier)).getD id := by
  induction features generalizing tokenIds with
  | nil =>
    rw [applyMmHashesToTokenIds, foldl_nil]
    exact (congrFun map_id tokenIds[position]?).symm
  | cons feature rest ih =>
    rw [applyMmHashesToTokenIds_cons, ih,
      getElem?_applyMmHashesToTokenIds_singleton, Option.map_map]
    apply congrArg (Option.map · tokenIds[position]?)
    funext id
    rw [Function.comp_apply, lastCovering, lastCovering, reverse_cons, find?_append]
    cases rest.reverse.find? (fun feature => decide (feature.Covers position)) with
    | some last => rfl
    | none =>
      by_cases hcovers : feature.Covers position
      · simp [hcovers]
      · simp [hcovers]

variable {tokenIds : List Nat} {feature : MmFeature}

theorem applyMmHashesToTokenIds_of_length_le (hbehind : tokenIds.length ≤ feature.offset) :
    applyMmHashesToTokenIds tokenIds [feature] = tokenIds := by
  apply ext_getElem?
  intro position
  rw [getElem?_applyMmHashesToTokenIds_singleton]
  by_cases hposition : position < tokenIds.length
  · have hnot : ¬ feature.Covers position := by
      intro hcovers
      have hle := hcovers.1
      omega
    simp [hnot]
  · simp [getElem?_eq_none (Nat.le_of_not_lt hposition)]

variable {hashes : List MmHash} {features : List MmFeature}

theorem applyMmHashes_eq (hread : hashes.map MmHash.feature = features.map some)
    (tokenIds : List Nat) :
    applyMmHashes tokenIds hashes = some (applyMmHashesToTokenIds tokenIds features) := by
  induction hashes generalizing tokenIds features with
  | nil =>
    cases features with
    | nil => rfl
    | cons feature rest => cases hread
  | cons hash rest ih =>
    cases features with
    | nil => cases hread
    | cons feature others =>
      rw [map_cons, map_cons] at hread
      obtain ⟨hfeature, hrest⟩ := List.cons.inj hread
      have hoffset : feature.offset = hash.offset := by
        obtain ⟨value, -, rfl⟩ := map_eq_some_iff.mp hfeature
        rfl
      rw [applyMmHashesToTokenIds_cons, ← ih hrest]
      by_cases hbehind : tokenIds.length ≤ hash.offset
      · rw [applyMmHashesToTokenIds_of_length_le (hoffset ▸ hbehind),
          applyMmHashes, foldlM_cons, if_pos hbehind]
        rfl
      · rw [applyMmHashes, foldlM_cons, if_neg hbehind, hfeature]
        rfl

/-! The keys of a request, with the hashes of its multimodal inputs. -/

def AllHex (hashes : List MmHash) : Prop :=
  ∀ hash ∈ hashes, (hexHashToInt16 hash.identifier).isSome = true

def SamePlaces (hashes others : List MmHash) : Prop :=
  hashes.map (fun hash => (hash.offset, hash.length)) =
    others.map fun hash => (hash.offset, hash.length)

def MmHash.Covers (hash : MmHash) (position : Nat) : Prop :=
  hash.offset ≤ position ∧ position < hash.offset + hash.length

/-- The placeholder with a number covers a position, and none after it
does. -/
structure PlacedAt (hashes : List MmHash) (index : Nat) (hash : MmHash)
    (position : Nat) : Prop where
  found : hashes[index]? = some hash
  covers : hash.Covers position
  last : ∀ (later : Nat) (follower : MmHash), index < later →
    hashes[later]? = some follower → ¬ follower.Covers position

/-- The keys of a prompt with multimodal inputs. -/
def requestKeys (metadata : EngineMetadata) (requestConfigs : Option (RequestConfigs ω))
    (database : ChunkedTokenDatabase Int) (tokenIds : List Nat)
    (hashes : List MmHash) : Option (List (TokenChunk (CacheEngineKey ω))) := do
  processKeys metadata requestConfigs database (← applyMmHashes tokenIds hashes) 0

/-- The token ids `get_num_new_matched_tokens` looks up. -/
def lookupTokenIds (promptTokenIds : List Nat) (hashes : List MmHash)
    (skipLastNTokens : Nat) : Option (List Nat) :=
  (applyMmHashes promptTokenIds hashes).map fun tokenIds =>
    tokenIds.take (tokenIds.length - skipLastNTokens)

theorem AllHex.exists_features (hhex : AllHex hashes) : ∃ features : List MmFeature,
    hashes.map MmHash.feature = features.map some := by
  induction hashes with
  | nil => exact ⟨[], rfl⟩
  | cons hash rest ih =>
    obtain ⟨features, hfeatures⟩ := ih fun other hother => hhex other (mem_cons_of_mem _ hother)
    obtain ⟨value, hvalue⟩ := isSome_iff_exists.mp (hhex hash mem_cons_self)
    refine ⟨⟨value, hash.offset, hash.length⟩ :: features, ?_⟩
    rw [map_cons, map_cons, hfeatures, MmHash.feature, hvalue, map_some]

theorem requestKeys_eq {metadata : EngineMetadata} {requestConfigs : Option (RequestConfigs ω)}
    {database : ChunkedTokenDatabase Int} (hread : hashes.map MmHash.feature = features.map some) :
    requestKeys metadata requestConfigs database tokenIds hashes =
      some (makeKeys metadata requestConfigs (database.chunks
        (applyMmHashesToTokenIds tokenIds features))) := by
  rw [requestKeys, applyMmHashes_eq hread, bind_eq_bind, bind_some, processKeys_zero]

variable {index : Nat} {hash : MmHash}

theorem feature_of_getElem? (hread : hashes.map MmHash.feature = features.map some)
    (hhash : hashes[index]? = some hash) :
    ∃ feature, features[index]? = some feature ∧ hash.feature = some feature := by
  have hat := congrArg (·[index]?) hread
  rw [getElem?_map, getElem?_map, hhash, map_some] at hat
  obtain ⟨feature, hfeature, heq⟩ := map_eq_some_iff.mp hat.symm
  exact ⟨feature, hfeature, heq.symm⟩

variable {position : Nat}

theorem covers_of_feature (hfeature : hash.feature = some feature) :
    feature.Covers position ↔ hash.Covers position := by
  obtain ⟨value, -, rfl⟩ := map_eq_some_iff.mp hfeature
  exact Iff.rfl

theorem lastCovering_eq (hfound : features[index]? = some feature)
    (hcovers : feature.Covers position)
    (hlast : ∀ (later : Nat) (follower : MmFeature), index < later →
      features[later]? = some follower → ¬ follower.Covers position) :
    lastCovering features position = some feature := by
  obtain ⟨hlt, rfl⟩ := List.getElem?_eq_some_iff.mp hfound
  have hsplit : features = features.take index ++ features[index] :: features.drop (index + 1) := by
    rw [← drop_eq_getElem_cons hlt, take_append_drop]
  have hnone : (features.drop (index + 1)).reverse.find?
      (fun feature => decide (feature.Covers position)) = none := by
    rw [find?_eq_none]
    intro follower hfollower
    obtain ⟨steps, hsteps⟩ := mem_iff_getElem?.mp (mem_reverse.mp hfollower)
    rw [getElem?_drop] at hsteps
    simpa using hlast (index + 1 + steps) follower (by omega) hsteps
  rw [lastCovering]
  nth_rewrite 1 [hsplit]
  rw [reverse_append, reverse_cons, append_assoc, find?_append, hnone, none_or, singleton_append,
    find?_cons_of_pos (by simpa using hcovers)]

theorem PlacedAt.getElem? (hplaced : PlacedAt hashes index hash position)
    (hread : hashes.map MmHash.feature = features.map some)
    (hposition : position < tokenIds.length) :
    (applyMmHashesToTokenIds tokenIds features)[position]? = hexHashToInt16 hash.identifier := by
  obtain ⟨feature, hfound, hfeature⟩ := feature_of_getElem? hread hplaced.found
  have hlast : lastCovering features position = some feature := by
    apply lastCovering_eq hfound
    · exact (covers_of_feature hfeature).mpr hplaced.covers
    · intro later follower hlater hfollower hcovers
      have hat := congrArg (·[later]?) hread
      rw [getElem?_map, getElem?_map, hfollower, map_some] at hat
      obtain ⟨source, hsource, hsourceFeature⟩ := map_eq_some_iff.mp hat
      exact hplaced.last later source hlater hsource ((covers_of_feature hsourceFeature).mp hcovers)
  obtain ⟨value, hvalue, rfl⟩ := map_eq_some_iff.mp hfeature
  rw [getElem?_applyMmHashesToTokenIds, hlast, hvalue, getElem?_eq_getElem hposition]
  rfl

theorem PlacedAt.samePlaces {others : List MmHash} (hsame : SamePlaces hashes others)
    {other : MmHash} (hplaced : PlacedAt hashes index hash position)
    (hother : others[index]? = some other) : PlacedAt others index other position := by
  have hplaces : ∀ (number : Nat) (second : MmHash),
      others[number]? = some second → ∃ first, hashes[number]? = some first ∧
        (first.Covers position ↔ second.Covers position) := by
    intro number second hsecond
    have hat := congrArg (·[number]?) hsame
    rw [getElem?_map, getElem?_map, hsecond, map_some] at hat
    obtain ⟨first, hfirst, heq⟩ := map_eq_some_iff.mp hat
    obtain ⟨hoffset, hlength⟩ := Prod.mk.inj heq
    refine ⟨first, hfirst, ?_⟩
    rw [MmHash.Covers, MmHash.Covers, hoffset, hlength]
  constructor
  · exact hother
  · obtain ⟨first, hfirst, hiff⟩ := hplaces index other hother
    rw [hplaced.found] at hfirst
    cases hfirst
    exact hiff.mp hplaced.covers
  · intro later follower hlater hfollower hcovers
    obtain ⟨first, hfirst, hiff⟩ := hplaces later follower hfollower
    exact hplaced.last later first hlater hfirst (hiff.mpr hcovers)

theorem isEq_eq_false_of_getElem?_ne {methods : ValueMethods ω} {metadata : EngineMetadata}
    {requestConfigs otherConfigs : Option (RequestConfigs ω)} {database : ChunkedTokenDatabase Int}
    (hhash : database.HashInjective) {tokens others : List Nat}
    (hne : position < tokens.length → tokens[position]? ≠ others[position]?)
    {chunk other : TokenChunk (CacheEngineKey ω)} (hchunk : chunk ∈ makeKeys metadata requestConfigs
      (database.chunks tokens)) (hposition : position < chunk.stop)
    (hother : other ∈ makeKeys metadata otherConfigs
      (database.chunks others)) : chunk.key.isEq methods other.key = false := by
  obtain ⟨index, hindex⟩ := mem_iff_getElem?.mp hchunk
  obtain ⟨number, hnumber⟩ := mem_iff_getElem?.mp hother
  obtain ⟨source, hsource, -, hstop, hkey⟩ := getElem?_makeKeys hindex
  obtain ⟨source', hsource', -, -, hkey'⟩ := getElem?_makeKeys hnumber
  rw [Bool.eq_false_iff]
  intro heq
  rw [hkey, hkey', CacheEngineKey.isEq_iff] at heq
  have hkeys : source.key = source'.key := heq.2.2.2.2.1
  obtain ⟨rfl, htokens⟩ := (database.key_eq_iff hhash hsource hsource').mp hkeys
  have hlength : position < tokens.length := by
    have hrange := (database.getElem?_chunks hsource).2.2.1
    omega
  have hat := congrArg (·[position]?) htokens
  have hstop' : position < source'.stop := by
    have hlengths := congrArg List.length htokens
    rw [length_take, length_take] at hlengths
    omega
  rw [getElem?_take_of_lt (hstop ▸ hposition), getElem?_take_of_lt hstop'] at hat
  exact hne hlength hat

/-- Two requests with the same token ids and places have no key in common
from a placeholder on at which their identifiers are told apart. -/
def IdentifiersApart (methods : ValueMethods ω) (metadata : EngineMetadata)
    (database : ChunkedTokenDatabase Int) (apart : Text → Text → Prop) :
    Prop :=
  ∀ (requestConfigs otherConfigs : Option (RequestConfigs ω))
    (tokenIds : List Nat) (hashes others : List MmHash),
    AllHex hashes → AllHex others → SamePlaces hashes others →
    ∀ (index position : Nat) (hash other : MmHash),
      PlacedAt hashes index hash position → others[index]? = some other →
      apart hash.identifier other.identifier →
      ∃ chunks found, requestKeys metadata requestConfigs database tokenIds hashes = some chunks ∧
          requestKeys metadata otherConfigs database tokenIds others = some found ∧
          ∀ chunk ∈ chunks, position < chunk.stop → ∀ other ∈ found,
            chunk.key.isEq methods other.key = false

/-- What keeps the keys of multimodal requests apart. -/
structure MultimodalApart (methods : ValueMethods ω)
    (metadata : EngineMetadata) (database : ChunkedTokenDatabase Int) :
    Prop where
  identifiers : IdentifiersApart methods metadata database
    fun identifier other => hexHashToInt16 identifier ≠ hexHashToInt16 other
  textOnly : ∀ (requestConfigs otherConfigs : Option (RequestConfigs ω))
    (tokenIds plainIds : List Nat) (hashes : List MmHash), AllHex hashes →
    ∀ (index position : Nat) (hash : MmHash), PlacedAt hashes index hash position →
      plainIds[position]? ≠ hexHashToInt16 hash.identifier →
      ∃ chunks found, requestKeys metadata requestConfigs database tokenIds hashes = some chunks ∧
          requestKeys metadata otherConfigs database plainIds [] = some found ∧
          ∀ chunk ∈ chunks, position < chunk.stop → ∀ other ∈ found,
            chunk.key.isEq methods other.key = false
  sameSubstitution : ∀ (promptTokenIds newTokenIds : List Nat)
    (hashes : List MmHash) (tracker : RequestTracker)
    (skipLastNTokens blockSize chunkSize : Nat) (loadSpec : Option LoadSpec)
    (discardPartialChunks saveDecodeCache : Bool) (reqMeta : ReqMeta),
    hashes.map MmHash.feature = tracker.mmFeatures.map some →
    tracker.tokenIds <+: promptTokenIds ++ newTokenIds →
    (ReqMeta.fromRequestTracker tracker blockSize chunkSize loadSpec
      discardPartialChunks saveDecodeCache).2 = some reqMeta →
    applyMmHashes (tracker.tokenIds.take
        (tracker.numTokensToSave chunkSize discardPartialChunks)) hashes =
      some reqMeta.tokenIds ∧
    ∃ looked, lookupTokenIds promptTokenIds hashes skipLastNTokens = some looked ∧
      ∀ position, position < looked.length → position < reqMeta.tokenIds.length →
          looked[position]? = reqMeta.tokenIds[position]?

/-- With an injective hash the keys of multimodal requests differ as far as
the low 16 bits of the identifiers do, and lookup and worker substitute the
same. -/
theorem multimodalApart_of_hashInjective (methods : ValueMethods ω) (metadata : EngineMetadata)
    {database : ChunkedTokenDatabase Int} (hhash : database.HashInjective) :
    MultimodalApart methods metadata database := by
  constructor
  · intro requestConfigs otherConfigs tokenIds hashes others hhex hhexOthers
      hsame index position hash other hplaced hother hapart
    obtain ⟨features, hfeatures⟩ := hhex.exists_features
    obtain ⟨otherFeatures, hotherFeatures⟩ := hhexOthers.exists_features
    refine ⟨_, _, requestKeys_eq hfeatures, requestKeys_eq hotherFeatures, ?_⟩
    intro chunk hchunk hposition found hfound
    apply isEq_eq_false_of_getElem?_ne hhash _ hchunk hposition hfound
    intro hlength
    rw [length_applyMmHashesToTokenIds] at hlength
    rw [hplaced.getElem? hfeatures hlength,
      (hplaced.samePlaces hsame hother).getElem? hotherFeatures hlength]
    exact hapart
  · intro requestConfigs otherConfigs tokenIds plainIds hashes hhex index position hash hplaced hne
    obtain ⟨features, hfeatures⟩ := hhex.exists_features
    have hplain : ([] : List MmHash).map MmHash.feature = ([] : List MmFeature).map some := rfl
    refine ⟨_, _, requestKeys_eq hfeatures, requestKeys_eq hplain, ?_⟩
    intro chunk hchunk hposition found hfound
    apply isEq_eq_false_of_getElem?_ne hhash _ hchunk hposition hfound
    intro hlength
    rw [length_applyMmHashesToTokenIds] at hlength
    rw [hplaced.getElem? hfeatures hlength]
    exact fun heq => hne heq.symm
  · intro promptTokenIds newTokenIds hashes tracker skipLastNTokens blockSize
      chunkSize loadSpec discardPartialChunks saveDecodeCache reqMeta hread
      hpre hmeta
    rw [fromRequestTracker_tokenIds hmeta, lookupTokenIds,
      applyMmHashes_eq hread, applyMmHashes_eq hread]
    refine ⟨rfl, _, rfl, ?_⟩
    intro position hlooked hworker
    rw [length_take, length_applyMmHashesToTokenIds] at hlooked
    rw [length_applyMmHashesToTokenIds, length_take] at hworker
    rw [getElem?_take_of_lt (by
        rw [length_applyMmHashesToTokenIds]; omega),
      getElem?_applyMmHashesToTokenIds, getElem?_applyMmHashesToTokenIds,
      getElem?_take_of_lt (by omega)]
    obtain ⟨rest, hrest⟩ := hpre
    have hat := congrArg (·[position]?) hrest
    rw [getElem?_append_left (by omega), getElem?_append_left (by omega)] at hat
    rw [hat]

theorem multimodalApart_numberedDatabase : MultimodalApart integerMethods
    ⟨"vllm".toList, "org/model".toList, 1, 0⟩ numberedDatabase :=
  multimodalApart_of_hashInjective integerMethods _ hashInjective_numberedDatabase

/-- Identifiers that differ above their low 16 bits only, and a text that
holds these bits, share the keys. -/
theorem not_identifiersApart_highBits : ¬ IdentifiersApart integerMethods
      ⟨"vllm".toList, "org/model".toList, 1, 0⟩ numberedDatabase
      (fun identifier other => identifier ≠ other) ∧
    applyMmHashes [7, 8, 9] [⟨"10001".toList, 0, 2⟩] = applyMmHashes [1, 1, 9] [] := by
  constructor
  · intro hapart
    have hsubstituted : applyMmHashes [7, 8, 9] [⟨"10001".toList, 0, 2⟩] =
        applyMmHashes [7, 8, 9] [⟨"1".toList, 0, 2⟩] := by decide +kernel
    obtain ⟨chunks, found, hchunks, hfound, hne⟩ := hapart none none [7, 8, 9]
      [⟨"10001".toList, 0, 2⟩] [⟨"1".toList, 0, 2⟩]
      (by unfold AllHex; decide +kernel) (by unfold AllHex; decide +kernel)
      rfl 0 0 _ ⟨"1".toList, 0, 2⟩
      ⟨rfl, ⟨Nat.le_refl 0, by decide⟩, by
        intro later follower hlater hfollower
        rw [getElem?_eq_none (Nat.succ_le_of_lt hlater)] at hfollower
        cases hfollower⟩
      rfl (by decide)
    rw [requestKeys, hsubstituted, ← requestKeys, hfound] at hchunks
    cases hchunks
    have hhex : AllHex [⟨"1".toList, 0, 2⟩] := by
      unfold AllHex
      decide +kernel
    obtain ⟨features, hfeatures⟩ := hhex.exists_features
    have hlength := length_applyMmHashesToTokenIds [7, 8, 9] features
    rw [requestKeys_eq hfeatures] at hfound
    cases hfound
    generalize applyMmHashesToTokenIds [7, 8, 9] features = ids at *
    obtain ⟨source, hsource⟩ : ∃ source, (numberedDatabase.chunks ids)[0]? = some source := by
      refine ⟨_, getElem?_eq_getElem ?_⟩
      rw [numberedDatabase.length_chunks, hlength]
      decide
    obtain ⟨-, -, hstop, -⟩ := numberedDatabase.getElem?_chunks hsource
    have hmem := mem_map_of_mem (f := fun chunk : TokenChunk Int =>
      (⟨chunk.start, chunk.stop, makeKeyByHash
        ⟨"vllm".toList, "org/model".toList, 1, 0⟩ none chunk.key⟩ :
          TokenChunk (CacheEngineKey Int))) (mem_of_getElem? hsource)
    have hself := hne _ hmem (by
      change 0 < source.stop
      rw [hstop, hlength]
      decide) _ hmem
    rw [isEq_makeKeyByHash.mpr rfl] at hself
    cases hself
  · decide +kernel

end CatKV
