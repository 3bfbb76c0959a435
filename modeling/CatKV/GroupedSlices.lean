/-
Grouped compression addresses the right slices.  Joining the tensor groups,
slicing them by global indices, regrouping them by uuid and scattering the
results comes to compressing, for every uuid on its own, the groups that carry
it, each group with the rows of the factors that belong to it.
-/
import CatKV.GroupCompressor

namespace CatKV.Grouped

open List

section Together

variable {α Packed Scale : Type} (compressor : Compressor α Packed Scale)

/-! Groups compressed together, without indices. -/

/-- The key basis of some numbered groups, joined in their order. -/
def Compressor.membersBasis (members : List (Nat × KvRows α)) (uuid : Option Uuid) : KeyBasis α :=
  compressor.keyBasis ((members.head?.map Prod.fst).getD 0) members.length
    (members.map fun member => member.2.key).flatten uuid

def Compressor.valueFactors (basis : KeyBasis α) (member : Nat × KvRows α) : Factors α :=
  compressor.svd (.value member.1) member.2.value basis.rank

/-- Every group takes the rows of `u` that belong to it. -/
def Compressor.memberDicts (basis : KeyBasis α) :
    List (List α) → List (Nat × KvRows α) → List (GroupDict α Packed Scale)
  | _, [] => []
  | keyU, member :: rest =>
    compressor.groupDict basis (keyU.take member.2.key.length)
        (compressor.valueFactors basis member) member.2.key.length ::
      Compressor.memberDicts basis (keyU.drop member.2.key.length) rest

def Compressor.compressTogether (members : List (Nat × KvRows α))
    (uuid : Option Uuid) : List (GroupDict α Packed Scale) :=
  compressor.memberDicts (compressor.membersBasis members uuid)
    (compressor.membersBasis members uuid).factors.u members

/-- Every group of a call has rows, and none of its decompositions throws. -/
def Compressor.Succeeds (members : List (Nat × KvRows α)) : Prop :=
  (∀ first ∈ members.head?, compressor.throws (.key first.1)
      (members.map fun member => member.2.key).flatten (compressor.membersBasis members none).rank =
        false) ∧
    ∀ member ∈ members, member.2.key ≠ [] ∧ compressor.throws (.value member.1) member.2.value
      (compressor.membersBasis members none).rank = false

instance (members : List (Nat × KvRows α)) :
    Decidable (compressor.Succeeds members) := by
  unfold Compressor.Succeeds
  infer_instance

/-- The index ranges of numbered groups that stand one after the other. -/
def rangesFrom : Nat → List (Nat × KvRows α) → List ChunkRange
  | _, [] => []
  | offset, member :: rest =>
    ⟨member.1, offset, offset + member.2.key.length⟩ ::
      rangesFrom (offset + member.2.key.length) rest

variable {compressor}

theorem length_memberDicts (basis : KeyBasis α) (keyU : List (List α))
    (members : List (Nat × KvRows α)) :
    (compressor.memberDicts basis keyU members).length = members.length := by
  induction members generalizing keyU with
  | nil => rfl
  | cons member rest ih =>
    rw [Compressor.memberDicts, length_cons, ih, length_cons]

theorem length_rangesFrom (offset : Nat) (members : List (Nat × KvRows α)) :
    (rangesFrom offset members).length = members.length := by
  induction members generalizing offset with
  | nil => rfl
  | cons member rest ih =>
    rw [rangesFrom, length_cons, ih, length_cons]

theorem compressChunk_eq {basis : KeyBasis α} {keyU valueRows : List (List α)} {range : ChunkRange}
    {chunkLen : Nat} (hbasis : basis.factors.s.length =
      min basis.rank (min basis.seqLen compressor.hiddenDim)) (hkey : keyU.length = chunkLen)
    (hvalue : valueRows.length = chunkLen) (hrange : range.stop - range.start = chunkLen)
    (hinside : chunkLen ≤ basis.seqLen) :
    compressor.compressChunk basis keyU valueRows range =
      if chunkLen ≠ 0 ∧ compressor.throws (.value range.position) valueRows basis.rank = false then
        some (compressor.groupDict basis keyU
          (compressor.svd (.value range.position) valueRows basis.rank)
          chunkLen)
      else none := by
  have hu := compressor.u_length (.value range.position) valueRows basis.rank
  have hs := compressor.s_length (.value range.position) valueRows basis.rank
  have hranks : (basis.factors.s.take (min basis.rank chunkLen)).length =
      ((compressor.svd (.value range.position) valueRows basis.rank).s.take
        (min basis.rank chunkLen)).length := by
    rw [length_take, length_take, hbasis, hs, hvalue]
    omega
  rw [hvalue] at hu
  simp only [Compressor.compressChunk, hrange, hu, hkey, hranks, true_and]

theorem mapM_chunks {basis : KeyBasis α} {value : List (List α)} (hbasis : basis.factors.s.length =
      min basis.rank (min basis.seqLen compressor.hiddenDim))
    (hu : basis.factors.u.length = basis.seqLen) {offset : Nat} {members : List (Nat × KvRows α)}
    (hvalue : value.drop offset =
      (members.map fun member => member.2.value).flatten) (hlength : offset +
      (members.map fun member => member.2.key.length).sum = basis.seqLen) :
    ((rangesFrom offset members).mapM fun range =>
      compressor.compressChunk basis (segment basis.factors.u range.start range.stop)
        (segment value range.start range.stop) range) =
      if ∀ member ∈ members, member.2.key ≠ [] ∧
          compressor.throws (.value member.1) member.2.value basis.rank = false then
        some (compressor.memberDicts basis (basis.factors.u.drop offset) members)
      else none := by
  induction members generalizing offset with
  | nil => simp [rangesFrom, Compressor.memberDicts]
  | cons member rest ih =>
    simp only [map_cons, sum_cons, flatten_cons] at hlength hvalue
    have hrest := @ih (offset + member.2.key.length) (by
      rw [← drop_drop, hvalue, drop_left' member.2.sameLength])
      (by omega)
    have hchunk := @compressChunk_eq _ _ _ compressor basis
      (segment basis.factors.u offset (offset + member.2.key.length))
      member.2.value
      ⟨member.1, offset, offset + member.2.key.length⟩ member.2.key.length
      hbasis (by
        rw [segment, length_take, length_drop, hu]
        omega) member.2.sameLength (Nat.add_sub_cancel_left ..) (by omega)
    have hslice : segment value offset (offset + member.2.key.length) = member.2.value := by
      rw [segment, hvalue, Nat.add_sub_cancel_left, take_left' member.2.sameLength]
    have hkey : segment basis.factors.u offset (offset + member.2.key.length) =
        (basis.factors.u.drop offset).take member.2.key.length := by
      rw [segment, Nat.add_sub_cancel_left]
    simp only [rangesFrom, mapM_cons, hslice, hchunk, hrest]
    simp only [Compressor.memberDicts, hkey, Compressor.valueFactors, drop_drop, forall_mem_cons]
    by_cases hfirst : member.2.key.length ≠ 0 ∧
        compressor.throws (.value member.1) member.2.value basis.rank = false
    · have hfirst' := hfirst
      rw [ne_eq, length_eq_zero_iff] at hfirst'
      by_cases hall : ∀ other ∈ rest, other.2.key ≠ [] ∧
          compressor.throws (.value other.1) other.2.value basis.rank = false
      · rw [if_pos hfirst, if_pos hall, if_pos ⟨hfirst', hall⟩]
        rfl
      · rw [if_pos hfirst, if_neg hall, if_neg (not_and_of_not_right _ hall)]
        rfl
    · have hfirst' := hfirst
      rw [ne_eq, length_eq_zero_iff] at hfirst'
      rw [if_neg hfirst, if_neg (not_and_of_not_left _ hfirst')]
      rfl

/-- Joined groups at their own index ranges are compressed together, unless one
of them is empty or a decomposition throws. -/
theorem compressMultiImpl_cat (members : List (Nat × KvRows α)) (uuid : Option Uuid) :
    compressor.compressMultiImpl (KvRows.cat (members.map Prod.snd)) (rangesFrom 0 members) uuid =
      if compressor.Succeeds members then some (compressor.compressTogether members uuid)
      else none := by
  have hkeys : (KvRows.cat (members.map Prod.snd)).key =
      (members.map fun member => member.2.key).flatten := by
    simp only [KvRows.cat, map_map, Function.comp_def]
  have hvalues : (KvRows.cat (members.map Prod.snd)).value =
      (members.map fun member => member.2.value).flatten := by
    simp only [KvRows.cat, map_map, Function.comp_def]
  cases members with
  | nil => simp [rangesFrom, Compressor.compressMultiImpl, Compressor.Succeeds,
      Compressor.compressTogether, Compressor.memberDicts]
  | cons first rest =>
    have hbasis : compressor.keyBasis first.1 (rest.length + 1)
        (KvRows.cat ((first :: rest).map Prod.snd)).key uuid =
          compressor.membersBasis (first :: rest) uuid := by
      rw [hkeys]
      rfl
    have hchunks := @mapM_chunks _ _ _ compressor (compressor.membersBasis (first :: rest) uuid)
      (KvRows.cat ((first :: rest).map Prod.snd)).value
      (compressor.s_length ..) (compressor.u_length ..) 0 (first :: rest)
      (by rw [drop_zero, hvalues]) (by
        rw [Nat.zero_add]
        simp only [Compressor.membersBasis, Compressor.keyBasis,
          length_flatten, map_map, Function.comp_def])
    rw [drop_zero, rangesFrom] at hchunks
    simp only [rangesFrom, Compressor.compressMultiImpl, length_rangesFrom, hbasis, hchunks]
    rw [hkeys, Compressor.compressTogether]
    by_cases hsucceeds : compressor.Succeeds (first :: rest)
    · have hrows : ((first :: rest).map fun member => member.2.key).flatten ≠ [] := by
        rw [map_cons, flatten_cons]
        exact append_ne_nil_of_left_ne_nil (hsucceeds.2 first mem_cons_self).1 _
      have hthrows := hsucceeds.1 first rfl
      have hvalues : ∀ member ∈ first :: rest, member.2.key ≠ [] ∧ compressor.throws
          (.value member.1) member.2.value (compressor.membersBasis (first :: rest) uuid).rank =
            false := hsucceeds.2
      rw [if_neg, if_pos hvalues, if_pos hsucceeds]
      exact not_or.mpr ⟨hrows, Bool.eq_false_iff.mp hthrows⟩
    · rw [if_neg hsucceeds]
      split
      · rfl
      · next hkey =>
        refine if_neg fun hall => hsucceeds ⟨fun head hhead => ?_, hall⟩
        cases hhead
        exact Bool.eq_false_iff.mpr (not_or.mp hkey).2

end Together

/-! The chunks of the joined groups. -/

section Chunks

variable {α Packed Scale : Type} {compressor : Compressor α Packed Scale}

/-- The index pairs `run_grouped_compression` passes on. -/
def globalIndices (groups : List (KvRows α)) : List (Nat × Nat) :=
  spans 0 (groups.map fun tensors => tensors.key.length)

theorem length_globalIndices (groups : List (KvRows α)) :
    (globalIndices groups).length = groups.length := by
  rw [globalIndices, length_spans, length_map]

theorem globalIndices_ne_nil {groups : List (KvRows α)} (hne : groups ≠ []) :
    globalIndices groups ≠ [] := by
  rwa [ne_eq, ← length_eq_zero_iff, length_globalIndices, length_eq_zero_iff]

/-- The groups at some positions, with the positions. -/
def membersAt (groups : List (KvRows α)) (positions : List Nat) : List (Nat × KvRows α) :=
  positions.filterMap fun position =>
    groups[position]?.map fun group => (position, group)

theorem membersAt_cons {groups : List (KvRows α)} {position : Nat} {group : KvRows α}
    (hgroup : groups[position]? = some group) (rest : List Nat) :
    membersAt groups (position :: rest) = (position, group) :: membersAt groups rest := by
  simp [membersAt, hgroup]

theorem exists_globalIndices {groups : List (KvRows α)} {position : Nat}
    {group : KvRows α} (hgroup : groups[position]? = some group) :
    ∃ span, (globalIndices groups)[position]? = some span ∧ span.2 - span.1 = group.key.length ∧
      (KvRows.cat groups).index span.1 span.2 = group := by
  have hlengths : (groups.map fun tensors => tensors.key.length) =
      (groups.map KvRows.key).map List.length := by
    rw [map_map]
    rfl
  have hvalues : (groups.map fun tensors => tensors.key.length) =
      (groups.map KvRows.value).map List.length := by
    rw [map_map]
    exact map_congr_left fun tensors _ => tensors.sameLength.symm
  have hkeySlices : ((globalIndices groups).map fun span =>
      segment (KvRows.cat groups).key span.1 span.2) = groups.map KvRows.key := by
    rw [globalIndices, map_segment_spans, hlengths]
    exact cut_flatten _
  have hvalueSlices : ((globalIndices groups).map fun span =>
      segment (KvRows.cat groups).value span.1 span.2) = groups.map KvRows.value := by
    rw [globalIndices, map_segment_spans, hvalues]
    exact cut_flatten _
  have hspanLengths := map_sub_spans 0 (groups.map fun tensors => tensors.key.length)
  have hkey := congrArg (·[position]?) hkeySlices
  have hvalue := congrArg (·[position]?) hvalueSlices
  have hlength := congrArg (·[position]?) hspanLengths
  simp only [getElem?_map, hgroup, Option.map_some] at hkey hvalue hlength
  obtain ⟨span, hspan, hkey⟩ := Option.map_eq_some_iff.mp hkey
  rw [hspan, Option.map_some, Option.some.injEq] at hvalue
  change ((globalIndices groups)[position]?).map _ = _ at hlength
  rw [hspan, Option.map_some, Option.some.injEq] at hlength
  exact ⟨span, hspan, hlength, KvRows.ext hkey hvalue⟩

variable {groups : List (KvRows α)} {position : Nat} {group : KvRows α}

theorem chunkAt_cat (hgroup : groups[position]? = some group) :
    chunkAt (KvRows.cat groups) (globalIndices groups) position = group := by
  obtain ⟨span, hspan, -, hchunk⟩ := exists_globalIndices hgroup
  simp only [chunkAt, getD_eq_getElem?_getD, hspan, Option.getD_some]
  exact hchunk

theorem chunkLen_cat (hgroup : groups[position]? = some group) :
    ((globalIndices groups).getD position (0, 0)).2 -
      ((globalIndices groups).getD position (0, 0)).1 = group.key.length := by
  obtain ⟨span, hspan, hlength, -⟩ := exists_globalIndices hgroup
  simp only [getD_eq_getElem?_getD, hspan, Option.getD_some]
  exact hlength

variable {positions : List Nat}

section

variable (hvalid : ∀ position ∈ positions, position < groups.length)

include hvalid

theorem map_chunkAt_cat : positions.map (chunkAt (KvRows.cat groups) (globalIndices groups)) =
    (membersAt groups positions).map Prod.snd := by
  induction positions with
  | nil => rfl
  | cons position rest ih =>
    have hgroup := getElem?_eq_getElem (hvalid position mem_cons_self)
    rw [membersAt_cons hgroup, map_cons, map_cons, chunkAt_cat hgroup, ih fun other hother =>
        hvalid other (mem_cons_of_mem _ hother)]

theorem localRanges_cat : localRanges (globalIndices groups) positions =
    rangesFrom 0 (membersAt groups positions) := by
  have hfrom : ∀ offset, List.zipWith
      (fun position (span : Nat × Nat) => ChunkRange.mk position span.1 span.2)
      positions (spans offset (positions.map fun position =>
        ((globalIndices groups).getD position (0, 0)).2 -
          ((globalIndices groups).getD position (0, 0)).1)) =
      rangesFrom offset (membersAt groups positions) := by
    induction positions with
    | nil => exact fun _ => rfl
    | cons position rest ih =>
      intro offset
      have hgroup := getElem?_eq_getElem (hvalid position mem_cons_self)
      rw [membersAt_cons hgroup, map_cons, chunkLen_cat hgroup, spans,
        zipWith_cons_cons, rangesFrom, ih fun other hother =>
          hvalid other (mem_cons_of_mem _ hother)]
  exact hfrom 0

/-- One call on the chunks at some positions compresses the groups at these
positions together. -/
theorem compressMultiImpl_at (uuid : Option Uuid) : compressor.compressMultiImpl
      (KvRows.cat (positions.map (chunkAt (KvRows.cat groups) (globalIndices groups))))
      (localRanges (globalIndices groups) positions) uuid =
    if compressor.Succeeds (membersAt groups positions) then
      some (compressor.compressTogether (membersAt groups positions) uuid)
    else none := by
  rw [map_chunkAt_cat hvalid, localRanges_cat hvalid, compressMultiImpl_cat]

end

end Chunks

/-! Positions by uuid. -/

/-- The positions of a uuid, in input order. -/
def positionsOf (uuids : List Bytes) (uuid : Bytes) : List Nat :=
  (uuids.zipIdx.filter fun item => item.1 = uuid).map Prod.snd

theorem mem_positionsOf {uuids : List Bytes} {uuid : Bytes} {position : Nat} :
    position ∈ positionsOf uuids uuid ↔ uuids[position]? = some uuid := by
  simp only [positionsOf, mem_map, mem_filter, mem_zipIdx_iff_getElem?, decide_eq_true_eq]
  constructor
  · rintro ⟨⟨found, index⟩, ⟨hfound, rfl⟩, rfl⟩
    exact hfound
  · intro hfound
    exact ⟨(uuid, position), ⟨hfound, rfl⟩, rfl⟩

theorem lt_of_mem_positionsOf {uuids : List Bytes} {uuid : Bytes} {position : Nat}
    (hposition : position ∈ positionsOf uuids uuid) : position < uuids.length :=
  (List.getElem?_eq_some_iff.mp (mem_positionsOf.mp hposition)).1

/-- What the loop over the uuids adds to a grouping. -/
structure GroupsBy (grouping result : Grouping) (items : List (Bytes × Nat)) : Prop where
  standalone : result.standalonePositions = grouping.standalonePositions ++
    (items.filter fun item => item.1 = []).map Prod.snd
  grouped : ∀ uuid, uuid ≠ [] → result.groupedPositions uuid = grouping.groupedPositions uuid ++
      (items.filter fun item => item.1 = uuid).map Prod.snd
  ordered : ∀ uuid, uuid ∈ result.orderedGroupIds ↔ uuid ∈ grouping.orderedGroupIds ∨ (uuid ≠ [] ∧
      grouping.groupedPositions uuid = [] ∧ ∃ item ∈ items, item.1 = uuid)

theorem groupsBy_foldl (items : List (Bytes × Nat)) (grouping : Grouping) :
    GroupsBy grouping (items.foldl Grouping.add grouping) items := by
  induction items generalizing grouping with
  | nil => exact ⟨by simp, by simp, by simp⟩
  | cons item rest ih =>
    have hrest := ih (grouping.add item)
    obtain ⟨uuid, position⟩ := item
    rw [foldl_cons]
    by_cases hempty : uuid = []
    · have hadd : grouping.add (uuid, position) = { grouping with
          standalonePositions := grouping.standalonePositions ++ [position] } := if_pos hempty
      rw [hadd] at hrest ⊢
      refine ⟨?_, ?_, ?_⟩
      · rw [hrest.standalone]
        simp [hempty]
      · intro other hother
        rw [hrest.grouped other hother, filter_cons_of_neg (by simpa [hempty] using hother.symm)]
      · intro other
        rw [hrest.ordered other]
        simp only [exists_mem_cons_iff, hempty]
        grind
    · have hadd : grouping.add (uuid, position) = { grouping with
          orderedGroupIds := if grouping.groupedPositions uuid = [] then
            grouping.orderedGroupIds ++ [uuid] else grouping.orderedGroupIds
          groupedPositions := Function.update grouping.groupedPositions uuid
            (grouping.groupedPositions uuid ++ [position]) } :=
        if_neg hempty
      rw [hadd] at hrest ⊢
      refine ⟨?_, ?_, ?_⟩
      · rw [hrest.standalone, filter_cons_of_neg (by simpa)]
      · intro other hother
        simp only [hrest.grouped other hother, Function.update_apply]
        by_cases hsame : other = uuid
        · simp [hsame]
        · rw [if_neg hsame, filter_cons_of_neg (by simpa using Ne.symm hsame)]
      · intro other
        simp only [hrest.ordered other, Function.update_apply, exists_mem_cons_iff]
        by_cases hsame : other = uuid
        · subst hsame
          by_cases hnew : grouping.groupedPositions other = []
          · simp [hnew, hempty]
          · simp [hnew]
        · rw [if_neg hsame]
          split <;> simp [hsame, Ne.symm hsame]

/-! What a caller is promised. -/

/-- The positions that are compressed together with one: all of them without
uuids, itself alone with an empty uuid, and otherwise those of its uuid. -/
def sharing (uuids : List Bytes) (groupCount position : Nat) : List Nat :=
  match uuids[position]? with
  | none => List.range groupCount
  | some [] => [position]
  | some (byte :: rest) => positionsOf uuids (byte :: rest)

/-- The uuid tensor of a named group. -/
def namedUuid (uuids : List Bytes) (position : Nat) : Option Uuid :=
  match uuids[position]? with
  | some (byte :: rest) => some (uuidStringToTensor (byte :: rest))
  | _ => none

section Promise

variable {α Packed Scale : Type} (compressor : Compressor α Packed Scale)

def Compressor.memberRank (basis : KeyBasis α) (member : Nat × KvRows α) : Nat :=
  compressor.chunkRank basis (compressor.valueFactors basis member) member.2.key.length

/-- The entries of a group that come from the rows of the key factors from
`start` on and from its own value rows.  Its key factor is that of the basis,
up to the given rank. -/
structure FromRows (basis : KeyBasis α) (keyRank start : Nat)
    (member : Nat × KvRows α) (output : GroupDict α Packed Scale) : Prop where
  uQuantized : output.uQuantized = ((compressor.uRows (compressor.memberRank basis member)
        (segment basis.factors.u start (start + member.2.key.length))).map Prod.fst,
      (compressor.uRows (compressor.memberRank basis member)
        (compressor.valueFactors basis member).u).map Prod.fst)
  uMeta : output.uMeta = ((compressor.uRows (compressor.memberRank basis member)
        (segment basis.factors.u start (start + member.2.key.length))).map Prod.snd,
      (compressor.uRows (compressor.memberRank basis member)
        (compressor.valueFactors basis member).u).map Prod.snd)
  valueSvQuantized : output.valueSvQuantized =
    ((compressor.svRows (compressor.valueFactors basis member)
      (compressor.memberRank basis member)).map compressor.quantizeRow).map Prod.fst
  valueSvMeta : output.valueSvMeta = ((compressor.svRows (compressor.valueFactors basis member)
      (compressor.memberRank basis member)).map compressor.quantizeRow).map Prod.snd
  valueResidualSv : output.valueResidualSv =
    (compressor.svRows (compressor.valueFactors basis member)
      (compressor.memberRank basis member)).take (compressor.residualDim
        (compressor.valueFactors basis member) basis.rank basis.seqLen)
  keySvQuantized : output.keySvQuantized = ((compressor.svRows basis.factors keyRank).map
    compressor.quantizeRow).map Prod.fst
  keySvMeta : output.keySvMeta = ((compressor.svRows basis.factors keyRank).map
    compressor.quantizeRow).map Prod.snd
  keyResidualSv : output.keyResidualSv =
    (compressor.svRows basis.factors keyRank).take basis.residualDim
  uuid : output.uuid = basis.uuid

/-- The rank of the key factor that a group is given: its own, and in a named
group the largest of its members'. -/
def Compressor.keyRank (members : List (Nat × KvRows α)) (member : Nat × KvRows α) :
    Option Uuid → Nat
  | none => compressor.memberRank (compressor.membersBasis members none) member
  | some uuid => (members.map (compressor.memberRank
    (compressor.membersBasis members (some uuid)))).max?.getD 0

/-- The output of a position, with the groups that share its uuid before and
after it. -/
def Addressed (groups : List (KvRows α)) (uuids : List Bytes)
    (position : Nat) (output : GroupDict α Packed Scale) : Prop :=
  ∃ group before after, groups[position]? = some group ∧
    membersAt groups (sharing uuids groups.length position) = before ++ (position, group) :: after ∧
    FromRows compressor (compressor.membersBasis (before ++ (position, group) :: after)
        (namedUuid uuids position))
      (compressor.keyRank (before ++ (position, group) :: after) (position, group)
        (namedUuid uuids position))
      (before.map fun member => member.2.key.length).sum (position, group)
      output

/-- One output for every group, in input order, from the right rows. -/
def RightSlices (groups : List (KvRows α)) (uuids : List Bytes)
    (outputs : List (Option (GroupDict α Packed Scale))) : Prop :=
  outputs.length = groups.length ∧ ∀ position < groups.length, ∃ output,
      outputs[position]? = some (some output) ∧
      Addressed compressor groups uuids position output

variable {compressor}

theorem getElem?_memberDicts (basis : KeyBasis α) (keyU : List (List α))
    (before : List (Nat × KvRows α)) (member : Nat × KvRows α) (after : List (Nat × KvRows α)) :
    (compressor.memberDicts basis keyU (before ++ member :: after))[before.length]? =
      some (compressor.groupDict basis
        (segment keyU (before.map fun other => other.2.key.length).sum
          ((before.map fun other => other.2.key.length).sum + member.2.key.length))
        (compressor.valueFactors basis member) member.2.key.length) := by
  induction before generalizing keyU with
  | nil => simp [Compressor.memberDicts, segment]
  | cons first before ih =>
    rw [cons_append, Compressor.memberDicts, length_cons, getElem?_cons_succ, ih]
    simp only [segment, drop_drop, map_cons, sum_cons, Nat.add_sub_cancel_left]

theorem fromRows_groupDict (basis : KeyBasis α) (start : Nat) (member : Nat × KvRows α) :
    FromRows compressor basis (compressor.memberRank basis member) start member
      (compressor.groupDict basis (segment basis.factors.u start (start + member.2.key.length))
        (compressor.valueFactors basis member) member.2.key.length) :=
  ⟨rfl, rfl, rfl, rfl, rfl, rfl, rfl, rfl, rfl⟩

variable {member : Nat × KvRows α} {output : GroupDict α Packed Scale}

theorem FromRows.withKeySv {basis : KeyBasis α} {keyRank otherRank start otherStart : Nat}
    {other : Nat × KvRows α} {source : GroupDict α Packed Scale}
    (hrows : FromRows compressor basis keyRank start member output)
    (hsource : FromRows compressor basis otherRank otherStart other source) :
    FromRows compressor basis otherRank start member (output.withKeySv source) :=
  ⟨hrows.uQuantized, hrows.uMeta, hrows.valueSvQuantized, hrows.valueSvMeta,
    hrows.valueResidualSv, hsource.keySvQuantized, hsource.keySvMeta, hsource.keyResidualSv,
    hrows.uuid⟩

variable {uuid : Option Uuid}

theorem fromRows_compressTogether {before after : List (Nat × KvRows α)}
    (houtput : (compressor.compressTogether (before ++ member :: after)
      uuid)[before.length]? = some output) :
    FromRows compressor (compressor.membersBasis (before ++ member :: after) uuid)
      (compressor.memberRank (compressor.membersBasis (before ++ member :: after) uuid) member)
      (before.map fun other => other.2.key.length).sum member output := by
  rw [Compressor.compressTogether, getElem?_memberDicts] at houtput
  cases houtput
  exact fromRows_groupDict _ _ _

theorem exists_split_getElem? {β : Type} {items : List β} {index : Nat}
    {item : β} (hitem : items[index]? = some item) :
    ∃ before after, items = before ++ item :: after ∧ before.length = index := by
  obtain ⟨hindex, rfl⟩ := List.getElem?_eq_some_iff.mp hitem
  refine ⟨items.take index, items.drop (index + 1), ?_, ?_⟩
  · rw [getElem_cons_drop, take_append_drop]
  · rw [length_take]
    omega

theorem exists_fromRows {members : List (Nat × KvRows α)} {index : Nat}
    (hmember : members[index]? = some member)
    (houtput : (compressor.compressTogether members uuid)[index]? = some output) :
    ∃ start, FromRows compressor (compressor.membersBasis members uuid)
      (compressor.memberRank (compressor.membersBasis members uuid) member) start member
        output := by
  obtain ⟨before, after, rfl, rfl⟩ := exists_split_getElem? hmember
  exact ⟨_, fromRows_compressTogether houtput⟩

/-! The largest rank. -/

theorem foldl_larger (items : List (Nat × Nat)) (best : Nat × Nat) :
    let found := items.foldl (fun best item =>
      if item.1 > best.1 then item else best) best
    (found = best ∨ found ∈ items) ∧ best.1 ≤ found.1 ∧ ∀ item ∈ items, item.1 ≤ found.1 := by
  induction items generalizing best with
  | nil => simp
  | cons item rest ih =>
    obtain ⟨hmem, hbest, hrest⟩ := ih (if item.1 > best.1 then item else best)
    dsimp only at hmem hbest hrest ⊢
    rw [foldl_cons]
    have hitem : item.1 ≤ (if item.1 > best.1 then item else best).1 ∧
        best.1 ≤ (if item.1 > best.1 then item else best).1 := by
      split <;> omega
    refine ⟨?_, by omega, ?_⟩
    · cases hmem with
      | inl heq =>
        rw [heq]
        split
        · exact Or.inr mem_cons_self
        · exact Or.inl rfl
      | inr hin => exact Or.inr (mem_cons_of_mem _ hin)
    · intro other hother
      cases mem_cons.mp hother with
      | inl heq =>
        rw [heq]
        omega
      | inr hin => exact hrest other hin

theorem exists_largestRank {ranks : List Nat} (hne : ranks ≠ []) :
    ∃ largest, ranks[largestRankIndex ranks]? = some largest ∧ ∀ rank ∈ ranks, rank ≤ largest := by
  obtain ⟨hmem, -, hall⟩ := foldl_larger ranks.zipIdx (ranks.headD 0, 0)
  rw [largestRankIndex]
  generalize ranks.zipIdx.foldl _ _ = found at hmem hall ⊢
  refine ⟨found.1, ?_, ?_⟩
  · cases hmem with
    | inl heq =>
      obtain ⟨rank, rest, rfl⟩ := exists_cons_of_ne_nil hne
      rw [heq]
      rfl
    | inr hin => exact mem_zipIdx_iff_getElem?.mp hin
  · intro rank hrank
    obtain ⟨index, hindex⟩ := mem_iff_getElem?.mp hrank
    exact hall (rank, index) (mem_zipIdx_iff_getElem?.mpr hindex)

theorem length_svRows {draw : Draw} {matrix : List (List α)} {rank kept : Nat}
    (hkept : kept ≤ (compressor.svd draw matrix rank).s.length) :
    (compressor.svRows (compressor.svd draw matrix rank) kept).length = kept := by
  have hv := compressor.v_length draw matrix rank
  rw [← compressor.s_length draw matrix rank] at hv
  rw [Compressor.svRows, length_take, length_zipWith, hv, Nat.min_self, Nat.min_eq_left hkept]

/-- The factors of a call are at least as large as those of its groups. -/
theorem memberRank_le {members : List (Nat × KvRows α)} (hmember : member ∈ members) :
    compressor.memberRank (compressor.membersBasis members uuid) member ≤
      (compressor.membersBasis members uuid).factors.s.length := by
  generalize hbasis : compressor.membersBasis members uuid = basis
  have hrank : compressor.memberRank basis member ≤
      (compressor.valueFactors basis member).s.length := by
    refine (Nat.min_le_left ..).trans ?_
    rw [length_take]
    exact Nat.min_le_right ..
  have hvalue : (compressor.valueFactors basis member).s.length = _ :=
    compressor.s_length (.value member.1) member.2.value basis.rank
  have hkey : basis.factors.s.length = min basis.rank
      (min (members.map fun member => member.2.key).flatten.length compressor.hiddenDim) := by
    rw [← hbasis]
    exact compressor.s_length ..
  have hmem : member.2.key ∈ members.map fun member => member.2.key :=
    mem_map.mpr ⟨member, hmember, rfl⟩
  have hlength := (sublist_flatten_of_mem hmem).length_le
  rw [member.2.sameLength] at hvalue
  omega

theorem map_keySvRank (members : List (Nat × KvRows α)) (uuid : Option Uuid) :
    (compressor.compressTogether members uuid).map GroupDict.keySvRank =
      members.map (compressor.memberRank (compressor.membersBasis members uuid)) := by
  have hranks : ∀ member ∈ members, compressor.memberRank (compressor.membersBasis members uuid)
      member ≤ (compressor.membersBasis members uuid).factors.s.length :=
    fun member hmember => memberRank_le hmember
  have hrows : ∀ rank ≤ (compressor.membersBasis members uuid).factors.s.length,
      (compressor.svRows (compressor.membersBasis members uuid).factors rank).length = rank :=
    fun rank hrank => length_svRows hrank
  rw [Compressor.compressTogether]
  generalize compressor.membersBasis members uuid = basis at hranks hrows
  generalize basis.factors.u = keyU
  induction members generalizing keyU with
  | nil => rfl
  | cons first rest ih =>
    rw [forall_mem_cons] at hranks
    rw [Compressor.memberDicts, map_cons, map_cons, ih hranks.2]
    congr 1
    exact (length_map ..).trans ((length_map ..).trans (hrows _ hranks.1))

theorem fromRows_useLargest {uuid : Uuid} {before after : List (Nat × KvRows α)}
    (houtput : (useLargestRankKeySv (compressor.compressTogether
      (before ++ member :: after) (some uuid)))[before.length]? = some output) :
    FromRows compressor (compressor.membersBasis (before ++ member :: after) (some uuid))
      (compressor.keyRank (before ++ member :: after) member (some uuid))
      (before.map fun other => other.2.key.length).sum member output := by
  generalize hmembers : before ++ member :: after = members at houtput ⊢
  have hne : (compressor.compressTogether members (some uuid)).map GroupDict.keySvRank ≠ [] := by
    rw [map_keySvRank, ← hmembers]
    simp
  obtain ⟨largest, hlargest, hall⟩ := exists_largestRank hne
  have hkeyRank : compressor.keyRank members member (some uuid) = largest := by
    rw [Compressor.keyRank, ← map_keySvRank,
      List.max?_eq_some_iff.mpr ⟨mem_of_getElem? hlargest, hall⟩, Option.getD_some]
  rw [useLargestRankKeySv] at houtput
  generalize largestRankIndex _ = index at hlargest houtput
  rw [map_keySvRank, getElem?_map] at hlargest
  obtain ⟨chosen, hchosen, rfl⟩ := Option.map_eq_some_iff.mp hlargest
  split at houtput
  · next hnone =>
    rw [getElem?_eq_none_iff, Compressor.compressTogether, length_memberDicts] at hnone
    exact absurd (List.getElem?_eq_some_iff.mp hchosen).1 (Nat.not_lt.mpr hnone)
  · next source hsource =>
    rw [getElem?_map] at houtput
    obtain ⟨own, hown, rfl⟩ := Option.map_eq_some_iff.mp houtput
    obtain ⟨_, hother⟩ := exists_fromRows hchosen hsource
    rw [hkeyRank]
    subst hmembers
    exact (fromRows_compressTogether hown).withKeySv hother

end Promise

/-! Scattering the results. -/

section Scatter

variable {β : Type}

/-- Every output that is set has the property of its position, and the
positions of a set are all set. -/
structure OutputsHave (property : Nat → β → Prop) (count : Nat)
    (filled : Nat → Prop) (outputs : List (Option β)) : Prop where
  length : outputs.length = count
  sound : ∀ position output, outputs[position]? = some (some output) → property position output
  complete : ∀ position < count, filled position → ∃ output, outputs[position]? = some (some output)

variable {property : Nat → β → Prop} {filled : Nat → Prop} {outputs : List (Option β)}

theorem OutputsHave.set {count : Nat} (houtputs : OutputsHave property count filled outputs)
    {position : Nat} {output : β} (houtput : property position output) :
    OutputsHave property count (fun other => filled other ∨ other = position)
      (outputs.set position (some output)) := by
  have hlookup : ∀ other, (outputs.set position (some output))[other]? =
      if position = other then
        if position < outputs.length then some (some output) else none
      else outputs[other]? := fun other => getElem?_set
  refine ⟨by rw [length_set, houtputs.length], ?_, ?_⟩
  · intro other found hfound
    rw [hlookup] at hfound
    split at hfound
    · next hsame =>
      split at hfound
      · cases hfound
        exact hsame ▸ houtput
      · cases hfound
    · exact houtputs.sound other found hfound
  · intro other hother hfilled
    rw [hlookup]
    by_cases hsame : position = other
    · rw [if_pos hsame, if_pos (by rw [houtputs.length, hsame]; exact hother)]
      exact ⟨output, rfl⟩
    · rw [if_neg hsame]
      exact houtputs.complete other hother (hfilled.resolve_right (Ne.symm hsame))

theorem OutputsHave.scatter {count : Nat} (houtputs : OutputsHave property count filled outputs)
    {positions : List Nat} {results : List β} (hlength : positions.length ≤ results.length)
    (hresults : ∀ (index : Nat) position result, positions[index]? = some position →
      results[index]? = some result → property position result) :
    OutputsHave property count (fun other => filled other ∨ other ∈ positions)
      (scatter outputs positions results) := by
  induction positions generalizing filled outputs results with
  | nil => simpa [Grouped.scatter] using houtputs
  | cons position rest ih =>
    cases results with
    | nil => cases hlength
    | cons result results =>
      have hset := houtputs.set (hresults 0 position result rfl rfl)
      have hrest := ih hset (Nat.le_of_succ_le_succ hlength) fun index => hresults (index + 1)
      refine ⟨hrest.length, hrest.sound, fun other hother hfilled => ?_⟩
      apply hrest.complete other hother
      rcases hfilled with hbefore | hmem
      · exact .inl (.inl hbefore)
      · rcases mem_cons.mp hmem with rfl | hmem
        · exact .inl (.inr rfl)
        · exact .inr hmem

/-- A call returns a result with the property for every place. -/
def Fills (property : Nat → β → Prop) (places : List Nat) (returned : Option (List β)) : Prop :=
  ∃ results, returned = some results ∧ places.length ≤ results.length ∧
    ∀ (index : Nat) position result, places[index]? = some position →
      results[index]? = some result → property position result

variable {γ : Type} (call : γ → Option (List β)) (places : γ → List Nat)

theorem OutputsHave.foldlM {count : Nat} (houtputs : OutputsHave property count filled outputs)
    (calls : List γ) (hcalls : ∀ item ∈ calls, Fills property (places item) (call item)) :
    ∃ final, calls.foldlM (fun outputs item =>
        (call item).map (Grouped.scatter outputs (places item))) outputs = some final ∧
      OutputsHave property count (fun position => filled position ∨
        ∃ item ∈ calls, position ∈ places item) final := by
  induction calls generalizing filled outputs with
  | nil => exact ⟨outputs, rfl, by simpa using houtputs⟩
  | cons item rest ih =>
    obtain ⟨results, hcall, hlength, hresults⟩ := hcalls item mem_cons_self
    obtain ⟨final, hfinal, hhave⟩ := ih (houtputs.scatter hlength hresults) fun other hother =>
        hcalls other (mem_cons_of_mem _ hother)
    refine ⟨final, ?_, hhave.length, hhave.sound, fun position hposition hfilled => ?_⟩
    · rw [foldlM_cons, hcall]
      exact hfinal
    · apply hhave.complete position hposition
      rcases hfilled with hbefore | ⟨other, hother, hmem⟩
      · exact .inl (.inl hbefore)
      · rcases mem_cons.mp hother with rfl | hother
        · exact .inl (.inr hmem)
        · exact .inr ⟨other, hother, hmem⟩

theorem foldlM_eq_none {calls : List γ} {item : γ} (hitem : item ∈ calls)
    (hfails : call item = none) (outputs : List (Option β)) :
    calls.foldlM (fun outputs item =>
      (call item).map (scatter outputs (places item))) outputs = none := by
  induction calls generalizing outputs with
  | nil => cases hitem
  | cons first rest ih =>
    rw [foldlM_cons]
    rcases mem_cons.mp hitem with rfl | hrest
    · rw [hfails]
      rfl
    · cases hcall : call first with
      | none => rfl
      | some results => exact ih hrest _

end Scatter

/-! The calls of `compress_multi`. -/

section Calls

variable {α Packed Scale : Type} {compressor : Compressor α Packed Scale}
variable {groups : List (KvRows α)} {uuids : List Bytes}

variable {positions : List Nat} {position : Nat}

theorem getElem?_membersAt (hvalid : ∀ position ∈ positions, position < groups.length) {index : Nat}
    (hposition : positions[index]? = some position) :
    ∃ group, groups[position]? = some group ∧
      (membersAt groups positions)[index]? = some (position, group) := by
  induction positions generalizing index with
  | nil => cases hposition
  | cons first rest ih =>
    have hfirst := getElem?_eq_getElem (hvalid first mem_cons_self)
    rw [membersAt_cons hfirst]
    cases index with
    | zero =>
      cases hposition
      exact ⟨_, hfirst, rfl⟩
    | succ index =>
      exact ih (fun other hother =>
        hvalid other (mem_cons_of_mem _ hother)) hposition

theorem length_membersAt (hvalid : ∀ position ∈ positions, position < groups.length) :
    (membersAt groups positions).length = positions.length := by
  induction positions with
  | nil => rfl
  | cons first rest ih =>
    rw [membersAt_cons (getElem?_eq_getElem (hvalid first mem_cons_self)), length_cons, length_cons,
      ih fun other hother => hvalid other (mem_cons_of_mem _ hother)]

theorem addressed_of_fromRows {uuid : Option Uuid}
    (results : List (Nat × KvRows α) → List (GroupDict α Packed Scale))
    (hvalid : ∀ position ∈ positions, position < groups.length)
    (hresults : ∀ {before member after output},
      (results (before ++ member :: after))[before.length]? = some output →
      FromRows compressor (compressor.membersBasis (before ++ member :: after) uuid)
        (compressor.keyRank (before ++ member :: after) member uuid)
        (before.map fun other => other.2.key.length).sum member output) {index : Nat}
    {output : GroupDict α Packed Scale} (hposition : positions[index]? = some position)
    (hsharing : sharing uuids groups.length position = positions)
    (huuid : namedUuid uuids position = uuid)
    (houtput : (results (membersAt groups positions))[index]? = some output) :
    Addressed compressor groups uuids position output := by
  obtain ⟨group, hgroup, hmember⟩ := getElem?_membersAt hvalid hposition
  obtain ⟨before, after, hsplit, rfl⟩ := exists_split_getElem? hmember
  rw [hsplit] at houtput
  refine ⟨group, before, after, hgroup, ?_, ?_⟩
  · rw [hsharing]
    exact hsplit
  · rw [huuid]
    exact hresults houtput

theorem cat_singleton (rows : KvRows α) : KvRows.cat [rows] = rows := by
  apply KvRows.ext <;> simp [KvRows.cat]

theorem compressStandalone_cat (hposition : position < groups.length) :
    compressor.compressStandalone (KvRows.cat groups) (globalIndices groups) position =
      if compressor.Succeeds (membersAt groups [position]) then
        some (compressor.compressTogether (membersAt groups [position]) none)
      else none := by
  rw [← compressMultiImpl_at (by simpa using hposition), map_singleton,
    cat_singleton, Compressor.compressStandalone]
  simp only [localRanges, map_singleton, spans, zipWith_cons_cons, zipWith_nil_right, Nat.zero_add]

theorem compressGroup_cat {groupId : Bytes}
    (hvalid : ∀ position ∈ positions, position < groups.length) :
    compressor.compressGroup (KvRows.cat groups) (globalIndices groups) groupId positions =
      if compressor.Succeeds (membersAt groups positions) then
        some (useLargestRankKeySv (compressor.compressTogether (membersAt groups positions)
          (some (uuidStringToTensor groupId))))
      else none := by
  rw [Compressor.compressGroup, compressMultiImpl_at hvalid]
  split <;> rfl

theorem length_useLargest (payloads : List (GroupDict α Packed Scale)) :
    (useLargestRankKeySv payloads).length = payloads.length := by
  unfold useLargestRankKeySv
  split
  · rfl
  · exact length_map ..

theorem compressAll_cat : compressor.compressMultiImpl (KvRows.cat groups)
      ((globalIndices groups).zipIdx.map fun item =>
        ⟨item.2, item.1.1, item.1.2⟩) none =
    if compressor.Succeeds (membersAt groups (List.range groups.length)) then
      some (compressor.compressTogether (membersAt groups (List.range groups.length)) none)
    else none := by
  have hvalid : ∀ position ∈ List.range groups.length,
      position < groups.length := fun position hposition =>
    mem_range.mp hposition
  have hgroups : (List.range groups.length).map
      (chunkAt (KvRows.cat groups) (globalIndices groups)) = groups := by
    apply ext_getElem (by simp)
    intro position hposition hgroup
    rw [getElem_map, getElem_range]
    exact chunkAt_cat (getElem?_eq_getElem hgroup)
  have hlengths : ((List.range groups.length).map fun position =>
      ((globalIndices groups).getD position (0, 0)).2 -
        ((globalIndices groups).getD position (0, 0)).1) =
          groups.map fun tensors => tensors.key.length := by
    apply ext_getElem (by simp)
    intro position hposition hgroup
    rw [getElem_map, getElem_range, getElem_map]
    exact chunkLen_cat (getElem?_eq_getElem (by simpa using hgroup))
  have hranges : ((globalIndices groups).zipIdx.map fun item =>
      (⟨item.2, item.1.1, item.1.2⟩ : ChunkRange)) =
        localRanges (globalIndices groups) (List.range groups.length) := by
    rw [localRanges, hlengths, ← globalIndices]
    apply ext_getElem (by simp [length_globalIndices])
    intro position hposition hrange
    simp
  rw [← compressMultiImpl_at hvalid, hgroups, hranges]

end Calls

/-! Whole runs. -/

section Runs

variable {α Packed Scale : Type} {compressor : Compressor α Packed Scale}
variable {groups : List (KvRows α)} {uuids : List Bytes}

theorem length_compressTogether (members : List (Nat × KvRows α)) (uuid : Option Uuid) :
    (compressor.compressTogether members uuid).length = members.length :=
  length_memberDicts _ _ _

variable {position : Nat}

theorem namedUuid_of_ne {uuid : Bytes} (hposition : uuids[position]? = some uuid)
    (hnamed : uuid ≠ []) : namedUuid uuids position = some (uuidStringToTensor uuid) := by
  cases uuid with
  | nil => exact absurd rfl hnamed
  | cons byte rest => simp only [namedUuid, hposition]

theorem sharing_of_ne {uuid : Bytes} (hposition : uuids[position]? = some uuid) (hnamed : uuid ≠ [])
    (count : Nat) : sharing uuids count position = positionsOf uuids uuid := by
  cases uuid with
  | nil => exact absurd rfl hnamed
  | cons byte rest => simp only [sharing, hposition]

theorem groupPositions_spec (uuids : List Bytes) :
    (groupPositions uuids).standalonePositions = positionsOf uuids [] ∧ (∀ uuid, uuid ≠ [] →
        (groupPositions uuids).groupedPositions uuid = positionsOf uuids uuid) ∧
      ∀ uuid, uuid ∈ (groupPositions uuids).orderedGroupIds ↔ uuid ≠ [] ∧ uuid ∈ uuids := by
  have hgroups := groupsBy_foldl uuids.zipIdx ⟨[], [], fun _ => []⟩
  refine ⟨hgroups.standalone, hgroups.grouped, fun uuid => ?_⟩
  have hordered := hgroups.ordered uuid
  simp only [not_mem_nil, false_or, true_and] at hordered
  rw [groupPositions, hordered]
  apply and_congr_right
  intro _
  constructor
  · rintro ⟨item, hitem, rfl⟩
    exact mem_of_getElem? (mem_zipIdx_iff_getElem?.mp hitem)
  · intro hmem
    obtain ⟨position, hposition⟩ := mem_iff_getElem?.mp hmem
    exact ⟨(uuid, position), mem_zipIdx_iff_getElem?.mpr hposition, rfl⟩

section Succeeds

variable (hlength : uuids.length = groups.length)
  (hsucceeds : ∀ position < groups.length, compressor.Succeeds
    (membersAt groups (sharing uuids groups.length position)))

include hlength hsucceeds

theorem fills_standalone (hposition : position ∈ positionsOf uuids []) :
    Fills (Addressed compressor groups uuids) [position]
      (compressor.compressStandalone (KvRows.cat groups) (globalIndices groups) position) := by
  have hvalid : ∀ other ∈ [position], other < groups.length := by
    simpa [← hlength] using lt_of_mem_positionsOf hposition
  have huuid := mem_positionsOf.mp hposition
  have halone : sharing uuids groups.length position = [position] := by
    simp only [sharing, huuid]
  have hcall := halone ▸ hsucceeds position (hvalid position mem_cons_self)
  refine ⟨compressor.compressTogether (membersAt groups [position]) none, ?_, ?_, ?_⟩
  · rw [compressStandalone_cat (hvalid position mem_cons_self), if_pos hcall]
  · rw [length_compressTogether, length_membersAt hvalid]
  · intro index place result hplace hresult
    have hsame : place = position := mem_singleton.mp (mem_of_getElem? hplace)
    subst hsame
    have hunnamed : namedUuid uuids place = none := by
      simp only [namedUuid, huuid]
    exact addressed_of_fromRows (compressor.compressTogether · none) hvalid
      fromRows_compressTogether hplace halone hunnamed hresult

theorem fills_group {uuid : Bytes} (hnamed : uuid ≠ []) (hmem : uuid ∈ uuids) :
    Fills (Addressed compressor groups uuids) (positionsOf uuids uuid)
      (compressor.compressGroup (KvRows.cat groups) (globalIndices groups) uuid
        (positionsOf uuids uuid)) := by
  have hvalid : ∀ other ∈ positionsOf uuids uuid, other < groups.length :=
    fun other hother => hlength ▸ lt_of_mem_positionsOf hother
  obtain ⟨position, huuid⟩ := mem_iff_getElem?.mp hmem
  have hcall := hsucceeds position (hvalid position (mem_positionsOf.mpr huuid))
  rw [sharing_of_ne huuid hnamed] at hcall
  refine ⟨useLargestRankKeySv (compressor.compressTogether
    (membersAt groups (positionsOf uuids uuid))
    (some (uuidStringToTensor uuid))), ?_, ?_, ?_⟩
  · rw [compressGroup_cat hvalid, if_pos hcall]
  · rw [length_useLargest, length_compressTogether, length_membersAt hvalid]
  · intro index place result hplace hresult
    have huuid := mem_positionsOf.mp (mem_of_getElem? hplace)
    exact addressed_of_fromRows (fun members => useLargestRankKeySv
        (compressor.compressTogether members (some (uuidStringToTensor uuid)))) hvalid
      fromRows_useLargest hplace (sharing_of_ne huuid hnamed _) (namedUuid_of_ne huuid hnamed)
      hresult

theorem compressMulti_named (hgroups : groups ≠ []) :
    ∃ outputs, compressor.compressMulti (KvRows.cat groups)
        (globalIndices groups) uuids = some outputs ∧
      RightSlices compressor groups uuids outputs := by
  obtain ⟨hstandalone, hgrouped, hordered⟩ := groupPositions_spec uuids
  have hcount := length_globalIndices groups
  have hindices := globalIndices_ne_nil hgroups
  have huuids : uuids ≠ [] := by
    rwa [ne_eq, ← length_eq_zero_iff, hlength, length_eq_zero_iff]
  have hstart : OutputsHave (Addressed compressor groups uuids) groups.length
      (fun _ => False) (List.replicate (globalIndices groups).length none) := by
    refine ⟨by rw [length_replicate, hcount], ?_, by simp⟩
    intro position output houtput
    rw [getElem?_replicate] at houtput
    split at houtput <;> cases houtput
  obtain ⟨middle, hmiddle, hhave⟩ := OutputsHave.foldlM
    (compressor.compressStandalone (KvRows.cat groups) (globalIndices groups))
    (fun position => [position]) hstart
    (groupPositions uuids).standalonePositions (by
      intro position hposition
      rw [hstandalone] at hposition
      exact fills_standalone hlength hsucceeds hposition)
  obtain ⟨final, hfinal, hall⟩ := OutputsHave.foldlM
    (fun groupId => compressor.compressGroup (KvRows.cat groups) (globalIndices groups) groupId
        ((groupPositions uuids).groupedPositions groupId))
    (groupPositions uuids).groupedPositions hhave
    (groupPositions uuids).orderedGroupIds (by
      intro groupId hgroupId
      obtain ⟨hnamed, hmem⟩ := (hordered groupId).mp hgroupId
      rw [hgrouped groupId hnamed]
      exact fills_group hlength hsucceeds hnamed hmem)
  refine ⟨final, ?_, hall.length, fun position hposition => ?_⟩
  · simp only [Compressor.compressMulti, if_neg hindices, if_neg huuids,
      hlength, hcount, ne_eq, not_true_eq_false, and_false, if_false]
    rw [hcount] at hmiddle
    simp only [hmiddle]
    exact hfinal
  · -- an empty uuid is met by the first loop, any other by the second
    have huuid := getElem?_eq_getElem (hlength ▸ hposition)
    obtain ⟨output, houtput⟩ := hall.complete position hposition (by
      by_cases hempty : uuids[position] = []
      · refine .inl (.inr ⟨position, ?_, mem_cons_self⟩)
        rw [hstandalone, mem_positionsOf, huuid, hempty]
      · refine .inr ⟨uuids[position], (hordered _).mpr ⟨hempty, getElem_mem _⟩, ?_⟩
        rw [hgrouped _ hempty, mem_positionsOf, huuid])
    exact ⟨output, houtput, hall.sound position output houtput⟩

end Succeeds

theorem compressMulti_unnamed (hgroups : groups ≠ []) (hsucceeds : compressor.Succeeds
    (membersAt groups (List.range groups.length))) :
    ∃ outputs, compressor.compressMulti (KvRows.cat groups)
        (globalIndices groups) [] = some outputs ∧
      RightSlices compressor groups [] outputs := by
  have hindices := globalIndices_ne_nil hgroups
  have hvalid : ∀ position ∈ List.range groups.length,
      position < groups.length := fun position hposition =>
    mem_range.mp hposition
  have hresults : (compressor.compressTogether
      (membersAt groups (List.range groups.length)) none).length = groups.length := by
    rw [length_compressTogether, length_membersAt hvalid, length_range]
  refine ⟨(compressor.compressTogether
    (membersAt groups (List.range groups.length)) none).map some, ?_, ?_, ?_⟩
  · simp only [Compressor.compressMulti, if_neg hindices, ne_eq,
      not_true_eq_false, false_and, if_false, if_true]
    rw [compressAll_cat, if_pos hsucceeds]
    rfl
  · rw [length_map, hresults]
  · intro position hposition
    have houtput := getElem?_eq_getElem (hresults ▸ hposition)
    refine ⟨_, by rw [getElem?_map, houtput]; rfl, ?_⟩
    have hposition' : (List.range groups.length)[position]? = some position := by
      rw [getElem?_range hposition]
    have hall : sharing [] groups.length position = List.range groups.length := rfl
    exact addressed_of_fromRows (compressor.compressTogether · none) hvalid
      fromRows_compressTogether hposition' hall rfl houtput

theorem compressMulti_of_fails (hlength : uuids = [] ∨ uuids.length = groups.length)
    (hposition : position < groups.length) (hfails : ¬ compressor.Succeeds
      (membersAt groups (sharing uuids groups.length position))) :
    compressor.compressMulti (KvRows.cat groups) (globalIndices groups) uuids = none := by
  unfold Compressor.compressMulti
  split
  · rfl
  · split
    · rfl
    · split
      · next hunnamed =>
        subst hunnamed
        have hall : sharing [] groups.length position = List.range groups.length := rfl
        rw [compressAll_cat, if_neg (hall ▸ hfails)]
        rfl
      · next hnamed =>
        obtain ⟨hstandalone, hgrouped, hordered⟩ := groupPositions_spec uuids
        have hlength := hlength.resolve_left hnamed
        have huuid := getElem?_eq_getElem (hlength ▸ hposition)
        by_cases hunnamed : uuids[position] = []
        · -- its own call throws in the first loop
          have halone : sharing uuids groups.length position = [position] := by
            simp only [sharing, huuid, hunnamed]
          have hcall : compressor.compressStandalone (KvRows.cat groups)
              (globalIndices groups) position = none := by
            rw [compressStandalone_cat hposition, if_neg (halone ▸ hfails)]
          have hmem : position ∈ (groupPositions uuids).standalonePositions := by
            rw [hstandalone, mem_positionsOf, huuid, hunnamed]
          simp only [foldlM_eq_none _ (fun position => [position]) hmem hcall]
        · -- the call of its group throws, unless an earlier one has
          have hvalid : ∀ other ∈ positionsOf uuids uuids[position],
              other < groups.length := fun other hother =>
            hlength ▸ lt_of_mem_positionsOf hother
          have hcall : (fun groupId => compressor.compressGroup
              (KvRows.cat groups) (globalIndices groups) groupId
              ((groupPositions uuids).groupedPositions groupId)) uuids[position] = none := by
            dsimp only
            rw [hgrouped _ hunnamed, compressGroup_cat hvalid,
              if_neg (sharing_of_ne huuid hunnamed _ ▸ hfails)]
          have hmem : uuids[position] ∈ (groupPositions uuids).orderedGroupIds :=
            (hordered _).mpr ⟨hunnamed, getElem_mem _⟩
          dsimp only
          split
          · rfl
          · exact foldlM_eq_none _ _ hmem hcall _

/-- `run_grouped_compression` returns one output for every group, in order and
from the right rows, exactly if no group is empty and no decomposition of the
groups that are compressed together throws. -/
theorem rightSlices_iff (hgroups : groups ≠ [])
    (huuids : uuids = [] ∨ uuids.length = groups.length) :
    (∃ outputs, compressor.runGroupedCompression groups uuids =
        some outputs ∧ RightSlices compressor groups uuids outputs) ↔
      ∀ position < groups.length, compressor.Succeeds
        (membersAt groups (sharing uuids groups.length position)) := by
  have hsizes : ¬ (uuids ≠ [] ∧ uuids.length ≠ groups.length) :=
    fun hboth => huuids.elim hboth.1 hboth.2
  constructor
  · rintro ⟨outputs, houtputs, -⟩ position hposition
    by_contra hfails
    rw [Compressor.runGroupedCompression, if_neg hgroups, if_neg hsizes,
      ← globalIndices, compressMulti_of_fails huuids hposition hfails] at houtputs
    cases houtputs
  · intro hsucceeds
    have hreturns : ∃ outputs, compressor.compressMulti (KvRows.cat groups)
        (globalIndices groups) uuids = some outputs ∧
          RightSlices compressor groups uuids outputs := by
      rcases huuids with rfl | hlength
      · exact compressMulti_unnamed hgroups (hsucceeds 0 (length_pos_iff.mpr hgroups))
      · exact compressMulti_named hlength hsucceeds hgroups
    obtain ⟨outputs, houtputs, hright⟩ := hreturns
    refine ⟨outputs, ?_, hright⟩
    rw [Compressor.runGroupedCompression, if_neg hgroups, if_neg hsizes, ← globalIndices, houtputs]
    exact if_neg (not_not_intro hright.1)

end Runs

/-- A compressor for two columns whose factors repeat the rows and that throws
for rows of zeros. -/
def plainCompressor : Compressor Nat (List Nat) Nat where
  hiddenDim := 2
  svd _ matrix rank :=
    let kept := min rank (min matrix.length 2)
    ⟨matrix.map fun row => (row ++ [0, 0]).take kept, List.replicate kept 1,
      List.replicate kept [1, 1], 0⟩
  throws _ matrix _ := !matrix.isEmpty && matrix.all (·.all (· == 0))
  elbow _ _ _ := 1
  allRank _ _ := 2
  allocateLowRank _ _ _ := (1, 1)
  scaleRow scale row := row.map (scale * ·)
  toOutput value := value
  quantizeRow row := (row, row.sum)
  makeUuid position := [position]
  hiddenDim_pos := Nat.two_pos
  u_length _ _ _ := List.length_map ..
  s_length _ _ _ := List.length_replicate
  v_length _ _ _ := List.length_replicate
  u_width := by
    intro _ matrix rank row hrow
    obtain ⟨source, -, rfl⟩ := List.mem_map.mp hrow
    simp only [List.length_take, List.length_append, List.length_cons, List.length_nil]
    omega

/-- Groups of the given lengths. -/
def groupsOf (lengths : List Nat) : List (KvRows Nat) :=
  lengths.map fun length =>
    ⟨List.replicate length [3, 4], List.replicate length [5, 6], by
      rw [List.length_replicate, List.length_replicate]⟩

/-- Two groups of one uuid around one without. -/
theorem rightSlices_around : ∃ outputs, plainCompressor.runGroupedCompression (groupsOf [1, 2, 3])
      [ascii "g", [], ascii "g"] = some outputs ∧
    RightSlices plainCompressor (groupsOf [1, 2, 3]) [ascii "g", [], ascii "g"] outputs :=
  (rightSlices_iff (by decide) (.inr rfl)).mpr (by decide)

/-- A group without rows, for which `reshape` throws, and a group of zeros, for
which the decomposition throws: no group of the call gets an output. -/
theorem not_rightSlices_emptyGroup : plainCompressor.runGroupedCompression (groupsOf [1, 0])
      [ascii "g", ascii "h"] = none ∧
    plainCompressor.runGroupedCompression [⟨[[0, 0]], [[5, 6]], rfl⟩] [] = none ∧
    ¬ ∃ outputs, plainCompressor.runGroupedCompression (groupsOf [1, 0])
        [ascii "g", ascii "h"] = some outputs ∧
      RightSlices plainCompressor (groupsOf [1, 0]) [ascii "g", ascii "h"] outputs := by
  have hthrows : plainCompressor.runGroupedCompression (groupsOf [1, 0])
      [ascii "g", ascii "h"] = none := by decide +kernel
  refine ⟨hthrows, by decide +kernel, ?_⟩
  rintro ⟨outputs, houtputs, -⟩
  rw [hthrows] at houtputs
  cases houtputs

end CatKV.Grouped
