/-
The copy loop of `get_reuse_kv`.  It counts the payloads it has copied and
writes the next one to the range of that number, so an empty payload moves all
later ones to the range of an earlier chunk.
-/
import CatKV.RequestEffect

namespace CatKV

open List

section Copying

variable {request : ReuseRequest}

/-- The payloads that are not empty. -/
def hitsOf (payloads : List ReusePayload) : List ReusePayload :=
  payloads.filter fun payload => !payload.isEmptyReusePayload

/-- The copy loop without its empty payloads: hit after hit, range after
range. -/
def copyHits (request : ReuseRequest) : List Chunk → List ReusePayload →
    (Nat → Cell) → Option (Nat → Cell)
  | _, [], buffer => some buffer
  | [], _ :: _, _ => none
  | chunk :: chunks, hit :: hits, buffer =>
    if hit.found.Fits request chunk then
      copyHits request chunks hits (copyRange request.inputLen chunk hit.kv buffer)
    else none

theorem copyPayloads_eq_copyHits (active : List Chunk)
    (payloads : List ReusePayload) (idx : Nat) (buffer : Nat → Cell) :
    copyPayloads request active payloads idx buffer =
      copyHits request (active.drop idx) (hitsOf payloads) buffer := by
  induction payloads generalizing idx buffer with
  | nil => simp [copyPayloads, hitsOf, copyHits]
  | cons payload rest ih =>
    cases hempty : payload.isEmptyReusePayload with
    | true =>
      have hskip : hitsOf (payload :: rest) = hitsOf rest := by
        simp [hitsOf, hempty]
      simp only [copyPayloads, hempty, ↓reduceIte, hskip, ih]
    | false =>
      have hhit : hitsOf (payload :: rest) = payload :: hitsOf rest := by
        simp [hitsOf, hempty]
      simp only [copyPayloads, hempty, Bool.false_eq_true, ↓reduceIte, hhit, ih]
      cases hchunk : active[idx]? with
      | none =>
        have hdrop : active.drop idx = [] := drop_eq_nil_iff.mpr (getElem?_eq_none_iff.mp hchunk)
        simp [hdrop, copyHits]
      | some chunk =>
        obtain ⟨hlt, rfl⟩ := List.getElem?_eq_some_iff.mp hchunk
        rw [List.drop_eq_getElem_cons hlt]
        rfl

theorem copyHits_isSome_iff (chunks : List Chunk) (hits : List ReusePayload)
    (buffer : Nat → Cell) (hlength : hits.length ≤ chunks.length) :
    (copyHits request chunks hits buffer).isSome = true ↔
      ∀ pair ∈ hits.zip chunks, pair.1.found.Fits request pair.2 := by
  induction hits generalizing chunks buffer with
  | nil => simp [copyHits]
  | cons hit hits ih =>
    cases chunks with
    | nil => simp at hlength
    | cons chunk chunks =>
      have hrest := ih chunks (copyRange request.inputLen chunk hit.kv buffer)
        (Nat.le_of_succ_le_succ hlength)
      by_cases hfits : hit.found.Fits request chunk
      · simp [copyHits, hfits, hrest]
      · simp [copyHits, hfits]

variable {chunks : List Chunk} {hits : List ReusePayload} {buffer result : Nat → Cell}

section

variable (hcopy : copyHits request chunks hits buffer = some result)

include hcopy

theorem copyHits_untouched {position : Nat}
    (houtside : ∀ chunk ∈ chunks.take hits.length, ¬ chunk.Covers position) :
    result position = buffer position := by
  induction hits generalizing chunks buffer with
  | nil =>
    obtain rfl : buffer = result := by simpa [copyHits] using hcopy
    rfl
  | cons hit hits ih =>
    cases chunks with
    | nil => simp [copyHits] at hcopy
    | cons chunk chunks =>
      unfold copyHits at hcopy
      split at hcopy
      · have hhead := houtside chunk (by simp)
        have hrest := ih hcopy fun other hother =>
          houtside other (by simp [hother])
        rw [hrest, copyRange, if_neg (fun hcovers => hhead hcovers.1)]
      · cases hcopy

theorem copyHits_written (hdisjoint : chunks.Pairwise fun left right =>
      ∀ position, left.Covers position → ¬ right.Covers position)
    {index position : Nat} {chunk : Chunk} {hit : ReusePayload}
    (hchunk : chunks[index]? = some chunk) (hhit : hits[index]? = some hit)
    (hcovers : chunk.Covers position) (hlt : position < request.inputLen) :
    result position = .reused hit.kv (position - chunk.start) := by
  induction hits generalizing chunks buffer index with
  | nil => simp at hhit
  | cons first hits ih =>
    cases chunks with
    | nil => simp at hchunk
    | cons head chunks =>
      unfold copyHits at hcopy
      split at hcopy
      · obtain ⟨hhead, htail⟩ := pairwise_cons.mp hdisjoint
        cases index with
        | zero =>
          simp only [getElem?_cons_zero, Option.some.injEq] at hchunk hhit
          subst hchunk hhit
          rw [copyHits_untouched hcopy fun other hother =>
            hhead other (mem_of_mem_take hother) position hcovers,
            copyRange, if_pos ⟨hcovers, hlt⟩]
        | succ index => exact ih hcopy htail hchunk hhit
      · cases hcopy

theorem copyHits_cell (position : Nat) : result position = buffer position ∨
    ∃ hit ∈ hits, ∃ token, result position = .reused hit.kv token := by
  induction hits generalizing chunks buffer with
  | nil =>
    obtain rfl : buffer = result := by simpa [copyHits] using hcopy
    exact Or.inl rfl
  | cons hit hits ih =>
    cases chunks with
    | nil => simp [copyHits] at hcopy
    | cons chunk chunks =>
      unfold copyHits at hcopy
      split at hcopy
      · rcases ih hcopy with hkept | ⟨other, hother, token, hcell⟩
        · rw [hkept, copyRange]
          split
          · exact Or.inr ⟨hit, mem_cons_self, _, rfl⟩
          · exact Or.inl rfl
        · exact Or.inr ⟨other, mem_cons_of_mem _ hother, token, hcell⟩
      · cases hcopy

end

end Copying

section Order

/-- The empty payloads come last. -/
def InOrder (payloads : List ReusePayload) : Prop :=
  ∃ count, ∀ (index : Nat) (payload : ReusePayload), payloads[index]? = some payload →
      (payload.isEmptyReusePayload = false ↔ index < count)

variable {payloads : List ReusePayload}

theorem hitsOf_take {count : Nat} (hlt : ∀ (index : Nat) (payload : ReusePayload),
    payloads[index]? = some payload → payload.isEmptyReusePayload = false →
    index < count) : hitsOf (payloads.take count) = hitsOf payloads := by
  have hback : hitsOf (payloads.drop count) = [] := by
    refine filter_eq_nil_iff.mpr fun payload hmem hhit => ?_
    obtain ⟨index, hindex⟩ := mem_iff_getElem?.mp hmem
    rw [getElem?_drop] at hindex
    have := hlt _ payload hindex (by simpa using hhit)
    omega
  calc hitsOf (payloads.take count)
      = hitsOf (payloads.take count) ++ hitsOf (payloads.drop count) := by
        rw [hback, append_nil]
    _ = hitsOf (payloads.take count ++ payloads.drop count) := (filter_append _ _).symm
    _ = hitsOf payloads := by rw [take_append_drop]

theorem hitsOf_eq_take {count : Nat} (hcount : ∀ (index : Nat) (payload : ReusePayload),
      payloads[index]? = some payload → (payload.isEmptyReusePayload = false ↔ index < count)) :
    hitsOf payloads = payloads.take count := by
  rw [← hitsOf_take fun index payload hindex =>
    (hcount index payload hindex).mp]
  refine filter_eq_self.mpr fun payload hmem => ?_
  obtain ⟨index, hindex⟩ := mem_iff_getElem?.mp hmem
  rw [getElem?_take] at hindex
  split at hindex
  · next hlt => simpa using (hcount index payload hindex).mpr hlt
  · cases hindex

/-- When all hits stand within the first places, as many as there are hits, no
empty payload stands between them. -/
theorem inOrder_of_lt (hlt : ∀ (index : Nat) (payload : ReusePayload),
    payloads[index]? = some payload → payload.isEmptyReusePayload = false →
    index < (hitsOf payloads).length) : InOrder payloads := by
  refine ⟨(hitsOf payloads).length, fun index payload hindex =>
    ⟨hlt index payload hindex, fun hfront => ?_⟩⟩
  have hfull : (hitsOf (payloads.take (hitsOf payloads).length)).length =
      (payloads.take (hitsOf payloads).length).length := by
    have hle : (hitsOf payloads).length ≤ payloads.length := length_filter_le _ _
    rw [hitsOf_take hlt, length_take]
    omega
  have hmem : payload ∈ payloads.take (hitsOf payloads).length :=
    mem_iff_getElem?.mpr ⟨index, by
      rw [getElem?_take, if_pos hfront, hindex]⟩
  simpa using length_filter_eq_length_iff.mp hfull payload hmem

end Order

section Placement

/-- What a buffer must hold after `get_reuse_kv`: every hit in its own range,
and in the ranges of the other chunks nothing that is not theirs, apart from
positions that are recomputed anyway. -/
structure Placed (layer : Nat) (active : List Chunk)
    (payloads : List ReusePayload) (recomputed : List Nat)
    (buffer : Nat → Cell) : Prop where
  hits : ∀ (index : Nat) (chunk : Chunk) (payload : ReusePayload),
    active[index]? = some chunk → payloads[index]? = some payload →
    payload.isEmptyReusePayload = false →
    ∀ position, chunk.Covers position →
      buffer position = .reused ⟨chunk.hash, layer⟩ (position - chunk.start)
  misses : ∀ (index : Nat) (chunk : Chunk) (payload : ReusePayload),
    active[index]? = some chunk → payloads[index]? = some payload →
    payload.isEmptyReusePayload = true →
    ∀ position, chunk.Covers position → position ∉ recomputed →
      ∃ token, buffer position = .reused ⟨chunk.hash, layer⟩ token

/-- All positions of the chunks without a payload are recomputed. -/
def RecomputesMisses (active : List Chunk) (payloads : List ReusePayload)
    (recomputed : List Nat) : Prop :=
  ∀ (index : Nat) (chunk : Chunk) (payload : ReusePayload),
    active[index]? = some chunk → payloads[index]? = some payload →
    payload.isEmptyReusePayload = true →
    ∀ position, chunk.Covers position → position ∈ recomputed

/-- Ranges as the token chunks of one prompt have them. -/
structure Ranges (inputLen : Nat) (chunks : List Chunk) : Prop where
  bounds : ∀ chunk ∈ chunks, chunk.start < chunk.stop ∧ chunk.stop ≤ inputLen
  disjoint : chunks.Pairwise fun left right =>
    ∀ position, left.Covers position → ¬ right.Covers position

def Cell.layerOf : Cell → Option Nat
  | .zero => none
  | .reused kv _ => some kv.layer
  | .recomputed layer => some layer

def Cell.OlderThan (layer : Nat) (cell : Cell) : Prop :=
  ∀ other, cell.layerOf = some other → other < layer

theorem Cell.OlderThan.ne_reused {layer : Nat} {cell : Cell} (holder : cell.OlderThan layer)
    (hash : Bytes) (token : Nat) : cell ≠ .reused ⟨hash, layer⟩ token := by
  rintro rfl
  exact Nat.lt_irrefl _ (holder layer rfl)

variable {request : ReuseRequest} {layer : Nat} {active : List Chunk}
  {payloads : List ReusePayload} {recomputed : List Nat}
  {buffer result : Nat → Cell}

theorem Aligned.kv_eq (haligned : Aligned active layer payloads) {index : Nat} {chunk : Chunk}
    {payload : ReusePayload} (hchunk : active[index]? = some chunk)
    (hpayload : payloads[index]? = some payload) : payload.kv = ⟨chunk.hash, layer⟩ := by
  have hindex := congrArg (fun items => items[index]?) haligned
  simpa [hchunk, hpayload] using hindex

theorem copyHits_beyond (hranges : Ranges request.inputLen active)
    (hcopy : copyHits request active (hitsOf payloads) buffer = some result) {index position : Nat}
    {chunk : Chunk} (hchunk : active[index]? = some chunk)
    (hbeyond : (hitsOf payloads).length ≤ index) (hcovers : chunk.Covers position) :
    result position = buffer position := by
  refine copyHits_untouched hcopy fun other hother hcovered => ?_
  obtain ⟨before, hbefore⟩ := mem_iff_getElem?.mp hother
  rw [getElem?_take] at hbefore
  split at hbefore
  · next hlt =>
    obtain ⟨hother_lt, rfl⟩ := List.getElem?_eq_some_iff.mp hbefore
    obtain ⟨hchunk_lt, rfl⟩ := List.getElem?_eq_some_iff.mp hchunk
    exact pairwise_iff_getElem.mp hranges.disjoint before index hother_lt
      hchunk_lt (by omega) position hcovered hcovers
  · cases hbefore

theorem exists_covers (hranges : Ranges request.inputLen active) {index : Nat} {chunk : Chunk}
    (hchunk : active[index]? = some chunk) : chunk.Covers chunk.start :=
  ⟨Nat.le_refl _, (hranges.bounds chunk (mem_of_getElem? hchunk)).1⟩

theorem placed_iff (hranges : Ranges request.inputLen active)
    (haligned : Aligned active layer payloads)
    (holder : ∀ position, (buffer position).OlderThan layer)
    (hcopy : copyHits request active (hitsOf payloads) buffer = some result) :
    Placed layer active payloads recomputed result ↔
      InOrder payloads ∧ RecomputesMisses active payloads recomputed := by
  have hchunk_of : ∀ {index : Nat} {payload : ReusePayload}, payloads[index]? = some payload →
      ∃ chunk, active[index]? = some chunk := by
    intro index payload hpayload
    obtain ⟨hlt, -⟩ := List.getElem?_eq_some_iff.mp hpayload
    exact ⟨_, List.getElem?_eq_getElem (haligned.length_eq ▸ hlt)⟩
  constructor
  · intro hplaced
    have horder : InOrder payloads := by
      refine inOrder_of_lt fun index payload hpayload hhit => ?_
      by_contra hbeyond
      obtain ⟨chunk, hchunk⟩ := hchunk_of hpayload
      have hcovers := exists_covers hranges hchunk
      have hcell := hplaced.hits index chunk payload hchunk hpayload hhit chunk.start hcovers
      rw [copyHits_beyond hranges hcopy hchunk (Nat.not_lt.mp hbeyond) hcovers] at hcell
      exact (holder _).ne_reused _ _ hcell
    refine ⟨horder, ?_⟩
    intro index chunk payload hchunk hpayload hempty position hcovers
    by_contra hkept
    obtain ⟨token, hcell⟩ := hplaced.misses index chunk payload hchunk hpayload
      hempty position hcovers hkept
    obtain ⟨count, hcount⟩ := horder
    have hbeyond : (hitsOf payloads).length ≤ index := by
      have hnot : ¬ index < count := fun hlt => by
        rw [(hcount index payload hpayload).mpr hlt] at hempty
        cases hempty
      rw [hitsOf_eq_take hcount, length_take]
      omega
    rw [copyHits_beyond hranges hcopy hchunk hbeyond hcovers] at hcell
    exact (holder _).ne_reused _ _ hcell
  · rintro ⟨⟨count, hcount⟩, hrecomputes⟩
    refine ⟨?_, ?_⟩
    · intro index chunk payload hchunk hpayload hhit position hcovers
      have hindex : (hitsOf payloads)[index]? = some payload := by
        rw [hitsOf_eq_take hcount, getElem?_take,
          if_pos ((hcount index payload hpayload).mp hhit), hpayload]
      have hbound := (hranges.bounds chunk (mem_of_getElem? hchunk)).2
      rw [copyHits_written hcopy hranges.disjoint hchunk hindex hcovers
        (Nat.lt_of_lt_of_le hcovers.2 hbound),
        haligned.kv_eq hchunk hpayload]
    · intro index chunk payload hchunk hpayload hempty position hcovers hkept
      exact absurd (hrecomputes index chunk payload hchunk hpayload hempty position hcovers) hkept

end Placement

end CatKV
