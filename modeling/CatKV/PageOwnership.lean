/-
Every page of the paged allocator is free once or has exactly one owner, as
long as only owners that still hold a page call its object.
-/
import Mathlib.Data.List.Nodup
import CatKV.PagedAllocator

namespace CatKV

open List

section Held

variable {handOuts : List HandOut} {handOut : HandOut} {owner : Nat}

@[simp]
theorem heldPages_append (first rest : List HandOut) :
    heldPages (first ++ rest) = heldPages first ++ heldPages rest := by
  simp [heldPages]

theorem heldPages_cons_of_held (rest : List HandOut) (hheld : handOut.held = true) :
    heldPages (handOut :: rest) = handOut.page :: heldPages rest := by
  simp [heldPages, hheld]

theorem heldPages_cons_of_not_held (rest : List HandOut) (hheld : handOut.held = false) :
    heldPages (handOut :: rest) = heldPages rest := by
  simp [heldPages, hheld]

theorem heldPages_fresh (pages : List Nat) : heldPages (pages.map (⟨·, 1, 0⟩)) = pages := by
  induction pages with
  | nil => rfl
  | cons page rest ih =>
    rw [map_cons, heldPages_cons_of_held _ rfl, ih]

theorem mem_heldPages (hmem : handOut ∈ handOuts)
    (hheld : handOut.held = true) : handOut.page ∈ heldPages handOuts :=
  mem_map_of_mem (mem_filter.mpr ⟨hmem, hheld⟩)

theorem exists_split_modify (hfound : handOuts[owner]? = some handOut)
    (change : HandOut → HandOut) :
    ∃ before after, handOuts = before ++ handOut :: after ∧
      handOuts.modify owner change = before ++ change handOut :: after := by
  obtain ⟨hlt, -⟩ := List.getElem?_eq_some_iff.mp hfound
  obtain ⟨before, found, after, rfl, rfl, hmodify⟩ := List.exists_of_modify change hlt
  obtain rfl : found = handOut := by simpa using hfound
  exact ⟨before, after, rfl, hmodify⟩

end Held

theorem recycle_numActiveAllocations (layout : PageLayout)
    (allocator : PagedAllocator) (page : Nat) :
    (allocator.recycle layout page).numActiveAllocations = allocator.numActiveAllocations := by
  unfold PagedAllocator.recycle
  split <;> rfl

/-- The invariant, with the pages that are on their way between the free ones
and their owners. -/
structure PagedInv (layout : PageLayout) (allocator : PagedAllocator)
    (taken : List Nat) (handOuts : List HandOut) : Prop where
  owned : (allocator.freeBlocks ++ (taken ++ heldPages handOuts)).Perm (List.range layout.numPages)
  objects : allocator.pages.length = layout.numPages
  page : ∀ page obj, allocator.pages[page]? = some obj → obj.valid = true ∧ obj.address = page ∧
      (obj.shape = layout.shape → obj.rawData = layout.pagedBuffer page)
  free : ∀ page ∈ allocator.freeBlocks, ∀ obj, allocator.pages[page]? = some obj →
      obj.pinCount = 0 ∧ obj.rawData = layout.pagedBuffer page
  taken : ∀ page ∈ taken, ∀ obj, allocator.pages[page]? = some obj → obj.pinCount = 0
  held : ∀ handOut ∈ handOuts, handOut.held = true → ∀ obj,
    allocator.pages[handOut.page]? = some obj →
      obj.refCount = handOut.refs ∧ obj.pinCount = handOut.pins

namespace PagedInv

variable {layout : PageLayout} {allocator : PagedAllocator}
  {taken : List Nat} {handOuts : List HandOut}

variable {page : Nat}

section

variable (hinv : PagedInv layout allocator taken handOuts)

include hinv

theorem exists_page (page : Nat)
    (hpage : page ∈ allocator.freeBlocks ++ (taken ++ heldPages handOuts)) :
    ∃ obj, allocator.pages[page]? = some obj := by
  have hlt := mem_range.mp (hinv.owned.mem_iff.mp hpage)
  rw [← hinv.objects] at hlt
  exact ⟨_, getElem?_eq_getElem hlt⟩

omit hinv in
theorem not_mem_places {numPages : Nat} {freeBlocks : List Nat}
    (howned : (page :: (freeBlocks ++ (taken ++ heldPages handOuts))).Perm
      (List.range numPages)) : page ∉ freeBlocks ∧ page ∉ taken ∧ page ∉ heldPages handOuts := by
  have hnodup := howned.nodup_iff.mpr nodup_range
  simpa using (nodup_cons.mp hnodup).1

omit hinv in
theorem of_modify {objs : List PagedMemoryObj} {other : Nat}
    {change : PagedMemoryObj → PagedMemoryObj} {property : PagedMemoryObj → Prop}
    (hkept : other ≠ page → ∀ obj, objs[other]? = some obj → property obj)
    (hchanged : other = page → ∀ obj, objs[page]? = some obj → property (change obj)) :
    ∀ obj, (objs.modify page change)[other]? = some obj → property obj := by
  intro obj hobj
  by_cases hsame : other = page
  · subst hsame
    rw [getElem?_modify_eq] at hobj
    obtain ⟨old, hold, rfl⟩ := Option.map_eq_some_iff.mp hobj
    exact hchanged rfl old hold
  · rw [getElem?_modify_ne _ _ (Ne.symm hsame)] at hobj
    exact hkept hsame obj hobj

theorem modify {change : PagedMemoryObj → PagedMemoryObj} {freeBlocks taken' : List Nat}
    {handOuts' : List HandOut} (howned : (freeBlocks ++ (taken' ++ heldPages handOuts')).Perm
      (List.range layout.numPages)) (hpage : ∀ obj, allocator.pages[page]? = some obj →
      (change obj).valid = true ∧ (change obj).address = page ∧ ((change obj).shape = layout.shape →
          (change obj).rawData = layout.pagedBuffer page)) (hfree : ∀ other ∈ freeBlocks,
      (other ≠ page → other ∈ allocator.freeBlocks) ∧
      (other = page → ∀ obj, allocator.pages[page]? = some obj → (change obj).pinCount = 0 ∧
          (change obj).rawData = layout.pagedBuffer page))
    (htaken : ∀ other ∈ taken', (other ≠ page → other ∈ taken) ∧
      (other = page → ∀ obj, allocator.pages[page]? = some obj →
        (change obj).pinCount = 0)) (hheld : ∀ handOut ∈ handOuts', handOut.held = true →
      (handOut.page ≠ page → handOut ∈ handOuts) ∧
      (handOut.page = page → ∀ obj, allocator.pages[page]? = some obj →
        (change obj).refCount = handOut.refs ∧ (change obj).pinCount = handOut.pins)) :
    PagedInv layout { allocator with
      pages := allocator.pages.modify page change
      freeBlocks := freeBlocks } taken' handOuts' := by
  constructor
  · exact howned
  · rw [length_modify]
    exact hinv.objects
  · intro other
    refine of_modify (fun _ => hinv.page other) ?_
    rintro rfl
    exact hpage
  · intro other hmem
    exact of_modify (fun hne => hinv.free other ((hfree other hmem).1 hne))
      fun hsame => hsame ▸ (hfree other hmem).2 hsame
  · intro other hmem
    exact of_modify (fun hne => hinv.taken other ((htaken other hmem).1 hne)) (htaken other hmem).2
  · intro handOut hmem hlive
    have hkept := hheld handOut hmem hlive
    exact of_modify (fun hne => hinv.held handOut (hkept.1 hne) hlive) hkept.2

theorem stats (numActiveAllocations totalAllocatedSize : Int) : PagedInv layout { allocator with
    numActiveAllocations := numActiveAllocations
    totalAllocatedSize := totalAllocatedSize } taken handOuts :=
  ⟨hinv.owned, hinv.objects, hinv.page, hinv.free, hinv.taken, hinv.held⟩

/-- A page that is taken for a shape. -/
structure Prepared (layout : PageLayout) (pages : List PagedMemoryObj)
    (shape : List Nat) (page : Nat) : Prop where
  refCount : ∀ obj, pages[page]? = some obj → obj.refCount = 1
  rawData : layout.Fits shape → ∀ obj, pages[page]? = some obj →
    obj.rawData = ⟨page * layout.alignBytes, layout.rawSize shape⟩

theorem popleft {shape : List Nat} {next : PagedAllocator}
    (hpop : allocator.popleft layout shape = some (page, next)) (hprepared : ∀ other ∈ taken,
      Prepared layout allocator.pages shape other) :
    PagedInv layout next (taken ++ [page]) handOuts ∧
      next.numActiveAllocations = allocator.numActiveAllocations ∧
      ∀ other ∈ taken ++ [page], Prepared layout next.pages shape other := by
  have howned := hinv.owned
  have hfree := hinv.free
  unfold PagedAllocator.popleft at hpop
  split at hpop
  · simp at hpop
  next first rest hblocks =>
  simp only [Option.some.injEq, Prod.mk.injEq] at hpop
  obtain ⟨rfl, rfl⟩ := hpop
  rw [hblocks] at howned hfree
  have hnot := not_mem_places howned
  have hwhole := hfree first mem_cons_self
  refine ⟨?_, rfl, ?_⟩
  · apply hinv.modify
    · apply List.Perm.trans _ howned
      rw [append_assoc taken]
      exact (perm_middle.append_left _).trans perm_middle
    · intro obj hobj
      obtain ⟨hvalid, haddress, -⟩ := hinv.page first obj hobj
      refine ⟨hvalid, haddress, fun hshape => ?_⟩
      have hsame : shape = layout.shape := hshape
      simp only [PagedMemoryObj.handOut, hsame, ne_eq, not_true_eq_false, if_false]
      exact (hwhole obj hobj).2
    · intro other hother
      refine ⟨fun _ => hblocks ▸ mem_cons_of_mem _ hother, ?_⟩
      rintro rfl
      exact absurd hother hnot.1
    · intro other hother
      refine ⟨fun hne => ?_, fun _ obj hobj => (hwhole obj hobj).1⟩
      simpa [hne] using hother
    · intro handOut hmem hheld
      refine ⟨fun _ => hmem, ?_⟩
      rintro rfl
      exact absurd (mem_heldPages hmem hheld) hnot.2.2
  · refine forall_mem_concat (fun other hold => ?_) ?_
    · have hne : other ≠ first := fun hsame => hnot.2.1 (hsame ▸ hold)
      have hready := hprepared other hold
      exact ⟨of_modify (fun _ => hready.refCount) (absurd · hne),
        fun hfits => of_modify (fun _ => hready.rawData hfits) (absurd · hne)⟩
    · refine ⟨of_modify (absurd rfl) fun _ _ _ => rfl, fun hfits =>
        of_modify (absurd rfl) fun _ old hold => ?_⟩
      have hraw := (hwhole old hold).2
      by_cases hshape : shape = layout.shape
      · simp only [PagedMemoryObj.handOut, hshape, ne_eq, not_true_eq_false, if_false]
        exact hraw
      · simp only [PagedMemoryObj.handOut, ne_eq, hshape, not_false_eq_true,
          if_true, hraw, PageLayout.pagedBuffer]
        rw [Nat.min_eq_left hfits]

omit hinv in
theorem recycle (hinv : PagedInv layout allocator (page :: taken) handOuts) :
    PagedInv layout (allocator.recycle layout page) taken handOuts := by
  obtain ⟨obj, hobj⟩ := hinv.exists_page page (by simp)
  have hvalid := (hinv.page page obj hobj).1
  rw [PagedAllocator.recycle, hobj, Option.any_some, if_pos hvalid]
  have hmoved : (page :: (allocator.freeBlocks ++
      (taken ++ heldPages handOuts))).Perm (List.range layout.numPages) :=
    perm_middle.symm.trans hinv.owned
  have hnot := not_mem_places hmoved
  have hraw : ∀ old, allocator.pages[page]? = some old →
      (old.restore layout).rawData = layout.pagedBuffer page := by
    intro old hold
    obtain ⟨-, haddress, hwhole⟩ := hinv.page page old hold
    by_cases hshape : old.shape = layout.shape
    · simp only [PagedMemoryObj.restore, ne_eq, hshape, not_true_eq_false, if_false]
      exact hwhole hshape
    · simp only [PagedMemoryObj.restore, ne_eq, hshape, not_false_eq_true, if_true, haddress]
  apply hinv.modify
  · apply List.Perm.trans _ hmoved
    rw [append_assoc]
    exact perm_middle
  · intro old hold
    obtain ⟨hvalid', haddress, -⟩ := hinv.page page old hold
    exact ⟨hvalid', haddress, fun _ => hraw old hold⟩
  · intro other hother
    refine ⟨fun hne => by simpa [hne] using hother, fun _ old hold =>
      ⟨hinv.taken page mem_cons_self old hold, hraw old hold⟩⟩
  · intro other hother
    refine ⟨fun _ => mem_cons_of_mem _ hother, ?_⟩
    rintro rfl
    exact absurd hother hnot.2.1
  · intro handOut hmem hheld
    refine ⟨fun _ => hmem, ?_⟩
    rintro rfl
    exact absurd (mem_heldPages hmem hheld) hnot.2.2

theorem grant (hcounts : ∀ page ∈ taken, ∀ obj, allocator.pages[page]? = some obj →
      obj.refCount = 1) :
    PagedInv layout allocator [] (handOuts ++ taken.map (⟨·, 1, 0⟩)) where
  owned := by
    apply List.Perm.trans _ hinv.owned
    rw [heldPages_append, heldPages_fresh, nil_append]
    exact List.Perm.append_left _ perm_append_comm
  objects := hinv.objects
  page := hinv.page
  free := hinv.free
  taken := by simp
  held := by
    intro handOut hmem hheld obj hobj
    rcases mem_append.mp hmem with hold | hnew
    · exact hinv.held handOut hold hheld obj hobj
    · obtain ⟨page, hpage, rfl⟩ := mem_map.mp hnew
      exact ⟨hcounts page hpage obj hobj, hinv.taken page hpage obj hobj⟩

omit hinv in
theorem free_page (hinv : PagedInv layout allocator [page] handOuts) :
    PagedInv layout (allocator.free layout page) [] handOuts ∧
      (allocator.free layout page).numActiveAllocations = allocator.numActiveAllocations - 1 := by
  obtain ⟨obj, hobj⟩ := hinv.exists_page page (by simp)
  have hvalid := (hinv.page page obj hobj).1
  rw [PagedAllocator.free, hobj, Option.any_some, if_pos hvalid]
  refine ⟨hinv.recycle.stats _ _, ?_⟩
  dsimp only
  rw [recycle_numActiveAllocations]

theorem recycle_all : PagedInv layout (taken.foldl (·.recycle layout ·) allocator) [] handOuts := by
  induction taken generalizing allocator with
  | nil => exact hinv
  | cons page rest ih => exact ih hinv.recycle

end

end PagedInv

section Batch

variable {layout : PageLayout} {allocator : PagedAllocator} {handOuts : List HandOut}

theorem foldl_recycle_numActiveAllocations (pages : List Nat) :
    (pages.foldl (·.recycle layout ·) allocator).numActiveAllocations =
      allocator.numActiveAllocations := by
  induction pages generalizing allocator with
  | nil => rfl
  | cons page rest ih =>
    rw [foldl_cons, ih, recycle_numActiveAllocations]

theorem takePages_spec {shape allocated : List Nat} {batchSize : Nat}
    (hinv : PagedInv layout allocator allocated handOuts) (hprepared : ∀ page ∈ allocated,
      PagedInv.Prepared layout allocator.pages shape page) {next : PagedAllocator}
    {result : Option (List Nat)} (htake : PagedAllocator.takePages layout shape batchSize allocator
      allocated = (next, result)) :
    next.numActiveAllocations = allocator.numActiveAllocations ∧
      match result with
      | none => PagedInv layout next [] handOuts
      | some pages => PagedInv layout next pages handOuts ∧
          pages.length = allocated.length + batchSize ∧
          ∀ page ∈ pages, PagedInv.Prepared layout next.pages shape page := by
  induction batchSize generalizing allocator allocated with
  | zero =>
    rw [PagedAllocator.takePages, Prod.mk.injEq] at htake
    obtain ⟨rfl, rfl⟩ := htake
    exact ⟨rfl, hinv, rfl, hprepared⟩
  | succ batchSize ih =>
    rw [PagedAllocator.takePages] at htake
    cases hpop : allocator.popleft layout shape with
    | none =>
      rw [hpop, Prod.mk.injEq] at htake
      obtain ⟨rfl, rfl⟩ := htake
      exact ⟨foldl_recycle_numActiveAllocations allocated, hinv.recycle_all⟩
    | some popped =>
      obtain ⟨page, rest⟩ := popped
      rw [hpop] at htake
      obtain ⟨hrest, hactive, hready⟩ := hinv.popleft hpop hprepared
      obtain ⟨hsame, hresult⟩ := ih hrest hready htake
      refine ⟨hsame.trans hactive, ?_⟩
      cases result with
      | none => exact hresult
      | some pages =>
        obtain ⟨hnext, hlength, hpages⟩ := hresult
        refine ⟨hnext, ?_, hpages⟩
        rw [hlength, length_append, length_singleton]
        omega

end Batch

/-- The counters of an object follow what its only owner does; the object
frees itself when that one lets go. -/
theorem apply_eq_call {handOut : HandOut} {counts : MemoryCounts}
    (hheld : handOut.held = true) (hrefs : counts.refCount = handOut.refs)
    (hpins : counts.pinCount = handOut.pins) (objectCall : ObjectCall) :
    (counts.apply objectCall).1.refCount = (handOut.call objectCall).refs ∧
      (counts.apply objectCall).1.pinCount = (handOut.call objectCall).pins ∧
      (counts.apply objectCall).2 = !(handOut.call objectCall).held ∧
      (handOut.call objectCall).page = handOut.page := by
  have hsome : 0 < handOut.refs ∨ 0 < handOut.pins := by
    simpa [HandOut.held] using hheld
  have hnot : ¬ (!handOut.held) = true := by rw [hheld]; decide
  unfold HandOut.call
  rw [if_neg hnot]
  cases objectCall with
  | refCountUp =>
    simp [MemoryCounts.apply, MemoryCounts.refCountUp, HandOut.held, hrefs, hpins]
  | pin =>
    simp [MemoryCounts.apply, MemoryCounts.pin, HandOut.held, hrefs, hpins]
  | refCountDown =>
    simp only [MemoryCounts.apply, MemoryCounts.refCountDown, HandOut.held, hrefs, hpins, and_true]
    refine ⟨?_, trivial, ?_⟩
    · split <;> omega
    · rw [Bool.eq_iff_iff]
      simp only [Bool.and_eq_true, beq_iff_eq, Bool.not_eq_true',
        Bool.or_eq_false_iff, decide_eq_false_iff_not]
      split <;> omega
  | unpin =>
    simp only [MemoryCounts.apply, MemoryCounts.unpin, HandOut.held, hrefs, hpins, and_true]
    refine ⟨trivial, ?_, ?_⟩
    · split <;> omega
    · rw [Bool.eq_iff_iff]
      simp only [Bool.and_eq_true, decide_eq_true_eq, Bool.not_eq_true',
        Bool.or_eq_false_iff, decide_eq_false_iff_not]
      omega

namespace PagedInv

variable {layout : PageLayout} {allocator : PagedAllocator}
  {handOuts : List HandOut} {handOut : HandOut} {owner : Nat}

theorem count (hinv : PagedInv layout allocator [] handOuts)
    (hfound : handOuts[owner]? = some handOut) (hheld : handOut.held = true) {obj : PagedMemoryObj}
    (hobj : allocator.pages[handOut.page]? = some obj) (objectCall : ObjectCall) :
    PagedInv layout { allocator with
      pages := allocator.pages.modify handOut.page fun old =>
        { old with toMemoryCounts := (obj.toMemoryCounts.apply objectCall).1 } }
      (if (obj.toMemoryCounts.apply objectCall).2 then [handOut.page] else [])
      (handOuts.modify owner (·.call objectCall)) := by
  obtain ⟨hrefs, hpins⟩ := hinv.held handOut (mem_of_getElem? hfound) hheld obj hobj
  obtain ⟨hrefs', hpins', hfrees, hpage⟩ := apply_eq_call hheld hrefs hpins objectCall
  obtain ⟨before, after, rfl, hmodify⟩ := exists_split_modify hfound (·.call objectCall)
  have hmoved : (handOut.page :: (allocator.freeBlocks ++ ([] ++ heldPages (before ++ after)))).Perm
        (List.range layout.numPages) := by
    apply List.Perm.trans _ hinv.owned
    rw [heldPages_append, heldPages_append, heldPages_cons_of_held _ hheld, nil_append, nil_append]
    exact perm_middle.symm.trans (perm_middle.symm.append_left _)
  have hnot := not_mem_places hmoved
  rw [hmodify, hfrees]
  apply hinv.modify
  · apply List.Perm.trans _ hmoved
    rw [heldPages_append, heldPages_append]
    cases hstays : (handOut.call objectCall).held with
    | true =>
      rw [heldPages_cons_of_held _ hstays, hpage]
      exact (perm_middle.append_left _).trans perm_middle
    | false =>
      rw [heldPages_cons_of_not_held _ hstays]
      exact perm_middle
  · intro old hold
    exact hinv.page _ old hold
  · intro other hother
    refine ⟨fun _ => hother, ?_⟩
    rintro rfl
    exact absurd hother hnot.1
  · intro other hother
    cases hstays : (handOut.call objectCall).held with
    | true => simp [hstays] at hother
    | false =>
      have hsame : other = handOut.page := by simpa [hstays] using hother
      refine ⟨(absurd hsame ·), fun _ old _ => ?_⟩
      have hnone : ¬ 0 < (handOut.call objectCall).pins := by
        intro hpos
        simp [HandOut.held, hpos] at hstays
      change (obj.toMemoryCounts.apply objectCall).1.pinCount = 0
      rw [hpins']
      omega
  · intro other hmem hlive
    have hcases : other ∈ before ++ after ∨ other = handOut.call objectCall := by
      simp only [mem_append, mem_cons] at hmem ⊢
      tauto
    rcases hcases with hother | rfl
    · refine ⟨fun _ => ?_, fun hsame => absurd (hsame ▸ mem_heldPages hother hlive) hnot.2.2⟩
      exact (sublist_cons_self ..).append_left before |>.mem hother
    · exact ⟨(absurd hpage ·), fun _ old _ => ⟨hrefs', hpins'⟩⟩

end PagedInv

/-- The invariant of runs. -/
structure PagedRunInv (layout : PageLayout) (run : PagedRun) : Prop where
  pages : PagedInv layout run.allocator [] run.handOuts
  active : run.allocator.numActiveAllocations = (heldPages run.handOuts).length

namespace PagedRunInv

variable {layout : PageLayout} {run next : PagedRun}

theorem start : PagedRunInv layout (PagedRun.start layout) where
  pages := by
    have hobject : ∀ page obj, (PagedAllocator.start layout).pages[page]? = some obj →
          obj.pinCount = 0 ∧ obj.valid = true ∧ obj.address = page ∧
            obj.rawData = layout.pagedBuffer page := by
      intro page obj hobj
      simp only [PagedAllocator.start, getElem?_map, Option.map_eq_some_iff] at hobj
      obtain ⟨index, hindex, rfl⟩ := hobj
      obtain ⟨-, rfl⟩ := List.getElem?_eq_some_iff.mp hindex
      rw [List.getElem_range]
      exact ⟨rfl, rfl, rfl, rfl⟩
    constructor
    · simp [PagedRun.start, PagedAllocator.start, heldPages]
    · simp [PagedRun.start, PagedAllocator.start]
    · intro page obj hobj
      obtain ⟨-, hvalid, haddress, hraw⟩ := hobject page obj hobj
      exact ⟨hvalid, haddress, fun _ => hraw⟩
    · intro page _ obj hobj
      obtain ⟨hpins, -, -, hraw⟩ := hobject page obj hobj
      exact ⟨hpins, hraw⟩
    · simp
    · simp [PagedRun.start]
  active := rfl

variable {allocator : PagedAllocator} {shape : List Nat}

theorem handOut {handOuts : List HandOut} {taken : List Nat}
    (hpages : PagedInv layout allocator taken handOuts) (hprepared : ∀ page ∈ taken,
      PagedInv.Prepared layout allocator.pages shape page)
    (hactive : allocator.numActiveAllocations = (heldPages handOuts).length + taken.length) :
    PagedRunInv layout ⟨allocator, handOuts ++ taken.map (⟨·, 1, 0⟩)⟩ ∧
      (layout.Fits shape → ∀ page ∈ taken,
        PagedRun.HandsOut layout allocator.pages shape page) := by
  constructor
  · constructor
    · exact hpages.grant fun page hpage => (hprepared page hpage).refCount
    · dsimp only
      rw [heldPages_append, heldPages_fresh, length_append, hactive]
      rfl
  · intro hfits page hpage
    obtain ⟨obj, hobj⟩ := hpages.exists_page page (mem_append_right _ (mem_append_left _ hpage))
    exact ⟨obj, hobj, (hprepared page hpage).refCount obj hobj, hpages.taken page hpage obj hobj,
      (hprepared page hpage).rawData hfits obj hobj⟩

section

variable (hinv : PagedRunInv layout run)

include hinv

theorem allocate {result : Option Nat}
    (halloc : run.allocator.allocate layout shape = (allocator, result)) :
    PagedRunInv layout ⟨allocator, run.handOuts ++ result.toList.map (⟨·, 1, 0⟩)⟩ ∧
      (layout.Fits shape → ∀ page ∈ result.toList,
        PagedRun.HandsOut layout allocator.pages shape page) := by
  have hactive := hinv.active
  rw [PagedAllocator.allocate] at halloc
  cases hpop : run.allocator.popleft layout shape with
  | none =>
    rw [hpop, Prod.mk.injEq] at halloc
    obtain ⟨rfl, rfl⟩ := halloc
    exact handOut hinv.pages (by simp) (by simpa using hactive)
  | some popped =>
    obtain ⟨page, rest⟩ := popped
    rw [hpop, Prod.mk.injEq] at halloc
    obtain ⟨rfl, rfl⟩ := halloc
    obtain ⟨hrest, hsame, hready⟩ := hinv.pages.popleft hpop (by simp)
    have hstats := hrest.stats (rest.numActiveAllocations + 1)
      (rest.totalAllocatedSize + layout.alignBytes)
    apply handOut hstats hready
    dsimp only
    rw [hsame, hactive]
    rfl

theorem batchedAllocate {batchSize : Nat} {result : Option (List Nat)}
    (halloc : run.allocator.batchedAllocate layout shape batchSize = (allocator, result)) :
    PagedRunInv layout ⟨allocator, run.handOuts ++ (result.getD []).map (⟨·, 1, 0⟩)⟩ ∧
      (layout.Fits shape → ∀ page ∈ result.getD [],
        PagedRun.HandsOut layout allocator.pages shape page) := by
  have hactive := hinv.active
  rw [PagedAllocator.batchedAllocate] at halloc
  cases htake : PagedAllocator.takePages layout shape batchSize run.allocator [] with
  | mk rest pages =>
    obtain ⟨hsame, hresult⟩ := takePages_spec hinv.pages (by simp) htake
    rw [htake] at halloc
    cases pages with
    | none =>
      rw [Prod.mk.injEq] at halloc
      obtain ⟨rfl, rfl⟩ := halloc
      exact handOut hresult (by simp) (by simpa [hsame] using hactive)
    | some pages =>
      rw [Prod.mk.injEq] at halloc
      obtain ⟨rfl, rfl⟩ := halloc
      obtain ⟨hrest, hlength, hready⟩ := hresult
      have hstats := hrest.stats (rest.numActiveAllocations + batchSize)
        ((rest.numActiveAllocations + batchSize) * layout.alignBytes)
      apply handOut hstats hready
      dsimp only
      rw [hsame, hactive, hlength, length_nil, Nat.zero_add]

theorem call {owner : Nat} {handOut : HandOut} (hfound : run.handOuts[owner]? = some handOut)
    (hheld : handOut.held = true) (objectCall : ObjectCall) :
    PagedRunInv layout ⟨run.allocator.call layout handOut.page objectCall,
        run.handOuts.modify owner (·.call objectCall)⟩ := by
  obtain ⟨obj, hobj⟩ := hinv.pages.exists_page handOut.page (mem_append_right _ (mem_append_right _
      (mem_heldPages (mem_of_getElem? hfound) hheld)))
  have hcount := hinv.pages.count hfound hheld hobj objectCall
  have hlength := hcount.owned.length_eq.trans hinv.pages.owned.length_eq.symm
  have hactive := hinv.active
  rw [PagedAllocator.call, hobj]
  dsimp only
  cases hfrees : (obj.toMemoryCounts.apply objectCall).2 with
  | false =>
    rw [hfrees] at hcount hlength
    refine ⟨hcount, hactive.trans ?_⟩
    simp only [Bool.false_eq_true, if_false, length_append] at hlength
    dsimp only
    omega
  | true =>
    rw [hfrees] at hcount hlength
    obtain ⟨hpages, hsame⟩ := hcount.free_page
    refine ⟨hpages, hsame.trans ?_⟩
    simp only [if_true, length_append, length_singleton, length_nil] at hlength
    dsimp only
    omega

theorem step {action : PagedAction} (hholder : run.ByHolder action)
    (hstep : run.step layout action = some next) : PagedRunInv layout next := by
  cases action with
  | allocate shape =>
    rw [PagedRun.step, Option.some.injEq] at hstep
    rw [← hstep]
    exact (hinv.allocate rfl).1
  | batchedAllocate shape batchSize =>
    rw [PagedRun.step, Option.some.injEq] at hstep
    rw [← hstep]
    exact (hinv.batchedAllocate rfl).1
  | call owner objectCall =>
    obtain ⟨handOut, hfound, rfl⟩ := Option.map_eq_some_iff.mp hstep
    apply hinv.call hfound
    simpa [PagedRun.ByHolder, hfound] using hholder

theorem sound : run.Sound layout where
  owned := hinv.pages.owned
  allocates shape hfits next page halloc := by
    exact (hinv.allocate halloc).2 hfits page (mem_singleton.mpr rfl)
  batches shape hfits batchSize next pages halloc := by
    exact (hinv.batchedAllocate halloc).2 hfits
  active := hinv.active

end

end PagedRunInv

/-- Pages stay owned in every run in which an owner that has let go of a page
leaves its object alone. -/
theorem sound_of_byHolder {layout : PageLayout} {actions : List PagedAction} {final : PagedRun}
    (hmeets : Meets (PagedRun.step layout) PagedRun.ByHolder (PagedRun.start layout) actions)
    (hrun : runFrom (PagedRun.step layout) (PagedRun.start layout) actions = some final) :
    final.Sound layout := by
  have hfinal : PagedRunInv layout final := by
    apply run_invariant _ PagedRunInv.start hmeets hrun
    intro run action next hinv hholder hstep
    exact hinv.step hholder hstep
  exact hfinal.sound

/-- Three pages of four bytes. -/
def threePages : PageLayout := ⟨[2], 2, 3, by decide⟩

/-- With a batch that fails, and surplus calls of an owner that still holds
its page. -/
def threePagesCalls : List PagedAction :=
  [.allocate [1], .batchedAllocate [2] 3, .batchedAllocate [2] 2,
    .call 1 .pin, .call 1 .refCountDown, .call 1 .refCountDown,
    .call 1 .unpin, .call 0 .unpin, .call 0 .refCountDown]

theorem sound_threePages : ∃ final, runFrom (PagedRun.step threePages) (PagedRun.start threePages)
    threePagesCalls = some final ∧ final.Sound threePages := by
  have hmeets : Meets (PagedRun.step threePages) PagedRun.ByHolder
      (PagedRun.start threePages) threePagesCalls := by decide +kernel
  exact ⟨_, rfl, sound_of_byHolder hmeets rfl⟩

/-- A second `ref_count_down` sets the count back to zero and frees the page
again. -/
theorem not_sound_freedTwice :
    ∃ final, runFrom (PagedRun.step threePages) (PagedRun.start threePages)
      [.allocate [2], .call 0 .refCountDown, .call 0 .refCountDown] =
        some final ∧ final.allocator.freeBlocks = [1, 2, 0, 0] ∧ ¬ final.Sound threePages :=
  ⟨_, rfl, rfl, fun hsound => absurd hsound.owned.length_eq (by decide)⟩

end CatKV
