/-
Objects whose count is the number of references there are to them.  A list of
references is kept beside the objects; taking and giving back a reference
keeps the two in step, and an object with a reference is never freed.
-/
import Mathlib.Data.List.Nodup
import CatKV.MemoryObject

namespace CatKV

open List

/-- The count of every object that has not been freed is the number of its
references, and what is referenced has not been freed. -/
structure Counted (memory : List MemoryObj) (refs : List Nat) : Prop where
  counts : ∀ id obj, memory[id]? = some obj → obj.valid = true →
    obj.refCount = (refs.count id : Int) ∧ 0 ≤ obj.pinCount
  alive : ∀ id ∈ refs, ∃ obj, memory[id]? = some obj ∧ obj.valid = true

variable {memory : List MemoryObj} {id : Nat}

theorem getElem?_callObject_ne {other : Nat} (hne : other ≠ id) (objectCall : ObjectCall) :
    (callObject memory id objectCall)[other]? = memory[other]? :=
  getElem?_modify_ne _ _ (Ne.symm hne)

theorem getElem?_callObject_self {obj : MemoryObj} (objectCall : ObjectCall)
    (hobj : memory[id]? = some obj) :
    (callObject memory id objectCall)[id]? = some (obj.call objectCall) := by
  rw [callObject, getElem?_modify_eq, hobj]
  rfl

theorem getElem?_freeObjects_of_not_mem {ids : List Nat} (hnot : id ∉ ids)
    (memory : List MemoryObj) : (freeObjects memory ids)[id]? = memory[id]? := by
  induction ids generalizing memory with
  | nil => rfl
  | cons head rest ih =>
    rw [mem_cons, not_or] at hnot
    change (freeObjects (memory.modify head _) rest)[id]? = _
    rw [ih hnot.2, getElem?_modify_ne _ _ (Ne.symm hnot.1)]

theorem valid_of_freeObjects {ids : List Nat} {obj : MemoryObj}
    (hobj : (freeObjects memory ids)[id]? = some obj)
    (hvalid : obj.valid = true) : id ∉ ids ∧ memory[id]? = some obj := by
  induction ids generalizing memory with
  | nil => exact ⟨not_mem_nil, hobj⟩
  | cons head rest ih =>
    obtain ⟨hnot, hrest⟩ := ih (show (freeObjects (memory.modify head _) rest)[id]? = some obj
        from hobj)
    by_cases hsame : id = head
    · subst hsame
      rw [getElem?_modify_eq] at hrest
      obtain ⟨old, -, rfl⟩ := Option.map_eq_some_iff.mp hrest
      cases hvalid
    · rw [getElem?_modify_ne _ _ (Ne.symm hsame)] at hrest
      exact ⟨not_mem_cons_of_ne_of_not_mem hsame hnot, hrest⟩

namespace Counted

variable {memory : List MemoryObj} {refs refs' : List Nat} {id : Nat}

theorem nil : Counted [] [] where
  counts := by simp
  alive := by simp

section

variable (hcounted : Counted memory refs)

include hcounted

theorem perm (hperm : refs.Perm refs') : Counted memory refs' where
  counts other obj hobj hvalid := by
    rw [← hperm.count_eq]
    exact hcounted.counts other obj hobj hvalid
  alive other hother := hcounted.alive other (hperm.mem_iff.mpr hother)

theorem refCount_pos (hid : id ∈ refs) {obj : MemoryObj} (hobj : memory[id]? = some obj) :
    obj.valid = true ∧ 1 ≤ obj.refCount ∧ 0 ≤ obj.pinCount := by
  obtain ⟨obj', hobj', hvalid⟩ := hcounted.alive id hid
  obtain rfl := Option.some.inj (hobj'.symm.trans hobj)
  obtain ⟨hcount, hpins⟩ := hcounted.counts id obj' hobj hvalid
  have hpos := count_pos_iff.mpr hid
  exact ⟨hvalid, by omega, hpins⟩

theorem call {objectCall : ObjectCall} (hself : ∀ obj, memory[id]? = some obj → obj.valid = true →
      (obj.call objectCall).valid = true → (obj.call objectCall).refCount = (refs'.count id : Int) ∧
          0 ≤ (obj.call objectCall).pinCount) (hstays : id ∈ refs' → ∃ obj, memory[id]? = some obj ∧
      (obj.call objectCall).valid = true)
    (hothers : ∀ other, other ≠ id → refs'.count other = refs.count other) :
    Counted (callObject memory id objectCall) refs' where
  counts other obj hobj hvalid := by
    by_cases hsame : other = id
    · subst hsame
      rw [callObject, getElem?_modify_eq] at hobj
      obtain ⟨old, hold, rfl⟩ := Option.map_eq_some_iff.mp hobj
      exact hself old hold (Bool.and_eq_true_iff.mp hvalid).1 hvalid
    · rw [getElem?_callObject_ne hsame] at hobj
      rw [hothers other hsame]
      exact hcounted.counts other obj hobj hvalid
  alive other hother := by
    by_cases hsame : other = id
    · subst hsame
      obtain ⟨obj, hobj, hvalid⟩ := hstays hother
      exact ⟨_, getElem?_callObject_self objectCall hobj, hvalid⟩
    · have hmem : other ∈ refs := by
        rw [← count_pos_iff, ← hothers other hsame, count_pos_iff]
        exact hother
      rw [getElem?_callObject_ne hsame]
      exact hcounted.alive other hmem

theorem refCountUp (hid : id ∈ refs) : Counted (callObject memory id .refCountUp) (id :: refs) := by
  apply hcounted.call
  · intro obj hobj hvalid _
    obtain ⟨hcount, hpins⟩ := hcounted.counts id obj hobj hvalid
    refine ⟨?_, hpins⟩
    change obj.refCount + 1 = _
    rw [hcount, count_cons_self]
    omega
  · intro _
    obtain ⟨obj, hobj, hvalid⟩ := hcounted.alive id hid
    refine ⟨obj, hobj, ?_⟩
    simp [MemoryObj.call, MemoryCounts.apply, hvalid]
  · intro other hne
    exact count_cons_of_ne (Ne.symm hne)

omit hcounted in
theorem refCountDown (hcounted : Counted memory (id :: refs)) :
    Counted (callObject memory id .refCountDown) refs := by
  apply hcounted.call
  · intro obj hobj hvalid _
    obtain ⟨hcount, hpins⟩ := hcounted.counts id obj hobj hvalid
    refine ⟨?_, hpins⟩
    change (if obj.refCount - 1 < 0 then 0 else obj.refCount - 1) = _
    rw [hcount, count_cons_self]
    omega
  · intro hid
    obtain ⟨obj, hobj, hvalid⟩ := hcounted.alive id mem_cons_self
    obtain ⟨hcount, -⟩ := hcounted.counts id obj hobj hvalid
    have hpos := count_pos_iff.mpr hid
    rw [count_cons_self] at hcount
    refine ⟨obj, hobj, ?_⟩
    have hmore : ¬ obj.refCount - 1 < 0 ∧ obj.refCount - 1 ≠ 0 := by omega
    simp [MemoryObj.call, MemoryCounts.apply, MemoryCounts.refCountDown, hvalid, hmore]
  · intro other hne
    exact (count_cons_of_ne (Ne.symm hne)).symm

theorem pins (hid : id ∈ refs) {objectCall : ObjectCall}
    (hcall : objectCall = .pin ∨ objectCall = .unpin) :
    Counted (callObject memory id objectCall) refs := by
  apply hcounted.call
  · intro obj hobj hvalid _
    obtain ⟨hcount, hpins⟩ := hcounted.counts id obj hobj hvalid
    rcases hcall with rfl | rfl
    · refine ⟨hcount, ?_⟩
      change 0 ≤ obj.pinCount + 1
      omega
    · refine ⟨hcount, ?_⟩
      change 0 ≤ if obj.pinCount - 1 < 0 then 0 else obj.pinCount - 1
      split <;> omega
  · intro _
    obtain ⟨obj, hobj, hvalid⟩ := hcounted.alive id hid
    obtain ⟨-, hpos, -⟩ := hcounted.refCount_pos hid hobj
    refine ⟨obj, hobj, ?_⟩
    have hnot : ¬ obj.refCount ≤ 0 := by omega
    rcases hcall with rfl | rfl
    · simp [MemoryObj.call, MemoryCounts.apply, hvalid]
    · simp [MemoryObj.call, MemoryCounts.apply, MemoryCounts.unpin, hvalid, hnot]
  · intro other _
    rfl

theorem grant (batchSize : Nat) : Counted (memory ++ List.replicate batchSize ⟨⟨1, 0⟩, true⟩)
    (refs ++ (List.range batchSize).map (memory.length + ·)) := by
  have hold : ∀ id ∈ refs, id < memory.length := by
    intro id hid
    obtain ⟨obj, hobj, -⟩ := hcounted.alive id hid
    exact (List.getElem?_eq_some_iff.mp hobj).1
  constructor
  · intro id obj hobj hvalid
    rcases Nat.lt_or_ge id memory.length with hlt | hge
    · rw [getElem?_append_left hlt] at hobj
      have hnew : ((List.range batchSize).map (memory.length + ·)).count id = 0 := by
        rw [count_eq_zero, mem_map]
        rintro ⟨index, -, rfl⟩
        omega
      rw [count_append, hnew, Nat.add_zero]
      exact hcounted.counts id obj hobj hvalid
    · rw [getElem?_append_right hge, getElem?_replicate] at hobj
      split at hobj
      · next hlt =>
        obtain rfl := Option.some.inj hobj
        have hnone : refs.count id = 0 := by
          rw [count_eq_zero]
          intro hid
          have hlt' := hold id hid
          omega
        have hone : ((List.range batchSize).map (memory.length + ·)).count id = 1 := by
          apply count_eq_one_of_mem
          · apply nodup_range.map
            intro first second heq
            dsimp only at heq
            omega
          · exact mem_map.mpr ⟨id - memory.length, mem_range.mpr hlt, by omega⟩
        rw [count_append, hnone, hone]
        exact ⟨rfl, Int.le_refl 0⟩
      · cases hobj
  · intro id hid
    rcases mem_append.mp hid with hkept | hnew
    · obtain ⟨obj, hobj, hvalid⟩ := hcounted.alive id hkept
      refine ⟨obj, ?_, hvalid⟩
      rw [getElem?_append_left (hold id hkept)]
      exact hobj
    · obtain ⟨index, hindex, rfl⟩ := mem_map.mp hnew
      refine ⟨⟨⟨1, 0⟩, true⟩, ?_, rfl⟩
      rw [getElem?_append_right (by omega), getElem?_replicate,
        Nat.add_sub_cancel_left, if_pos (mem_range.mp hindex)]

end

theorem free {ids : List Nat} (hcounted : Counted memory (ids ++ refs))
    (hone : ∀ id ∈ ids, (ids ++ refs).count id = 1) : Counted (freeObjects memory ids) refs := by
  have hapart : ∀ id ∈ refs, id ∉ ids := by
    intro id hid hfreed
    have hcount := hone id hfreed
    rw [count_append] at hcount
    have hpos := count_pos_iff.mpr hid
    have hpos' := count_pos_iff.mpr hfreed
    omega
  constructor
  · intro id obj hobj hvalid
    obtain ⟨hnot, hobj'⟩ := valid_of_freeObjects hobj hvalid
    have hcounts := hcounted.counts id obj hobj' hvalid
    rwa [count_append, count_eq_zero.mpr hnot, Nat.zero_add] at hcounts
  · intro id hid
    rw [getElem?_freeObjects_of_not_mem (hapart id hid)]
    exact hcounted.alive id (mem_append_right _ hid)

end Counted

end CatKV
