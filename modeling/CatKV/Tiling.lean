/-
Items that tile a range of positions: each begins where the one before it ends,
and none is empty.
-/
import Mathlib.Data.List.Basic

namespace CatKV

section Tiling

variable {α : Type*} {start stop : α → Nat}

/-- The items cover the positions from `lower` up to `upper`, in order. -/
def Tiles (start stop : α → Nat) : Nat → List α → Nat → Prop
  | lower, [], upper => lower = upper
  | lower, item :: rest, upper =>
    start item = lower ∧ lower < stop item ∧ Tiles start stop (stop item) rest upper

variable {lower upper : Nat}

theorem tiles_append {first rest : List α} : Tiles start stop lower (first ++ rest) upper ↔
    ∃ middle, Tiles start stop lower first middle ∧ Tiles start stop middle rest upper := by
  induction first generalizing lower with
  | nil => simp [Tiles]
  | cons item first ih => simp [Tiles, ih, and_assoc]

variable {items : List α}

theorem Tiles.le (htiles : Tiles start stop lower items upper) : lower ≤ upper := by
  induction items generalizing lower with
  | nil => exact Nat.le_of_eq htiles
  | cons item rest ih =>
    obtain ⟨-, hlt, hrest⟩ := htiles
    exact Nat.le_trans (Nat.le_of_lt hlt) (ih hrest)

theorem Tiles.bounds (htiles : Tiles start stop lower items upper) {item : α}
    (hitem : item ∈ items) : lower ≤ start item ∧ start item < stop item ∧ stop item ≤ upper := by
  obtain ⟨before, after, rfl⟩ := List.append_of_mem hitem
  obtain ⟨middle, hbefore, hstart, hlt, hafter⟩ := tiles_append.mp htiles
  have hle := hbefore.le
  have hge := hafter.le
  omega

/-- Every position of the range lies in an item. -/
theorem Tiles.cover_iff (htiles : Tiles start stop lower items upper) (position : Nat) :
    (∃ item ∈ items, start item ≤ position ∧ position < stop item) ↔
      lower ≤ position ∧ position < upper := by
  induction items generalizing lower with
  | nil =>
    have heq : lower = upper := htiles
    simp only [List.not_mem_nil, false_and, exists_false, false_iff]
    omega
  | cons item rest ih =>
    obtain ⟨hstart, hlt, hrest⟩ := htiles
    have hle := hrest.le
    simp only [List.mem_cons, exists_eq_or_imp, ih hrest]
    omega

/-- Only the first item begins at the lower end. -/
theorem Tiles.eq_head {head item : α} {rest : List α}
    (htiles : Tiles start stop lower (head :: rest) upper) (hitem : item ∈ head :: rest)
    (hstart : start item = lower) : item = head := by
  obtain ⟨-, hlt, hrest⟩ := htiles
  rcases List.mem_cons.mp hitem with rfl | htail
  · rfl
  · have := (hrest.bounds htail).1
    omega

theorem Tiles.getLast?_stop (htiles : Tiles start stop lower items upper) :
    (items.getLast?.map stop).getD lower = upper := by
  induction items generalizing lower with
  | nil => exact htiles
  | cons item rest ih =>
    rw [← ih htiles.2.2]
    cases rest <;> simp [List.getLast?_cons]

end Tiling

end CatKV
