/-
Consecutive segments of a list.  Pieces joined one after the other are found
again at the index pairs that their lengths add up to, and any list of the same
length is cut at the same places.
-/
import Mathlib.Algebra.Order.Ring.Nat
import Mathlib.Data.List.Basic

namespace CatKV

universe u v

section Segments

variable {α : Type u} {β : Type v}

/-- The rows from `start` up to `stop`, clipped to the list. -/
def segment (rows : List α) (start stop : Nat) : List α := (rows.drop start).take (stop - start)

/-- Consecutive index pairs for pieces of the given lengths. -/
def spans : Nat → List Nat → List (Nat × Nat)
  | _, [] => []
  | offset, length :: rest =>
    (offset, offset + length) :: spans (offset + length) rest

/-- A list cut into consecutive pieces of the given lengths. -/
def cut : List Nat → List α → List (List α)
  | [], _ => []
  | length :: rest, rows => rows.take length :: cut rest (rows.drop length)

theorem length_spans (offset : Nat) (lengths : List Nat) :
    (spans offset lengths).length = lengths.length := by
  induction lengths generalizing offset with
  | nil => rfl
  | cons length rest ih => rw [spans, List.length_cons, ih, List.length_cons]

theorem map_sub_spans (offset : Nat) (lengths : List Nat) :
    ((spans offset lengths).map fun span => span.2 - span.1) = lengths := by
  induction lengths generalizing offset with
  | nil => rfl
  | cons length rest ih =>
    rw [spans, List.map_cons, ih, Nat.add_sub_cancel_left]

/-- Slicing at consecutive index pairs cuts the list. -/
theorem map_segment_spans (rows : List α) (offset : Nat) (lengths : List Nat) :
    ((spans offset lengths).map fun span => segment rows span.1 span.2) =
      cut lengths (rows.drop offset) := by
  induction lengths generalizing offset with
  | nil => rfl
  | cons length rest ih =>
    rw [spans, List.map_cons, ih, cut, segment, Nat.add_sub_cancel_left, List.drop_drop]

/-- Joined pieces are cut apart again. -/
theorem cut_flatten (pieces : List (List α)) :
    cut (pieces.map List.length) pieces.flatten = pieces := by
  induction pieces with
  | nil => rfl
  | cons piece rest ih =>
    rw [List.map_cons, List.flatten_cons, cut, List.take_left, List.drop_left, ih]

end Segments

end CatKV
