/-
Dictionaries that remember the order in which their keys came in.  Assignment
to a key that is there keeps its place; a key that is moved goes to the end.
-/
import Mathlib.Algebra.Order.Ring.Nat
import Mathlib.Data.List.Nodup
import Mathlib.Data.List.Perm.Basic

namespace CatKV

open List

@[ext]
structure OrderedDict (κ υ : Type) where
  entries : List (κ × υ)
  nodup : (entries.map Prod.fst).Nodup

namespace OrderedDict

variable {κ υ : Type} (dict : OrderedDict κ υ)

def empty : OrderedDict κ υ := ⟨[], List.nodup_nil⟩

def keys : List κ := dict.entries.map Prod.fst

theorem mem_keys {dict : OrderedDict κ υ} {key : κ} :
    key ∈ dict.keys ↔ ∃ value, (key, value) ∈ dict.entries := by
  constructor
  · intro hkey
    obtain ⟨entry, hentry, rfl⟩ := mem_map.mp hkey
    exact ⟨entry.2, hentry⟩
  · rintro ⟨value, hentry⟩
    exact mem_map_of_mem hentry

theorem value_unique {dict : OrderedDict κ υ} {key : κ} {value other : υ}
    (hvalue : (key, value) ∈ dict.entries)
    (hother : (key, other) ∈ dict.entries) : value = other := by
  have heq := inj_on_of_nodup_map dict.nodup hvalue hother rfl
  exact congrArg Prod.snd heq

theorem nodup_entries (dict : OrderedDict κ υ) : dict.entries.Nodup :=
  List.Nodup.of_map _ dict.nodup

/-- The sum of the weights of the entries. -/
def total (weight : κ × υ → Nat) : Nat := (dict.entries.map weight).sum

theorem total_perm {dict other : OrderedDict κ υ} (hperm : dict.entries.Perm other.entries)
    (weight : κ × υ → Nat) : dict.total weight = other.total weight :=
  (hperm.map weight).sum_nat

theorem total_eq_zero {dict : OrderedDict κ υ} {weight : κ × υ → Nat}
    (hzero : ∀ entry ∈ dict.entries, weight entry = 0) : dict.total weight = 0 := by
  rw [total, map_congr_left hzero, map_const', sum_replicate_nat, Nat.mul_zero]

variable [DecidableEq κ]

def get? (key : κ) : Option υ :=
  (dict.entries.find? fun entry => decide (entry.1 = key)).map Prod.snd

def contains (key : κ) : Bool := (dict.get? key).isSome

def pop (key : κ) : OrderedDict κ υ where
  entries := dict.entries.filter fun entry => decide (entry.1 ≠ key)
  nodup := dict.nodup.sublist (List.filter_sublist.map Prod.fst)

variable {dict} {key other : κ} {value : υ}

theorem get?_eq_some_iff : dict.get? key = some value ↔ (key, value) ∈ dict.entries := by
  rw [get?, Option.map_eq_some_iff]
  constructor
  · rintro ⟨entry, hfound, rfl⟩
    have hkey : entry.1 = key := by simpa using find?_some hfound
    rw [← hkey]
    exact mem_of_find?_eq_some hfound
  · intro hmem
    cases hfound : dict.entries.find? fun entry => decide (entry.1 = key) with
    | none =>
      have hnone := find?_eq_none.mp hfound (key, value) hmem
      simp at hnone
    | some entry =>
      have hkey : entry.1 = key := by simpa using find?_some hfound
      refine ⟨entry, rfl, ?_⟩
      have hentry : (key, entry.2) ∈ dict.entries := by
        rw [← hkey]
        exact mem_of_find?_eq_some hfound
      exact value_unique hentry hmem

theorem exists_get? (hkey : key ∈ dict.keys) : ∃ value, dict.get? key = some value := by
  obtain ⟨value, hentry⟩ := mem_keys.mp hkey
  exact ⟨value, get?_eq_some_iff.mpr hentry⟩

theorem mem_keys_of_get? (hvalue : dict.get? key = some value) : key ∈ dict.keys :=
  mem_keys.mpr ⟨value, get?_eq_some_iff.mp hvalue⟩

theorem get?_eq_none_iff : dict.get? key = none ↔ key ∉ dict.keys := by
  rw [mem_keys, not_exists, Option.eq_none_iff_forall_ne_some]
  exact forall_congr' fun value => not_congr get?_eq_some_iff

theorem contains_iff : dict.contains key = true ↔ key ∈ dict.keys := by
  rw [contains, ← Option.ne_none_iff_isSome, ne_eq, get?_eq_none_iff, not_not]

theorem mem_pop {entry : κ × υ} :
    entry ∈ (dict.pop key).entries ↔ entry ∈ dict.entries ∧ entry.1 ≠ key := by
  simp [pop]

theorem not_mem_keys_pop : key ∉ (dict.pop key).keys := by
  rw [mem_keys]
  rintro ⟨value, hentry⟩
  exact (mem_pop.mp hentry).2 rfl

theorem mem_keys_pop : other ∈ (dict.pop key).keys ↔ other ∈ dict.keys ∧ other ≠ key := by
  simp only [mem_keys, mem_pop, exists_and_right]

/-- A key with its value, and the rest. -/
theorem perm_pop (hentry : (key, value) ∈ dict.entries) :
    dict.entries.Perm ((key, value) :: (dict.pop key).entries) := by
  obtain ⟨before, after, hsplit⟩ := append_of_mem hentry
  have hnodup := dict.nodup
  rw [hsplit, map_append, map_cons, nodup_middle, nodup_cons, ← map_append] at hnodup
  have hkept : ∀ entry ∈ before ++ after, decide (entry.1 ≠ key) = true := by
    intro entry hmem
    rw [decide_eq_true_eq]
    intro hsame
    apply hnodup.1
    rw [← show entry.1 = (key, value).1 from hsame]
    exact mem_map_of_mem hmem
  have hpop : (dict.pop key).entries = before ++ after := by
    change dict.entries.filter (fun entry => decide (entry.1 ≠ key)) = _
    rw [hsplit, filter_append, filter_cons_of_neg (by simp),
      ← filter_append, filter_eq_self.mpr hkept]
  rw [hpop, hsplit]
  exact perm_middle

/-- `dict[key] = value`. -/
def set (dict : OrderedDict κ υ) (key : κ) (value : υ) : OrderedDict κ υ :=
  if hkey : key ∈ dict.keys then
    { entries := dict.entries.map fun entry =>
        if entry.1 = key then (key, value) else entry
      nodup := by
        have hkeys : (dict.entries.map fun entry =>
            if entry.1 = key then (key, value) else entry).map Prod.fst = dict.keys := by
          rw [List.map_map, keys]
          apply List.map_congr_left
          intro entry _
          by_cases hsame : entry.1 = key
          · simp [hsame]
          · simp [hsame]
        rw [hkeys]
        exact dict.nodup }
  else
    { entries := dict.entries ++ [(key, value)]
      nodup := by
        rw [List.map_append, List.map_singleton]
        apply List.nodup_append.mpr
        refine ⟨dict.nodup, List.nodup_singleton _, ?_⟩
        rintro first hfirst second hsecond rfl
        obtain rfl := List.mem_singleton.mp hsecond
        exact hkey hfirst }

theorem set_of_not_mem (hkey : key ∉ dict.keys) :
    (dict.set key value).entries = dict.entries ++ [(key, value)] := by
  rw [set, dif_neg hkey]

theorem mem_set {entry : κ × υ} : entry ∈ (dict.set key value).entries ↔
    entry = (key, value) ∨ entry ∈ dict.entries ∧ entry.1 ≠ key := by
  by_cases hkey : key ∈ dict.keys
  · rw [set, dif_pos hkey]
    obtain ⟨old, hold⟩ := mem_keys.mp hkey
    constructor
    · intro hmem
      obtain ⟨source, hsource, rfl⟩ := mem_map.mp hmem
      by_cases hsame : source.1 = key
      · exact Or.inl (if_pos hsame)
      · rw [if_neg hsame]
        exact Or.inr ⟨hsource, hsame⟩
    · rintro (rfl | ⟨hmem, hne⟩)
      · exact mem_map.mpr ⟨(key, old), hold, if_pos rfl⟩
      · exact mem_map.mpr ⟨entry, hmem, if_neg hne⟩
  · rw [set_of_not_mem hkey, mem_append, mem_singleton, or_comm]
    apply or_congr_right
    constructor
    · intro hmem
      refine ⟨hmem, ?_⟩
      rintro rfl
      exact hkey (mem_map_of_mem hmem)
    · exact And.left

theorem mem_keys_set : other ∈ (dict.set key value).keys ↔ other = key ∨ other ∈ dict.keys := by
  rw [mem_keys, mem_keys]
  constructor
  · rintro ⟨found, hfound⟩
    rcases mem_set.mp hfound with heq | ⟨hmem, _⟩
    · exact Or.inl (congrArg Prod.fst heq)
    · exact Or.inr ⟨found, hmem⟩
  · intro hother
    by_cases hsame : other = key
    · exact ⟨value, mem_set.mpr (Or.inl (by rw [hsame]))⟩
    · obtain ⟨found, hfound⟩ := hother.resolve_left hsame
      exact ⟨found, mem_set.mpr (Or.inr ⟨hfound, hsame⟩)⟩

theorem get?_pop (other : κ) : (dict.pop key).get? other =
    if other = key then none else dict.get? other := by
  split
  · next hsame =>
    rw [hsame]
    exact get?_eq_none_iff.mpr not_mem_keys_pop
  · next hne =>
    apply Option.ext
    intro found
    rw [get?_eq_some_iff, get?_eq_some_iff, mem_pop]
    exact and_iff_left hne

theorem get?_set (other : κ) : (dict.set key value).get? other =
    if other = key then some value else dict.get? other := by
  split
  · next hsame =>
    rw [hsame]
    exact get?_eq_some_iff.mpr (mem_set.mpr (Or.inl rfl))
  · next hne =>
    apply Option.ext
    intro found
    rw [get?_eq_some_iff, get?_eq_some_iff, mem_set]
    constructor
    · rintro (heq | ⟨hmem, _⟩)
      · exact absurd (congrArg Prod.fst heq) hne
      · exact hmem
    · exact fun hmem => Or.inr ⟨hmem, hne⟩

/-- `dict.move_to_end(key)`, for a key that is there. -/
def moveToEnd (dict : OrderedDict κ υ) (key : κ) : OrderedDict κ υ :=
  match dict.get? key with
  | none => dict
  | some value => (dict.pop key).set key value

theorem perm_moveToEnd : (dict.moveToEnd key).entries.Perm dict.entries := by
  unfold moveToEnd
  split
  · exact List.Perm.refl _
  · next value hvalue =>
    rw [set_of_not_mem not_mem_keys_pop]
    exact (perm_append_singleton _ _).trans (perm_pop (get?_eq_some_iff.mp hvalue)).symm

/-! Sums over the entries. -/

theorem pop_of_not_mem (hkey : key ∉ dict.keys) : (dict.pop key).entries = dict.entries := by
  apply filter_eq_self.mpr
  intro entry hentry
  rw [decide_eq_true_eq]
  rintro rfl
  exact hkey (mem_map_of_mem hentry)

/-- An assignment puts the key in the place of what was there. -/
theorem perm_set : (dict.set key value).entries.Perm ((key, value) :: (dict.pop key).entries) := by
  apply (perm_ext_iff_of_nodup (nodup_entries _) ?_).mpr
  · intro entry
    rw [mem_set, mem_cons, mem_pop]
  · rw [nodup_cons, mem_pop]
    exact ⟨fun hmem => hmem.2 rfl, nodup_entries _⟩

variable (weight : κ × υ → Nat)

theorem total_pop (hentry : (key, value) ∈ dict.entries) :
    dict.total weight = weight (key, value) + (dict.pop key).total weight := by
  rw [total, ((perm_pop hentry).map weight).sum_nat]
  rfl

theorem total_set : (dict.set key value).total weight =
    weight (key, value) + (dict.pop key).total weight := by
  rw [total, (perm_set.map weight).sum_nat]
  rfl

theorem total_pop_of_not_mem (hkey : key ∉ dict.keys) :
    (dict.pop key).total weight = dict.total weight := by
  rw [total, pop_of_not_mem hkey, total]

end OrderedDict

end CatKV
