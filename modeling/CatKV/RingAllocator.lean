/-
A ring allocator that keeps no record of what it handed out.  Its cursor moves
forward through a fixed block and starts again at zero when a request does not
fit in what is left.  Two regions are separate as long as the cursor has not
travelled further than one block since the older one began.
-/
import Mathlib.Data.List.Basic
import Mathlib.Tactic.Ring

namespace CatKV

structure Interval where
  start : Nat
  size : Nat
deriving Repr, DecidableEq

def Interval.stop (interval : Interval) : Nat := interval.start + interval.size

def Interval.Separate (left right : Interval) : Prop :=
  left.stop ≤ right.start ∨ right.stop ≤ left.start

instance Interval.separateDecidable (left right : Interval) : Decidable (left.Separate right) :=
  inferInstanceAs (Decidable (_ ∨ _))

theorem Interval.Separate.symm {left right : Interval}
    (hseparate : left.Separate right) : right.Separate left :=
  Or.symm hseparate

def Interval.Within (inner outer : Interval) : Prop :=
  outer.start ≤ inner.start ∧ inner.stop ≤ outer.stop

/-- The cursor of a block.  `travelled` is the distance it has covered since
the block was made: bytes handed out, gaps and abandoned tails. -/
structure Ring where
  capacity : Nat
  offset : Nat
  travelled : Nat
deriving Repr, DecidableEq

/-- Where a request goes when the cursor is first rounded up to `aligned`. -/
def Ring.start (ring : Ring) (aligned size : Nat) : Nat :=
  if aligned + size > ring.capacity then 0 else aligned

/-- How far the cursor moves for a request. -/
def Ring.distance (ring : Ring) (aligned size : Nat) : Nat :=
  if aligned + size > ring.capacity then ring.capacity - ring.offset + size
  else aligned - ring.offset + size

def Ring.advance (ring : Ring) (aligned size : Nat) : Ring :=
  { ring with
    offset := ring.start aligned size + size
    travelled := ring.travelled + ring.distance aligned size }

/-- The distance at which the region of a request begins. -/
def Ring.stamp (ring : Ring) (aligned size : Nat) : Nat :=
  ring.travelled + ring.distance aligned size - size

/-- The cursor is inside the block and has covered whole laps plus its
offset. -/
def Ring.Valid (ring : Ring) : Prop :=
  ring.offset ≤ ring.capacity ∧ ∃ lap, ring.travelled = lap * ring.capacity + ring.offset

/-- A region that was handed out at distance `stamp`. -/
def Ring.Placed (ring : Ring) (region : Interval) (stamp : Nat) : Prop :=
  region.stop ≤ ring.capacity ∧ stamp + region.size ≤ ring.travelled ∧
    ∃ lap, stamp = lap * ring.capacity + region.start

/-- The cursor comes at most once round from `stamp` to the end of the
request. -/
def Ring.Room (ring : Ring) (aligned size stamp : Nat) : Prop :=
  ring.travelled + ring.distance aligned size ≤ stamp + ring.capacity

instance Ring.roomDecidable (ring : Ring) (aligned size stamp : Nat) :
    Decidable (ring.Room aligned size stamp) :=
  inferInstanceAs (Decidable (_ ≤ _))

variable {ring : Ring} {aligned size : Nat}

theorem Ring.start_stop_le (aligned : Nat) (hsize : size ≤ ring.capacity) :
    ring.start aligned size + size ≤ ring.capacity := by
  unfold Ring.start
  split <;> omega

theorem Ring.Valid.travelled_advance (hvalid : ring.Valid)
    (haligned : ring.offset ≤ aligned) (size : Nat) :
    ∃ lap, (ring.advance aligned size).travelled =
      lap * ring.capacity + (ring.start aligned size + size) := by
  obtain ⟨hoffset, lap, hlap⟩ := hvalid
  unfold Ring.advance Ring.start Ring.distance
  split
  · refine ⟨lap + 1, ?_⟩
    have hnext : (lap + 1) * ring.capacity = lap * ring.capacity + ring.capacity := by ring
    simp only
    omega
  · refine ⟨lap, ?_⟩
    simp only
    omega

theorem Ring.Valid.advance (hvalid : ring.Valid) (haligned : ring.offset ≤ aligned)
    (hsize : size ≤ ring.capacity) : (ring.advance aligned size).Valid :=
  ⟨Ring.start_stop_le aligned hsize, hvalid.travelled_advance haligned size⟩

theorem Ring.Placed.advance {region : Interval} {stamp : Nat} (hplaced : ring.Placed region stamp) :
    (ring.advance aligned size).Placed region stamp := by
  obtain ⟨hinside, hbefore, hlap⟩ := hplaced
  refine ⟨hinside, ?_, hlap⟩
  simp only [Ring.advance]
  omega

theorem Ring.Valid.placed_advance (hvalid : ring.Valid)
    (haligned : ring.offset ≤ aligned) (hsize : size ≤ ring.capacity) :
    (ring.advance aligned size).Placed ⟨ring.start aligned size, size⟩
      (ring.stamp aligned size) := by
  obtain ⟨lap, hlap⟩ := hvalid.travelled_advance haligned size
  have hdistance : size ≤ ring.distance aligned size := by
    unfold Ring.distance
    split <;> omega
  refine ⟨Ring.start_stop_le aligned hsize, ?_, lap, ?_⟩
  · simp only [Ring.advance, Ring.stamp]
    omega
  · simp only [Ring.advance] at hlap
    simp only [Ring.stamp, Ring.advance]
    omega

/-- A new region is separate from an older one when the cursor has not come
round to where the older one began. -/
theorem Ring.Valid.separate (hvalid : ring.Valid) (haligned : ring.offset ≤ aligned)
    (hsize : size ≤ ring.capacity) {region : Interval} {stamp : Nat}
    (hplaced : ring.Placed region stamp) (hroom : ring.Room aligned size stamp) :
    Interval.Separate ⟨ring.start aligned size, size⟩ region := by
  obtain ⟨lap, hlap⟩ := hvalid.travelled_advance haligned size
  obtain ⟨hinside, hbefore, lap', hlap'⟩ := hplaced
  have hstop := Ring.start_stop_le aligned hsize
  have hdistance : size ≤ ring.distance aligned size := by
    unfold Ring.distance
    split <;> omega
  simp only [Ring.advance] at hlap
  simp only [Ring.Room] at hroom
  simp only [Interval.Separate, Interval.stop] at hinside ⊢
  rcases Nat.lt_trichotomy lap lap' with hlt | rfl | hgt
  · obtain ⟨more, rfl⟩ := Nat.exists_eq_add_of_lt hlt
    have hexpand : (lap + more + 1) * ring.capacity =
        lap * ring.capacity + more * ring.capacity + ring.capacity := by ring
    omega
  · omega
  · obtain ⟨more, rfl⟩ := Nat.exists_eq_add_of_lt hgt
    have hexpand : (lap' + more + 1) * ring.capacity =
        lap' * ring.capacity + more * ring.capacity + ring.capacity := by ring
    omega

theorem Ring.Room.of_le {stamp stamp' : Nat} (hroom : ring.Room aligned size stamp)
    (hle : stamp ≤ stamp') : ring.Room aligned size stamp' :=
  Nat.le_trans hroom (Nat.add_le_add_right hle _)

/-- Room for a second request is room for the first. -/
theorem Ring.Room.of_advance {aligned' size' stamp : Nat}
    (hroom : (ring.advance aligned size).Room aligned' size' stamp) :
    ring.Room aligned size stamp := by
  simp only [Ring.Room, Ring.advance] at hroom ⊢
  omega

theorem Ring.stamp_le_stamp_advance (ring : Ring) (aligned size aligned' size' : Nat) :
    ring.stamp aligned size ≤ (ring.advance aligned size).stamp aligned' size' := by
  have hsecond : size' ≤ (ring.advance aligned size).distance aligned' size' := by
    unfold Ring.distance
    split <;> omega
  have htravelled : (ring.advance aligned size).travelled =
    ring.travelled + ring.distance aligned size := rfl
  unfold Ring.stamp
  omega

/-! Several objects laid out one after another inside a region. -/

/-- Each object starts no earlier than the previous one ends, from `first` on,
and the last one ends by `last`. -/
def Ascending : Nat → List Nat → List Nat → Nat → Prop
  | first, offset :: offsets, size :: sizes, last =>
    first ≤ offset ∧ Ascending (offset + size) offsets sizes last
  | first, _, _, last => first ≤ last

def objectIntervals (base : Nat) (offsets sizes : List Nat) : List Interval :=
  List.zipWith (fun offset size => ⟨base + offset, size⟩) offsets sizes

variable {first last : Nat} {offsets sizes : List Nat}

section

variable (hascending : Ascending first offsets sizes last)

include hascending

theorem Ascending.of_le {first' : Nat} (hle : first' ≤ first) :
    Ascending first' offsets sizes last := by
  cases offsets with
  | nil => exact Nat.le_trans hle (by simpa [Ascending] using hascending)
  | cons offset offsets =>
    cases sizes with
    | nil => exact Nat.le_trans hle (by simpa [Ascending] using hascending)
    | cons size sizes =>
      exact ⟨Nat.le_trans hle hascending.1, hascending.2⟩

theorem Ascending.tighten {last' : Nat} (hfirst : first ≤ last')
    (hends : ∀ stop ∈ List.zipWith (· + ·) offsets sizes, stop ≤ last') :
    Ascending first offsets sizes last' := by
  induction offsets generalizing first sizes with
  | nil => simpa [Ascending] using hfirst
  | cons offset offsets ih =>
    cases sizes with
    | nil => simpa [Ascending] using hfirst
    | cons size sizes =>
      simp only [List.zipWith_cons_cons, List.forall_mem_cons] at hends
      exact ⟨hascending.1, ih hascending.2 hends.1 hends.2⟩

theorem Ascending.ends_le : first ≤ last ∧
    ∀ stop ∈ List.zipWith (· + ·) offsets sizes, stop ≤ last := by
  induction offsets generalizing first sizes with
  | nil => exact ⟨by simpa [Ascending] using hascending, by simp⟩
  | cons offset offsets ih =>
    cases sizes with
    | nil => exact ⟨by simpa [Ascending] using hascending, by simp⟩
    | cons size sizes =>
      obtain ⟨hfirst, hrest⟩ := hascending
      obtain ⟨hlast, hends⟩ := ih hrest
      refine ⟨by omega, ?_⟩
      simp only [List.zipWith_cons_cons, List.forall_mem_cons]
      exact ⟨hlast, hends⟩

theorem Ascending.within (base : Nat) :
    first ≤ last ∧ ∀ interval ∈ objectIntervals base offsets sizes,
      base + first ≤ interval.start ∧ interval.stop ≤ base + last := by
  induction offsets generalizing first sizes with
  | nil => exact ⟨by simpa [Ascending] using hascending, by simp [objectIntervals]⟩
  | cons offset offsets ih =>
    cases sizes with
    | nil =>
      exact ⟨by simpa [Ascending] using hascending, by simp [objectIntervals]⟩
    | cons size sizes =>
      obtain ⟨hfirst, hrest⟩ := hascending
      obtain ⟨hlast, hwithin⟩ := ih hrest
      refine ⟨by omega, ?_⟩
      intro interval hinterval
      simp only [objectIntervals, List.zipWith_cons_cons, List.mem_cons] at hinterval
      rcases hinterval with rfl | hinterval
      · simp only [Interval.stop]
        omega
      · have hbounds := hwithin interval hinterval
        omega

theorem Ascending.separate (base : Nat) :
    (objectIntervals base offsets sizes).Pairwise Interval.Separate := by
  induction offsets generalizing first sizes with
  | nil => simp [objectIntervals]
  | cons offset offsets ih =>
    cases sizes with
    | nil => simp [objectIntervals]
    | cons size sizes =>
      obtain ⟨_, hrest⟩ := hascending
      simp only [objectIntervals, List.zipWith_cons_cons, List.pairwise_cons]
      refine ⟨?_, ih hrest⟩
      intro interval hinterval
      have hbounds := (hrest.within base).2 interval hinterval
      exact Or.inl (by simp only [Interval.stop]; omega)

end

end CatKV
