/-
A bounded cursor over a byte buffer and the two rules used to reason about
parsers built from it: what a parser consumes when the bytes are known, and
what the bytes were when it succeeded.  The error type is a parameter.
-/
import CatKV.ByteString

namespace CatKV

open List

/-- A cursor into a buffer.  Positions are offsets from the first byte. -/
structure Cursor where
  buffer : Bytes
  position : Nat
deriving Repr, DecidableEq

/-- `static_cast<std::size_t>(end_ - cur_)`; a cursor past the end would wrap
to an enormous count. -/
def Cursor.remaining (cursor : Cursor) : Nat :=
  if cursor.position ≤ cursor.buffer.length then cursor.buffer.length - cursor.position
  else 2 ^ 64 - (cursor.position - cursor.buffer.length)

def Cursor.InBounds (cursor : Cursor) : Prop := cursor.position ≤ cursor.buffer.length

variable {cursor : Cursor}

theorem Cursor.remaining_of_inBounds (hbounds : cursor.InBounds) :
    cursor.remaining = cursor.buffer.length - cursor.position :=
  if_pos hbounds

/-- Later state of a cursor that only moved forward inside its buffer. -/
structure Cursor.Advanced (before after : Cursor) : Prop where
  buffer_eq : after.buffer = before.buffer
  le : before.position ≤ after.position
  inBounds : after.InBounds

theorem Cursor.Advanced.refl (hbounds : cursor.InBounds) : cursor.Advanced cursor :=
  ⟨rfl, Nat.le_refl _, hbounds⟩

theorem Cursor.Advanced.trans {first second third : Cursor} (hleft : first.Advanced second)
    (hright : second.Advanced third) : first.Advanced third :=
  ⟨hright.buffer_eq.trans hleft.buffer_eq, Nat.le_trans hleft.le hright.le, hright.inBounds⟩

/-- The bytes between two cursors of one buffer. -/
structure Cursor.Passed (before : Cursor) (bytes : Bytes) (after : Cursor) : Prop where
  buffer_eq : after.buffer = before.buffer
  position_eq : after.position = before.position + bytes.length
  segment : ∃ rest, before.buffer.drop before.position = bytes ++ rest

theorem Cursor.Passed.advanced {before after : Cursor} {bytes : Bytes} (hbounds : before.InBounds)
    (hpassed : before.Passed bytes after) : before.Advanced after := by
  obtain ⟨rest, hrest⟩ := hpassed.segment
  have hlength := congrArg List.length hrest
  simp only [length_drop, length_append] at hlength
  have hle : before.position ≤ before.buffer.length := hbounds
  refine ⟨hpassed.buffer_eq, ?_, ?_⟩
  · rw [hpassed.position_eq]
    omega
  · rw [Cursor.InBounds, hpassed.buffer_eq, hpassed.position_eq]
    omega

theorem Cursor.Passed.append {first second third : Cursor} {left right : Bytes}
    (hleft : first.Passed left second) (hright : second.Passed right third) :
    first.Passed (left ++ right) third := by
  obtain ⟨rest, hrest⟩ := hleft.segment
  obtain ⟨rest', hrest'⟩ := hright.segment
  refine ⟨hright.buffer_eq.trans hleft.buffer_eq, ?_, rest', ?_⟩
  · rw [hright.position_eq, hleft.position_eq, length_append]
    omega
  · have hdrop : second.buffer.drop second.position = rest := by
      rw [hleft.buffer_eq, hleft.position_eq, ← drop_drop, hrest, drop_left]
    rw [hrest, ← hdrop, hrest', append_assoc]

/-- Parsers over one buffer; the cursor survives a thrown error. -/
abbrev ByteParser (ε : Type) (α : Type) := EStateM ε Cursor α

variable {ε α β : Type}

/-- Move past `count` bytes and return them, or fail with `short` when fewer
remain. -/
def advance (short : ε) (count : Nat) : ByteParser ε Bytes := fun cursor =>
  if cursor.remaining < count then .error short cursor
  else .ok ((cursor.buffer.drop cursor.position).take count)
    { cursor with position := cursor.position + count }

/-- On known bytes at a known offset the parser consumes exactly them. -/
def Consumes (parser : ByteParser ε α) (start : Nat) (bytes : Bytes) (value : α) : Prop :=
  ∀ before after : Bytes, before.length = start → parser ⟨before ++ bytes ++ after, start⟩ =
      .ok value ⟨before ++ bytes ++ after, start + bytes.length⟩

theorem consumes_pure (start : Nat) (value : α) :
    Consumes (pure value : ByteParser ε α) start [] value := by
  intro before after _
  rfl

variable {parser : ByteParser ε α}

theorem Consumes.bind {next : α → ByteParser ε β} {start : Nat} {left right : Bytes} {value : α}
    {result : β} (hleft : Consumes parser start left value)
    (hright : Consumes (next value) (start + left.length) right result) :
    Consumes (parser >>= next) start (left ++ right) result := by
  intro before after hstart
  have hfirst := hleft before (right ++ after) hstart
  have hsecond := hright (before ++ left) after (by simp [hstart])
  have hbuffer : before ++ left ++ right ++ after = before ++ (left ++ right) ++ after := by simp
  rw [← append_assoc, hbuffer] at hfirst
  rw [hbuffer] at hsecond
  change EStateM.bind parser next _ = _
  rw [EStateM.bind, hfirst]
  simp only [hsecond, length_append, Nat.add_assoc]

theorem Consumes.map {start : Nat} {bytes : Bytes} {value : α}
    (hparser : Consumes parser start bytes value) (f : α → β) :
    Consumes (f <$> parser) start bytes (f value) := by
  intro before after hstart
  change EStateM.map f parser _ = _
  rw [EStateM.map, hparser before after hstart]

theorem consumes_advance (short : ε) (start : Nat) (bytes : Bytes) :
    Consumes (advance short bytes.length) start bytes bytes := by
  intro before after hstart
  have hbounds : Cursor.InBounds ⟨before ++ bytes ++ after, start⟩ := by
    simp only [Cursor.InBounds, length_append]
    omega
  have henough : ¬ Cursor.remaining ⟨before ++ bytes ++ after, start⟩ < bytes.length := by
    rw [Cursor.remaining_of_inBounds hbounds]
    simp only [length_append]
    omega
  have hsegment : ((before ++ bytes ++ after).drop start).take bytes.length = bytes := by
    rw [← hstart, append_assoc, drop_left, take_left]
  simp only [advance, henough, ↓reduceIte, hsegment]

/-- What a parser guarantees from any cursor inside its buffer: a thrown error
leaves the cursor inside, and success describes the bytes it passed. -/
def Parses (parser : ByteParser ε α) (described : Nat → Bytes → α → Prop) : Prop :=
  ∀ cursor : Cursor, cursor.InBounds →
    match parser cursor with
    | .error _ final => cursor.Advanced final
    | .ok value final =>
      ∃ bytes, cursor.Passed bytes final ∧ described cursor.position bytes value

variable {described : Nat → Bytes → α → Prop}

theorem Parses.ok (hparser : Parses parser described) {final : Cursor} {value : α}
    (hbounds : cursor.InBounds) (hrun : parser cursor = .ok value final) :
    ∃ bytes, cursor.Passed bytes final ∧ described cursor.position bytes value := by
  have := hparser cursor hbounds
  rwa [hrun] at this

theorem Parses.error (hparser : Parses parser described) {final : Cursor}
    {failure : ε} (hbounds : cursor.InBounds)
    (hrun : parser cursor = .error failure final) : cursor.Advanced final := by
  have := hparser cursor hbounds
  rwa [hrun] at this

theorem Cursor.passed_nil (cursor : Cursor) : cursor.Passed [] cursor :=
  ⟨rfl, rfl, cursor.buffer.drop cursor.position, rfl⟩

theorem parses_pure (value : α) : Parses (pure value : ByteParser ε α)
    (fun _ bytes result => bytes = [] ∧ result = value) := by
  intro cursor _
  exact ⟨[], cursor.passed_nil, rfl, rfl⟩

theorem parses_throw (failure : ε) (described : Nat → Bytes → α → Prop) :
    Parses (throw failure : ByteParser ε α) described := by
  intro cursor hbounds
  exact Cursor.Advanced.refl hbounds

theorem Parses.bind {next : α → ByteParser ε β} {first : Nat → Bytes → α → Prop}
    {second : α → Nat → Bytes → β → Prop} (hparser : Parses parser first)
    (hnext : ∀ value, Parses (next value) (second value)) :
    Parses (parser >>= next) (fun start bytes result =>
      ∃ left right value, bytes = left ++ right ∧ first start left value ∧
        second value (start + left.length) right result) := by
  intro cursor hbounds
  change match EStateM.bind parser next cursor with
    | .error _ final => _
    | .ok value final => _
  rw [EStateM.bind]
  cases hrun : parser cursor with
  | error failure final => exact hparser.error hbounds hrun
  | ok value middle =>
    obtain ⟨left, hleft, hfirst⟩ := hparser.ok hbounds hrun
    have hmiddle := (hleft.advanced hbounds).inBounds
    simp only
    cases hlast : next value middle with
    | error failure final =>
      exact (hleft.advanced hbounds).trans ((hnext value).error hmiddle hlast)
    | ok result final =>
      obtain ⟨right, hright, hsecond⟩ := (hnext value).ok hmiddle hlast
      refine ⟨left ++ right, hleft.append hright, left, right, value, rfl, hfirst, ?_⟩
      rw [← hleft.position_eq]
      exact hsecond

/-- Weaken or rephrase what a successful parse says about its bytes. -/
theorem Parses.mono {described' : Nat → Bytes → α → Prop} (hparser : Parses parser described)
    (himp : ∀ start bytes value, described start bytes value →
      described' start bytes value) : Parses parser described' := by
  intro cursor hbounds
  cases hrun : parser cursor with
  | error failure final => exact hparser.error hbounds hrun
  | ok value final =>
    obtain ⟨bytes, hpassed, hdescribed⟩ := hparser.ok hbounds hrun
    exact ⟨bytes, hpassed, himp _ _ _ hdescribed⟩

theorem Parses.map (hparser : Parses parser described) (f : α → β) :
    Parses (f <$> parser) (fun start bytes result =>
      ∃ value, described start bytes value ∧ result = f value) := by
  intro cursor hbounds
  change match EStateM.map f parser cursor with
    | .error _ final => _
    | .ok value final => _
  rw [EStateM.map]
  cases hrun : parser cursor with
  | error failure final => exact hparser.error hbounds hrun
  | ok value final =>
    obtain ⟨bytes, hpassed, hdescribed⟩ := hparser.ok hbounds hrun
    exact ⟨bytes, hpassed, value, hdescribed, rfl⟩

theorem parses_advance (short : ε) (count : Nat) : Parses (advance short count)
    (fun _ bytes result => bytes.length = count ∧ result = bytes) := by
  intro cursor hbounds
  by_cases hshort : cursor.remaining < count
  · simp only [advance, hshort, ↓reduceIte]
    exact Cursor.Advanced.refl hbounds
  · simp only [advance, hshort, ↓reduceIte]
    have hlength : ((cursor.buffer.drop cursor.position).take count).length = count := by
      rw [Cursor.remaining_of_inBounds hbounds] at hshort
      simp only [length_take, length_drop]
      omega
    refine ⟨_, ⟨rfl, ?_, _, (take_append_drop count _).symm⟩, hlength, rfl⟩
    rw [hlength]

end CatKV
