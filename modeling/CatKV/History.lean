/-
What happened last.  A history lists events from the oldest to the newest; an
event holds since another when it has happened and nothing later ended it.
-/
import Mathlib.Data.List.Basic

namespace CatKV

variable {α : Type}

/-- Something opening has happened, and nothing closing after it. -/
def Since (opens closes : α → Prop) (history : List α) : Prop :=
  ∃ before event after, history = before ++ event :: after ∧ opens event ∧
    ∀ later ∈ after, ¬ closes later

variable {opens closes : α → Prop} {history : List α} {event : α}

theorem not_since_nil : ¬ Since opens closes [] := by
  rintro ⟨before, event, after, hsplit, _⟩
  exact absurd hsplit.symm (by simp)

theorem Since.exists_mem (hsince : Since opens closes history) :
    ∃ event ∈ history, opens event := by
  obtain ⟨before, event, after, hsplit, hopens, -⟩ := hsince
  rw [hsplit]
  exact ⟨event, List.mem_append_right _ List.mem_cons_self, hopens⟩

theorem Since.imp {others : α → Prop} (himp : ∀ event, opens event →
    others event) (hsince : Since opens closes history) : Since others closes history := by
  obtain ⟨before, event, after, hsplit, hopens, hafter⟩ := hsince
  exact ⟨before, event, after, hsplit, himp event hopens, hafter⟩

/-- What ends less lets more hold. -/
theorem Since.mono {others : α → Prop} (himp : ∀ event, others event →
    closes event) (hsince : Since opens closes history) : Since opens others history := by
  obtain ⟨before, event, after, hsplit, hopens, hafter⟩ := hsince
  refine ⟨before, event, after, hsplit, hopens, ?_⟩
  exact fun later hlater hothers => hafter later hlater (himp later hothers)

/-- One more event. -/
theorem since_concat : Since opens closes (history ++ [event]) ↔
    opens event ∨ Since opens closes history ∧ ¬ closes event := by
  constructor
  · rintro ⟨before, first, after, hsplit, hopens, hafter⟩
    rcases List.eq_nil_or_concat after with rfl | ⟨init, last, rfl⟩
    · obtain ⟨-, heq⟩ := List.append_inj' hsplit rfl
      rw [List.cons.injEq] at heq
      exact Or.inl (heq.1 ▸ hopens)
    · rw [List.concat_eq_append, ← List.cons_append, ← List.append_assoc] at hsplit
      obtain ⟨hinit, hlast⟩ := List.append_inj' hsplit rfl
      rw [List.cons.injEq] at hlast
      right
      refine ⟨⟨before, first, init, hinit, hopens, ?_⟩, ?_⟩
      · exact fun later hlater => hafter later (by simp [hlater])
      · rw [hlast.1]
        exact hafter last (by simp)
  · rintro (hopens | ⟨⟨before, first, after, rfl, hopens, hafter⟩, hcloses⟩)
    · exact ⟨history, event, [], rfl, hopens, List.forall_mem_nil _⟩
    · exact ⟨before, first, after ++ [event], by simp, hopens,
        List.forall_mem_append.mpr ⟨hafter, by simpa using hcloses⟩⟩

end CatKV
