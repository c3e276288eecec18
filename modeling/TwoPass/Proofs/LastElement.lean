import Mathlib.Data.List.Basic

set_option autoImplicit false

/-!
# The last element with a property

Where later things overrule earlier ones, what stands is decided by the last element of a list that
has some property.  One more element at the end either has it and decides, or changes nothing; so
what is said of the last element is proved from the end of the list.
-/

namespace TwoPass

variable {α : Type} {p : α → Prop} {xs : List α} {x y : α}

/-- The last element of a list that has a property. -/
def IsLast (p : α → Prop) (xs : List α) (x : α) : Prop :=
  ∃ before after, xs = before ++ x :: after ∧ p x ∧ ∀ y ∈ after, ¬ p y

theorem not_isLast_nil : ¬ IsLast p [] x := by
  rintro ⟨before, after, h, _⟩
  simp at h

/-- One more element is the last with the property if it has it, and changes nothing if it does
not. -/
theorem isLast_append_singleton : IsLast p (xs ++ [y]) x ↔ p y ∧ x = y ∨ ¬ p y ∧ IsLast p xs x := by
  constructor
  · rintro ⟨before, after, h, hx, hafter⟩
    rcases List.eq_nil_or_concat after with rfl | ⟨after, last, rfl⟩
    · obtain ⟨rfl, hlast⟩ := List.append_inj' h rfl
      obtain rfl : y = x := by simpa using hlast
      exact Or.inl ⟨hx, rfl⟩
    · rw [List.concat_eq_append, ← List.cons_append, ← List.append_assoc] at h
      obtain ⟨rfl, hlast⟩ := List.append_inj' h rfl
      obtain rfl : y = last := by simpa using hlast
      rw [List.concat_eq_append, List.forall_mem_append] at hafter
      exact Or.inr ⟨hafter.2 y (by simp), before, after, rfl, hx, hafter.1⟩
  · rintro (⟨hy, rfl⟩ | ⟨hy, before, after, rfl, hx, hafter⟩)
    · exact ⟨xs, [], rfl, hy, by simp⟩
    · refine ⟨before, after ++ [y], by simp, hx, ?_⟩
      exact List.forall_mem_append.mpr ⟨hafter, List.forall_mem_singleton.mpr hy⟩

end TwoPass
