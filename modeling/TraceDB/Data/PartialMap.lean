import Mathlib.Logic.Function.Basic

/-!
# Partial maps

A partial map is a function to `Option`, written to with `Function.update`.  The lemmas say where a
value of a written map comes from.
-/

universe u v w

variable {α : Type u} {β : Type v} {γ : Type w} [DecidableEq α] {f : α → Option β} {a b : α}
  {x y : β}

/-- A value of a map after a write is the one written, or was there before. -/
theorem eq_or_of_update_some (h : Function.update f a (some x) b = some y) :
    (b = a ∧ y = x) ∨ (b ≠ a ∧ f b = some y) := by
  by_cases hb : b = a
  · subst hb
    rw [Function.update_self] at h
    exact .inl ⟨rfl, (Option.some.inj h).symm⟩
  · rw [Function.update_of_ne hb] at h
    exact .inr ⟨hb, h⟩

/-- A value that was not written was there before. -/
theorem of_update_of_ne {g : α → γ} {z w : γ} (hne : z ≠ w) (h : Function.update g a z b = w) :
    b ≠ a ∧ g b = w := by
  have hb : b ≠ a := by
    rintro rfl
    rw [Function.update_self] at h
    exact hne h
  rw [Function.update_of_ne hb] at h
  exact ⟨hb, h⟩

/-- Where a value is not the one written, nothing was written. -/
theorem of_update_ne_self {g : α → γ} {z : γ} (h : Function.update g a z b ≠ z) :
    b ≠ a ∧ g b ≠ z := by
  have hb : b ≠ a := by
    rintro rfl
    exact h (Function.update_self ..)
  rw [Function.update_of_ne hb] at h
  exact ⟨hb, h⟩

/-- A value of a map after a removal was there before. -/
theorem of_update_none (h : Function.update f a none b = some y) : b ≠ a ∧ f b = some y :=
  of_update_of_ne (Option.some_ne_none y).symm h
