import Mathlib.Data.List.Nodup
import TraceDB.Data.Except

/-!
# Loops that take each thing once

A loop whose steps refuse what an earlier step has taken.  `Takes` is what one step, or a run of
them, takes; a run takes what its steps take, and nothing twice (`Takes.of_foldlM`).
-/

universe u v

variable {ε : Type u} {α σ : Type v} {γ : Type u}

/-- From one state to another, exactly these things are taken: each once, and none that was taken
before. -/
structure Takes (taken : σ → γ → Prop) (s s' : σ) (things : List γ) : Prop where
  nodup : things.Nodup
  free : ∀ c ∈ things, ¬ taken s c
  taken_iff : ∀ c, taken s' c ↔ taken s c ∨ c ∈ things

namespace Takes

variable {taken : σ → γ → Prop} {s s₁ s₂ : σ}

theorem refl (taken : σ → γ → Prop) (s : σ) : Takes taken s s [] where
  nodup := List.nodup_nil
  free := by simp
  taken_iff := by simp

/-- One thing is taken. -/
theorem single {c : γ} (hfree : ¬ taken s c) (h : ∀ d, taken s₁ d ↔ taken s d ∨ d = c) :
    Takes taken s s₁ [c] where
  nodup := List.nodup_singleton c
  free := by simpa using hfree
  taken_iff := by simpa using h

theorem trans {xs ys : List γ} (h₁ : Takes taken s s₁ xs) (h₂ : Takes taken s₁ s₂ ys) :
    Takes taken s s₂ (xs ++ ys) where
  nodup := by
    refine List.nodup_append'.2 ⟨h₁.nodup, h₂.nodup, ?_⟩
    intro c hx hy
    exact h₂.free c hy ((h₁.taken_iff c).2 (.inr hx))
  free := by
    intro c hc htaken
    rcases List.mem_append.1 hc with hc | hc
    · exact h₁.free c hc htaken
    · exact h₂.free c hc ((h₁.taken_iff c).2 (.inl htaken))
  taken_iff := by
    intro c
    rw [h₂.taken_iff, h₁.taken_iff, List.mem_append, or_assoc]

/-- A loop takes what its steps take. -/
theorem of_foldlM {f : σ → α → Except ε σ} {things : α → List γ} {I : σ → Prop}
    (hstep : ∀ s x s', I s → f s x = .ok s' → I s' ∧ Takes taken s s' (things x))
    {xs : List α} {s s' : σ} (hs : I s) (h : xs.foldlM f s = .ok s') :
    I s' ∧ Takes taken s s' (xs.flatMap things) := by
  induction xs generalizing s with
  | nil =>
    cases h
    exact ⟨hs, refl taken _⟩
  | cons x xs ih =>
    rw [List.foldlM_cons, Except.bind_eq_ok_iff] at h
    obtain ⟨s₁, hx, hxs⟩ := h
    obtain ⟨hs₁, htakes⟩ := hstep s x s₁ hs hx
    obtain ⟨hs', hrest⟩ := ih hs₁ hxs
    rw [List.flatMap_cons]
    exact ⟨hs', htakes.trans hrest⟩

end Takes
