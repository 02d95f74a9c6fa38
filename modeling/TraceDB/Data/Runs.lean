import Mathlib.Data.List.Basic

/-!
# Runs of a labelled transition system

A run records the label of every step it takes.  Steps can be restricted to those that are allowed
in the state they start from, so that a property of all runs and a property of the runs under a
condition are the same kind of statement.
-/

universe u v

/-- The runs from a state: the labels in order, and the state reached. -/
inductive Runs {σ : Type u} {ℓ : Type v} (step : σ → ℓ → σ → Prop) (allowed : σ → ℓ → Prop)
    (start : σ) : List ℓ → σ → Prop
  | start : Runs step allowed start [] start
  | step {trace : List ℓ} {s s' : σ} {label : ℓ} : Runs step allowed start trace s →
      allowed s label → step s label s' → Runs step allowed start (trace ++ [label]) s'

namespace Runs

variable {σ : Type u} {ℓ : Type v} {step : σ → ℓ → σ → Prop} {allowed : σ → ℓ → Prop} {start : σ}

/-- What holds at the start and is kept by every step holds along every run. -/
theorem invariant {I : List ℓ → σ → Prop} (hstart : I [] start)
    (hstep : ∀ trace s label s', allowed s label → step s label s' → I trace s →
      I (trace ++ [label]) s')
    {trace : List ℓ} {s : σ} (h : Runs step allowed start trace s) : I trace s := by
  induction h with
  | start => exact hstart
  | step _ hallowed hs ih => exact hstep _ _ _ _ hallowed hs ih

/-- A run under a condition is a run under any weaker one. -/
theorem mono {allowed' : σ → ℓ → Prop} (hweaker : ∀ s label, allowed s label → allowed' s label)
    {trace : List ℓ} {s : σ} (h : Runs step allowed start trace s) :
    Runs step allowed' start trace s := by
  induction h with
  | start => exact .start
  | step _ hallowed hs ih => exact ih.step (hweaker _ _ hallowed) hs

end Runs
