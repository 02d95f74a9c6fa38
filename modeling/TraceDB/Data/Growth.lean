import TraceDB.Data.Runs

/-!
# Lists that are only added to

A state has a list when it satisfies a predicate of lists, such as "these are the entries of the
log".

* `Adds` : what had a list has one that continues it, by elements of some kind.
* `Adds.trans` : first one continuation, and then another.
* `Runs.adds` : when every step only adds to the list, so does every run.
-/

universe u v w

variable {α : Type u} {p p' : α → Prop} {has has' : List α → Prop} {xs : List α}

/-- There is a list that continues `xs`, by elements that satisfy `p`. -/
def Adds (p : α → Prop) (has : List α → Prop) (xs : List α) : Prop :=
  ∃ rest, has (xs ++ rest) ∧ ∀ x ∈ rest, p x

namespace Adds

theorem nothing (h : has xs) : Adds p has xs :=
  ⟨[], by rwa [List.append_nil], fun _ hmem => absurd hmem List.not_mem_nil⟩

theorem one {x : α} (h : has (xs ++ [x])) (hx : p x) : Adds p has xs :=
  ⟨[x], h, fun _ hmem => List.mem_singleton.1 hmem ▸ hx⟩

theorem mono (h : Adds p has xs) (hhas : ∀ ys, has ys → has' ys) (hp : ∀ x, p x → p' x) :
    Adds p' has' xs := by
  obtain ⟨rest, hrest, hnew⟩ := h
  exact ⟨rest, hhas _ hrest, fun x hmem => hp x (hnew x hmem)⟩

theorem trans (h : Adds p has xs) (h' : ∀ ys, has ys → Adds p has' ys) : Adds p has' xs := by
  obtain ⟨rest, hrest, hnew⟩ := h
  obtain ⟨more, hmore, hnew'⟩ := h' _ hrest
  refine ⟨rest ++ more, by rwa [← List.append_assoc], fun x hmem => ?_⟩
  rcases List.mem_append.1 hmem with hold | hlast
  · exact hnew x hold
  · exact hnew' x hlast

end Adds

/-- **Runs only add** to a list when their steps do, given an invariant. -/
theorem Runs.adds {σ : Type v} {ℓ : Type w} {step : σ → ℓ → σ → Prop} {allowed : σ → ℓ → Prop}
    {start s : σ} {trace : List ℓ} (h : Runs step allowed start trace s) {I : σ → Prop}
    {H : σ → List α → Prop} (hstart : I start)
    (hI : ∀ s label s', allowed s label → step s label s' → I s → I s')
    (hstep : ∀ s label s' xs, allowed s label → step s label s' → I s → H s xs → Adds p (H s') xs)
    (hxs : H start xs) : Adds p (H s) xs := by
  have hinvariant : I s ∧ Adds p (H s) xs := by
    refine h.invariant (I := fun _ s => I s ∧ Adds p (H s) xs) ⟨hstart, .nothing hxs⟩ ?_
    intro _ s label s' hallowed hs ⟨hinv, hadds⟩
    exact ⟨hI s label s' hallowed hs hinv,
      hadds.trans fun ys hys => hstep s label s' ys hallowed hs hinv hys⟩
  exact hinvariant.2
