import Mathlib.Tactic.Common

/-!
# Inversion rules for `Except`

The rules that take a successful computation apart: what a `bind`, a guard or a loop must have done
when the whole computation returned `ok`.  `SameResult` relates two computations that fail alike.
-/

namespace Except

universe u v

variable {ε : Type u} {α β σ : Type v}

theorem bind_eq_ok_iff {x : Except ε α} {f : α → Except ε β} {b : β} :
    (x >>= f) = .ok b ↔ ∃ a, x = .ok a ∧ f a = .ok b := by
  cases x with
  | error e => simp [bind, Except.bind]
  | ok a => simp [bind, Except.bind]

theorem map_eq_ok_iff {x : Except ε α} {f : α → β} {b : β} :
    x.map f = .ok b ↔ ∃ a, x = .ok a ∧ f a = b := by
  cases x <;> simp [Except.map]

theorem some_map_eq_ok_iff {x : Except ε α} {a : α} :
    (some <$> x) = .ok (some a) ↔ x = .ok a := by
  cases x with
  | error e => simp [Functor.map, Except.map]
  | ok b => simp [Functor.map, Except.map]

@[simp] theorem ok_bind (a : α) (f : α → Except ε β) : (Except.ok a >>= f) = f a := rfl

@[simp] theorem error_bind (e : ε) (f : α → Except ε β) :
    (Except.error e >>= f) = .error e := rfl

@[simp] theorem pure_eq_ok (a : α) : (pure a : Except ε α) = .ok a := rfl

@[simp] theorem throw_eq_error (e : ε) : (throw e : Except ε α) = .error e := rfl

theorem eq_ok_of_toOption {x : Except ε α} {a : α} (h : x.toOption = some a) : x = .ok a := by
  cases x with
  | error e => cases h
  | ok b => rw [Option.some.inj h]

@[simp] theorem toOption_ok (a : α) : (Except.ok a : Except ε α).toOption = some a := rfl

@[simp] theorem toOption_error (e : ε) : (Except.error e : Except ε α).toOption = none := rfl

theorem toOption_bind (x : Except ε α) (f : α → Except ε β) :
    (x >>= f).toOption = x.toOption.bind fun a => (f a).toOption := by
  cases x <;> rfl

theorem guard_eq_ok_iff {p : Prop} [Decidable p] {e : ε} {x : Except ε α} {a : α} :
    (if p then .error e else x) = .ok a ↔ ¬ p ∧ x = .ok a := by
  split_ifs with h <;> simp [h]

/-! ### Loops -/

/-- A function with results for all elements. -/
theorem exists_mapM_ok {f : α → Except ε β} {p : α → β → Prop} {xs : List α}
    (h : ∀ x ∈ xs, ∃ y, f x = .ok y ∧ p x y) : ∃ ys, xs.mapM f = .ok ys ∧ List.Forall₂ p xs ys := by
  induction xs with
  | nil => exact ⟨[], rfl, .nil⟩
  | cons x xs ih =>
    obtain ⟨⟨y, hy, hp⟩, h⟩ := List.forall_mem_cons.1 h
    obtain ⟨ys, hys, hall⟩ := ih h
    refine ⟨y :: ys, ?_, .cons hp hall⟩
    rw [List.mapM_cons, hy, ok_bind, hys, ok_bind]
    rfl

theorem foldlM_append (f : σ → α → Except ε σ) (s : σ) (xs ys : List α) :
    (xs ++ ys).foldlM f s = (xs.foldlM f s >>= fun s' => ys.foldlM f s') := by
  simp

theorem toOption_foldlM (f : σ → α → Except ε σ) (s : σ) (xs : List α) :
    (xs.foldlM f s).toOption = xs.foldlM (fun s x => (f s x).toOption) s := by
  induction xs generalizing s with
  | nil => rfl
  | cons x xs ih =>
    rw [List.foldlM_cons, List.foldlM_cons, toOption_bind]
    exact congrArg _ (funext ih)

/-- A loop of checks that returned has passed them all. -/
theorem of_forM_eq_ok {f : α → Except ε PUnit} {xs : List α} (h : xs.forM f = .ok ⟨⟩) :
    ∀ x ∈ xs, f x = .ok ⟨⟩ := by
  induction xs with
  | nil => simp
  | cons x xs ih =>
    rw [List.forM, bind_eq_ok_iff] at h
    obtain ⟨⟨⟩, hx, hxs⟩ := h
    intro y hy
    rcases List.mem_cons.1 hy with rfl | hy
    · exact hx
    · exact ih hxs y hy

/-- A loop of checks returns exactly when it passes them all. -/
theorem forM_eq_ok_iff {f : α → Except ε PUnit} {xs : List α} :
    xs.forM f = .ok ⟨⟩ ↔ ∀ x ∈ xs, f x = .ok ⟨⟩ := by
  refine ⟨of_forM_eq_ok, fun h => ?_⟩
  induction xs with
  | nil => rfl
  | cons x xs ih =>
    rw [List.forall_mem_cons] at h
    rw [List.forM, h.1, ok_bind]
    exact ih h.2

/-- A loop that returned keeps every property its steps keep. -/
theorem foldlM_invariant {f : σ → α → Except ε σ} {xs : List α} {s s' : σ}
    (h : xs.foldlM f s = .ok s') {I : σ → Prop} (h₀ : I s)
    (hstep : ∀ s x s', x ∈ xs → I s → f s x = .ok s' → I s') : I s' := by
  induction xs generalizing s with
  | nil => cases h; exact h₀
  | cons x xs ih =>
    rw [List.foldlM_cons, bind_eq_ok_iff] at h
    obtain ⟨s₁, h₁, h⟩ := h
    exact ih h (hstep s x s₁ List.mem_cons_self h₀ h₁)
      fun s y s' hy => hstep s y s' (List.mem_cons_of_mem _ hy)

/-- Steps that agree on the elements of a list make the same loop. -/
theorem foldlM_congr {f g : σ → α → Except ε σ} {xs : List α} (s : σ)
    (h : ∀ s, ∀ x ∈ xs, f s x = g s x) :
    xs.foldlM f s = xs.foldlM g s := by
  induction xs generalizing s with
  | nil => rfl
  | cons x xs ih =>
    rw [List.foldlM_cons, List.foldlM_cons, h s x List.mem_cons_self]
    exact congrArg (g s x >>= ·)
      (funext fun s => ih s fun s x hx => h s x (List.mem_cons_of_mem _ hx))

theorem forM_congr {f g : α → Except ε PUnit} {xs : List α} (h : ∀ x ∈ xs, f x = g x) :
    xs.forM f = xs.forM g := by
  induction xs with
  | nil => rfl
  | cons x xs ih =>
    show (f x >>= fun _ => xs.forM f) = g x >>= fun _ => xs.forM g
    rw [h x List.mem_cons_self, ih fun x hx => h x (List.mem_cons_of_mem _ hx)]

/-- Two loops whose steps agree on success agree on success. -/
theorem foldlM_congr_ok {f g : σ → α → Except ε σ} {xs : List α} {s s' : σ}
    (h : xs.foldlM f s = .ok s') (hfg : ∀ s x s', x ∈ xs → f s x = .ok s' → g s x = .ok s') :
    xs.foldlM g s = .ok s' := by
  induction xs generalizing s with
  | nil => exact h
  | cons x xs ih =>
    rw [List.foldlM_cons, bind_eq_ok_iff] at h
    obtain ⟨s₁, h₁, h⟩ := h
    rw [List.foldlM_cons, hfg s x s₁ List.mem_cons_self h₁]
    exact ih h fun s y s' hy => hfg s y s' (List.mem_cons_of_mem _ hy)

/-- What each step of a loop establishes for its element, and later steps keep, holds in the end for
all elements. -/
theorem foldlM_establishes {f : σ → α → Except ε σ} {xs : List α} {s s' : σ}
    (h : xs.foldlM f s = .ok s') {P : α → σ → Prop} (hdone : ∀ s x s', f s x = .ok s' → P x s')
    (hkeep : ∀ s x s' y, f s x = .ok s' → P y s → P y s') : ∀ x ∈ xs, P x s' := by
  induction xs generalizing s with
  | nil => simp
  | cons x xs ih =>
    rw [List.foldlM_cons, bind_eq_ok_iff] at h
    obtain ⟨s₁, h₁, h⟩ := h
    intro y hy
    rcases List.mem_cons.1 hy with rfl | hy
    · exact foldlM_invariant h (hdone s y s₁ h₁) fun s x s' _ hs hf => hkeep s x s' y hf hs
    · exact ih h y hy

/-! ### Results that agree -/

/-- Two results agree: the same error, or values in relation. -/
def SameResult {ε : Type u} {α β : Type v} (R : α → β → Prop) : Except ε α → Except ε β → Prop
  | .ok a, .ok b => R a b
  | .error e, .error e' => e = e'
  | _, _ => False

namespace SameResult

variable {ε : Type u} {α β γ δ : Type v} {R : α → β → Prop} {S : γ → δ → Prop}

theorem bind {x : Except ε α} {y : Except ε β} {f : α → Except ε γ} {g : β → Except ε δ}
    (h : SameResult R x y) (hfg : ∀ a b, R a b → SameResult S (f a) (g b)) :
    SameResult S (x >>= f) (y >>= g) := by
  match x, y, h with
  | .ok a, .ok b, h => exact hfg a b h
  | .error e, .error _, h => exact h

theorem refl {x : Except ε α} : SameResult (· = ·) x x := by
  cases x with
  | error e => exact rfl
  | ok a => exact rfl

theorem map {x : Except ε α} {y : Except ε β} {f : α → γ} {g : β → δ} :
    SameResult S (x.map f) (y.map g) ↔ SameResult (fun a b => S (f a) (g b)) x y := by
  cases x <;> cases y <;> rfl

theorem imp {x : Except ε α} {y : Except ε β} {R' : α → β → Prop} (h : SameResult R x y)
    (hR : ∀ a b, R a b → R' a b) : SameResult R' x y := by
  match x, y, h with
  | .ok a, .ok b, h => exact hR a b h
  | .error e, .error _, h => exact h

/-- Loops over the same list agree when their steps do. -/
theorem foldlM {σ τ : Type v} {R : σ → τ → Prop} {f : σ → α → Except ε σ} {g : τ → α → Except ε τ}
    (hfg : ∀ s t a, R s t → SameResult R (f s a) (g t a)) (xs : List α) {s : σ} {t : τ}
    (h : R s t) : SameResult R (xs.foldlM f s) (xs.foldlM g t) := by
  induction xs generalizing s t with
  | nil => exact h
  | cons x xs ih =>
    rw [List.foldlM_cons, List.foldlM_cons]
    exact (hfg s t x h).bind fun s' t' h' => ih h'

end SameResult

end Except
