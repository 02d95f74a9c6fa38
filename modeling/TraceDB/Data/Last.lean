import Mathlib.Data.List.Basic
import Mathlib.Data.List.Nodup

/-!
# Searching a list

`xs.findLast? p` is the last element with property `p`, and `xs.modifyLastWhere p f` changes that
element.  These are `iter().rev().find(p)` and `iter_mut().rev().find(p)`.  Both compute on a list
given by its last element, which is how append-only lists are reasoned about.

`find?_key_eq_some` is about a list whose elements have keys of their own.
-/

namespace List

variable {α : Type*} {p : α → Bool}

/-- The last element with property `p`. -/
def findLast? (p : α → Bool) (xs : List α) : Option α := xs.reverse.find? p

/-- Changes the last element with property `p`. -/
def modifyLastWhere (p : α → Bool) (f : α → α) : List α → List α
  | [] => []
  | x :: xs => if xs.any p then x :: modifyLastWhere p f xs else if p x then f x :: xs else x :: xs

/-- With pairwise distinct keys, the first element with a key is the element with that key. -/
theorem find?_key_eq_some {β : Type*} [DecidableEq β] {key : α → β} {xs : List α}
    (h : (xs.map key).Nodup) {k : β} {x : α} : (xs.find? fun y => key y = k) = some x ↔
      x ∈ xs ∧ key x = k := by
  constructor
  · intro hfind
    exact ⟨mem_of_find?_eq_some hfind, by simpa using find?_some hfind⟩
  · rintro ⟨hmem, rfl⟩
    cases hfind : xs.find? fun y => key y = key x with
    | none => exact absurd (find?_eq_none.1 hfind x hmem) (by simp)
    | some y =>
      have hkey : key y = key x := by simpa using find?_some hfind
      rw [inj_on_of_nodup_map h (mem_of_find?_eq_some hfind) hmem hkey]

@[simp] theorem findLast?_nil : findLast? p [] = none := rfl

@[simp] theorem findLast?_append_singleton (xs : List α) (x : α) :
    findLast? p (xs ++ [x]) = if p x then some x else findLast? p xs := by
  simp only [findLast?, reverse_append, reverse_singleton, singleton_append, find?_cons]
  cases p x <;> rfl

theorem findLast?_append (xs ys : List α) :
    findLast? p (xs ++ ys) = (findLast? p ys).or (findLast? p xs) := by
  rw [findLast?, reverse_append, find?_append]
  rfl

/-- The last element with a property is the last of those that have it. -/
theorem findLast?_eq_getLast? (xs : List α) : findLast? p xs = (xs.filter p).getLast? := by
  rw [findLast?, ← head?_filter, filter_reverse, head?_reverse]

theorem findLast?_eq_none {xs : List α} : findLast? p xs = none ↔ ∀ x ∈ xs, ¬ p x = true := by
  simp [findLast?]

theorem mem_of_findLast? {xs : List α} {x : α} (h : findLast? p xs = some x) : x ∈ xs := by
  simpa using mem_of_find?_eq_some h

theorem prop_of_findLast? {xs : List α} {x : α} (h : findLast? p xs = some x) : p x = true :=
  find?_some h

@[simp] theorem modifyLastWhere_nil (f : α → α) : modifyLastWhere p f [] = [] := rfl

theorem modifyLastWhere_append_of_pos (f : α → α) (xs : List α) {x : α} (h : p x = true) :
    modifyLastWhere p f (xs ++ [x]) = xs ++ [f x] := by
  induction xs with
  | nil => simp [modifyLastWhere, h]
  | cons y ys ih => simp [modifyLastWhere, h, ih]

theorem mem_modifyLastWhere {f : α → α} {xs : List α} {y : α} (h : y ∈ modifyLastWhere p f xs) :
    y ∈ xs ∨ ∃ x ∈ xs, p x = true ∧ y = f x := by
  induction xs with
  | nil => simp at h
  | cons x xs ih =>
    simp only [modifyLastWhere] at h
    split_ifs at h with hany hx
    · rcases mem_cons.1 h with rfl | h
      · exact .inl mem_cons_self
      · rcases ih h with h | ⟨z, hz, hp, rfl⟩
        · exact .inl (mem_cons_of_mem _ h)
        · exact .inr ⟨z, mem_cons_of_mem _ hz, hp, rfl⟩
    · rcases mem_cons.1 h with rfl | h
      · exact .inr ⟨x, mem_cons_self, hx, rfl⟩
      · exact .inl (mem_cons_of_mem _ h)
    · exact .inl h

theorem modifyLastWhere_append_cons (f : α → α) (before : List α) {x : α} {after : List α}
    (hx : p x = true) (hafter : ∀ y ∈ after, ¬ p y = true) :
    modifyLastWhere p f (before ++ x :: after) = before ++ f x :: after := by
  induction before with
  | nil =>
    have hany : after.any p = false := by simpa using hafter
    simp [modifyLastWhere, hany, hx]
  | cons y ys ih => simp [modifyLastWhere, hx, ih]

/-- The last element with property `p` splits the list, and is the one that changes. -/
theorem split_findLast? {xs : List α} {x : α} (h : findLast? p xs = some x) :
    ∃ before after, xs = before ++ x :: after ∧ (∀ y ∈ after, ¬ p y = true) ∧
      ∀ f, modifyLastWhere p f xs = before ++ f x :: after := by
  obtain ⟨hx, as, bs, hxs, has⟩ := find?_eq_some_iff_append.1 h
  have hafter : ∀ y ∈ as.reverse, ¬ p y = true := by
    intro y hy
    simpa using has y (mem_reverse.1 hy)
  have hsplit : xs = bs.reverse ++ x :: as.reverse := by
    rw [← reverse_reverse xs, hxs]
    simp
  refine ⟨bs.reverse, as.reverse, hsplit, hafter, fun f => ?_⟩
  rw [hsplit]
  exact modifyLastWhere_append_cons f _ hx hafter

theorem modifyLastWhere_of_forall_not (f : α → α) {xs : List α} (h : ∀ x ∈ xs, ¬ p x = true) :
    modifyLastWhere p f xs = xs := by
  cases xs with
  | nil => rfl
  | cons x xs =>
    have hany : xs.any p = false := by simpa using fun y hy => h y (mem_cons_of_mem x hy)
    simp [modifyLastWhere, hany, h x mem_cons_self]

/-- A search from the end after a change that the searched property does not see: it finds what it
found before, or the changed element in its place. -/
theorem findLast?_modifyLastWhere {q : α → Bool} {f : α → α} (hq : ∀ x, p x = true → q (f x) = q x)
    (xs : List α) :
    findLast? q (modifyLastWhere p f xs) = findLast? q xs ∨
      ∃ x, p x = true ∧ findLast? q xs = some x ∧
      findLast? q (modifyLastWhere p f xs) = some (f x) := by
  cases hfind : findLast? p xs with
  | none =>
    rw [modifyLastWhere_of_forall_not f (findLast?_eq_none.1 hfind)]
    exact .inl rfl
  | some x =>
    have hx := prop_of_findLast? hfind
    obtain ⟨before, after, hsplit, -, hmodify⟩ := split_findLast? hfind
    rw [hmodify, hsplit]
    simp only [findLast?, reverse_append, reverse_cons, append_assoc,
      singleton_append, find?_append, find?_cons, hq x hx]
    cases after.reverse.find? q with
    | some y => exact .inl rfl
    | none =>
      cases hqx : q x with
      | true => exact .inr ⟨x, hx, rfl, rfl⟩
      | false => exact .inl rfl

end List
