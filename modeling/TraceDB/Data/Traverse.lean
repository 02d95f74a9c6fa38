import TraceDB.Data.SortedMap

/-!
# Partial functions on all elements

A partial function on the elements of a list (`List.mapM`) or on the values of a sorted map
(`SortedMap.traverse`): it has a result when it has one for all of them, and settles on it when it
settles on all of them (`Settles`).
-/

namespace TraceDB

variable {α β γ : Type}

/-! ### Lists -/

theorem mapM_eq_some {f : α → Option β} {xs : List α} {ys : List β} :
    xs.mapM f = some ys ↔ List.Forall₂ (fun x y => f x = some y) xs ys := by
  induction xs generalizing ys with
  | nil => simp [eq_comm]
  | cons x xs ih =>
    rw [List.mapM_cons, List.forall₂_cons_left_iff]
    constructor
    · intro h
      obtain ⟨y, hy, h⟩ := Option.bind_eq_some_iff.1 h
      obtain ⟨ys', hys, h⟩ := Option.bind_eq_some_iff.1 h
      exact ⟨y, ys', hy, ih.1 hys, (Option.some.inj h).symm⟩
    · rintro ⟨y, ys', hy, hys, rfl⟩
      rw [hy, ih.2 hys]
      rfl

theorem exists_of_mapM {f : α → Option β} {xs : List α} {ys : List β}
    (h : xs.mapM f = some ys) {x : α} (hx : x ∈ xs) : ∃ y ∈ ys, f x = some y := by
  have hpairs := mapM_eq_some.1 h
  clear h
  induction hpairs with
  | nil => cases hx
  | cons hxy _ ih =>
    rcases List.mem_cons.1 hx with rfl | hx
    · exact ⟨_, List.mem_cons_self, hxy⟩
    · obtain ⟨y, hy, hfound⟩ := ih hx
      exact ⟨y, List.mem_cons_of_mem _ hy, hfound⟩

theorem exists_of_mem_mapM {f : α → Option β} {xs : List α} {ys : List β}
    (h : xs.mapM f = some ys) {y : β} (hy : y ∈ ys) : ∃ x ∈ xs, f x = some y := by
  have hpairs := mapM_eq_some.1 h
  clear h
  induction hpairs with
  | nil => cases hy
  | cons hxy _ ih =>
    rcases List.mem_cons.1 hy with rfl | hy
    · exact ⟨_, List.mem_cons_self, hxy⟩
    · obtain ⟨x, hx, hfound⟩ := ih hy
      exact ⟨x, List.mem_cons_of_mem _ hx, hfound⟩

theorem mapM_isSome {f : α → Option β} {xs : List α} :
    (xs.mapM f).isSome = true ↔ ∀ x ∈ xs, (f x).isSome = true := by
  induction xs with
  | nil => simp
  | cons x xs ih =>
    rw [List.forall_mem_cons, ← ih, List.mapM_cons]
    cases f x <;> cases xs.mapM f <;> simp

/-- What `f` keeps of each element is kept of all. -/
theorem map_of_mapM {f : α → Option β} {g : α → γ} {h : β → γ}
    (hkeep : ∀ x y, f x = some y → h y = g x) {xs : List α} {ys : List β}
    (hys : xs.mapM f = some ys) : ys.map h = xs.map g := by
  have hpairs := mapM_eq_some.1 hys
  clear hys
  induction hpairs with
  | nil => rfl
  | cons hxy _ ih => rw [List.map_cons, List.map_cons, hkeep _ _ hxy, ih]

/-- `f` has a result, and that is its own result. -/
def Settles (f : α → Option α) (a : α) : Prop := ∃ b, f a = some b ∧ f b = some b

theorem settles_mapM {f : α → Option α} {xs : List α} (h : ∀ x ∈ xs, Settles f x) :
    ∃ ys, xs.mapM f = some ys ∧ ys.mapM f = some ys := by
  induction xs with
  | nil => exact ⟨[], rfl, rfl⟩
  | cons x xs ih =>
    obtain ⟨⟨y, hy, hyy⟩, hrest⟩ := List.forall_mem_cons.1 h
    obtain ⟨ys, hys, hyys⟩ := ih hrest
    refine ⟨y :: ys, ?_, ?_⟩
    · exact mapM_eq_some.2 (.cons hy (mapM_eq_some.1 hys))
    · exact mapM_eq_some.2 (.cons hyy (mapM_eq_some.1 hyys))

namespace SortedMap

/-! ### Sorted maps -/

/-- The values after `f`, if it has a result for all of them. -/
def traverse (f : α → Option β) (t : Std.ExtTreeMap String α compare) :
    Option (Std.ExtTreeMap String β compare) :=
  if t.toList.all fun e => (f e.2).isSome then some (t.filterMap fun _ a => f a) else none

theorem traverse_isSome {f : α → Option β} {t : Std.ExtTreeMap String α compare} :
    (traverse f t).isSome = true ↔ ∀ (k : String) a, t[k]? = some a → (f a).isSome = true := by
  have hall : (t.toList.all fun e => (f e.2).isSome) = true ↔
      ∀ (k : String) a, t[k]? = some a → (f a).isSome = true := by
    rw [List.all_eq_true]
    exact ⟨fun h k a ha => h (k, a) (mem_toList.2 ha), fun h e he => h e.1 e.2 (mem_toList.1 he)⟩
  rw [traverse, ← hall]
  split_ifs with h <;> simp [h]

theorem getElem?_traverse {f : α → Option β} {t : Std.ExtTreeMap String α compare}
    {u : Std.ExtTreeMap String β compare} (h : traverse f t = some u) (k : String) :
    u[k]? = t[k]?.bind f := by
  rw [traverse] at h
  split_ifs at h
  obtain rfl := Option.some.inj h
  rw [Std.ExtTreeMap.getElem?_filterMap']

theorem traverse_eq_self {f : α → Option α} {t : Std.ExtTreeMap String α compare} :
    traverse f t = some t ↔ ∀ (k : String) a, t[k]? = some a → f a = some a := by
  constructor
  · intro h k a ha
    have hk := getElem?_traverse h k
    rw [ha, Option.bind_some] at hk
    exact hk.symm
  · intro h
    have hsome : (traverse f t).isSome = true :=
      traverse_isSome.2 fun k a ha => by rw [h k a ha]; rfl
    obtain ⟨u, hu⟩ := Option.isSome_iff_exists.1 hsome
    rw [hu]
    refine congrArg some (Std.ExtTreeMap.ext_getElem? fun k => ?_)
    rw [getElem?_traverse hu k]
    cases ha : t[k]? with
    | none => rfl
    | some a => exact h k a ha

theorem settles_traverse {f : α → Option α} {t : Std.ExtTreeMap String α compare}
    (h : ∀ (k : String) a, t[k]? = some a → Settles f a) : Settles (traverse f) t := by
  have hsome : (traverse f t).isSome = true := traverse_isSome.2 fun k a ha => by
    obtain ⟨b, hb, -⟩ := h k a ha
    rw [hb]
    rfl
  obtain ⟨u, hu⟩ := Option.isSome_iff_exists.1 hsome
  refine ⟨u, hu, traverse_eq_self.2 fun k b hb => ?_⟩
  rw [getElem?_traverse hu] at hb
  obtain ⟨a, ha, hab⟩ := Option.bind_eq_some_iff.1 hb
  obtain ⟨c, hc, hcc⟩ := h k a ha
  obtain rfl := Option.some.inj (hab.symm.trans hc)
  exact hcc

end SortedMap

end TraceDB
