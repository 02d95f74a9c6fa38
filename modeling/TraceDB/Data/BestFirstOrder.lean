import TraceDB.Data.BestFirst

/-!
# The order of a best-first walk

The nodes of a walk in the order in which they are visited, without the sets and the bound of the
loop.

* `bestFirst_order` : a walk with a bound visits the first nodes in best-first order.
* `BestFirstOrder.near_next` : the nearest node of a walk is as near as its neighbors, unless it
  comes last.
* `bestFirst_nearest_iff` : when the nearest node that a walk visits is as near as its neighbors.
-/

namespace TraceDB

open Std

variable {α : Type} {next : α → List α} {start : α → Prop} {near : α → α → Prop}

/-- What a walk can go on to: a start, or a neighbor of what was visited. -/
def CanVisit (next : α → List α) (start : α → Prop) (walk : List α) (a : α) : Prop :=
  (start a ∨ ∃ b ∈ walk, a ∈ next b) ∧ a ∉ walk

/-- Nodes in best-first order, the last one first: each is the nearest that the walk can go on
to. -/
inductive BestFirstOrder (next : α → List α) (start : α → Prop) (near : α → α → Prop) :
    List α → Prop where
  | nil : BestFirstOrder next start near []
  | cons {node : α} {walk : List α} : BestFirstOrder next start near walk →
      CanVisit next start walk node →
      (∀ a, CanVisit next start walk a → near node a) →
        BestFirstOrder next start near (node :: walk)

theorem canVisit_cons {node a : α} {walk : List α} :
    CanVisit next start (node :: walk) a ↔ a ≠ node ∧
    (CanVisit next start walk a ∨ a ∈ next node ∧ a ∉ walk) := by
  simp only [CanVisit, List.mem_cons, exists_eq_or_imp, not_or]
  constructor
  · rintro ⟨hstart | hnode | hwalk, hne, hout⟩
    · exact ⟨hne, .inl ⟨.inl hstart, hout⟩⟩
    · exact ⟨hne, .inr ⟨hnode, hout⟩⟩
    · exact ⟨hne, .inl ⟨.inr hwalk, hout⟩⟩
  · rintro ⟨hne, ⟨hstart | hwalk, hout⟩ | ⟨hnode, hout⟩⟩
    · exact ⟨.inl hstart, hne, hout⟩
    · exact ⟨.inr (.inr hwalk), hne, hout⟩
    · exact ⟨.inr (.inl hnode), hne, hout⟩

namespace BestFirstOrder

theorem forall_mem {Q : α → Prop} (hQ : ∀ walk a, CanVisit next start walk a → Q a) {walk : List α}
    (h : BestFirstOrder next start near walk) : ∀ a ∈ walk, Q a := by
  induction h with
  | nil => exact fun a ha => absurd ha List.not_mem_nil
  | @cons node walk _ hcan _ ih => exact List.forall_mem_cons.2 ⟨hQ walk node hcan, ih⟩

theorem nodup {walk : List α} (h : BestFirstOrder next start near walk) : walk.Nodup := by
  induction h with
  | nil => exact List.nodup_nil
  | cons _ hcan _ ih => exact List.nodup_cons.2 ⟨hcan.2, ih⟩

/-- There is one order where no two nodes are equally near. -/
theorem unique {Q : α → Prop} (hQ : ∀ walk a, CanVisit next start walk a → Q a)
    (hanti : ∀ a b, Q a → Q b → near a b → near b a → a = b) {walk walk' : List α}
    (h : BestFirstOrder next start near walk) (h' : BestFirstOrder next start near walk')
    (hlength : walk.length = walk'.length) : walk = walk' := by
  induction h generalizing walk' with
  | nil => exact (List.length_eq_zero_iff.1 hlength.symm).symm
  | @cons node walk _ hcan hnear ih =>
    cases h' with
    | nil => cases hlength
    | @cons node' walk' h' hcan' hnear' =>
      obtain rfl := ih h' (Nat.succ.inj hlength)
      rw [hanti node node' (hQ _ _ hcan) (hQ _ _ hcan') (hnear _ hcan') (hnear' _ hcan)]

/-- A walk that cannot go on is the longest one. -/
theorem length_le {Q : α → Prop} (hQ : ∀ walk a, CanVisit next start walk a → Q a)
    (hanti : ∀ a b, Q a → Q b → near a b → near b a → a = b) {walk walk' : List α}
    (h : BestFirstOrder next start near walk) (hends : ∀ a, ¬ CanVisit next start walk a)
    (h' : BestFirstOrder next start near walk') : walk'.length ≤ walk.length := by
  induction h' with
  | nil => exact Nat.zero_le _
  | @cons node walk' h' hcan _ ih =>
    rcases ih.lt_or_eq with hlt | heq
    · exact hlt
    · obtain rfl := unique hQ hanti h' h heq
      exact absurd hcan (hends node)

section Trans

variable {Q : α → Prop} (hQ : ∀ walk a, CanVisit next start walk a → Q a)
  (htrans : ∀ a b c, Q a → Q b → Q c → near a b → near b c → near a c)

include hQ htrans

/-- The nearest node of a walk is as near as the starts. -/
theorem near_start {walk : List α} {nearest : α} (h : BestFirstOrder next start near walk)
    (hmem : nearest ∈ walk) (hnearest : ∀ a ∈ walk, near nearest a) {a : α} (ha : start a) :
      near nearest a := by
  by_cases hin : a ∈ walk
  · exact hnearest a hin
  · -- The first node of the walk was chosen before the start.
    have hfirst : ∀ {walk : List α}, BestFirstOrder next start near walk → walk ≠ [] → a ∉ walk →
        ∃ first ∈ walk, near first a := by
      intro walk h
      induction h with
      | nil => exact fun hne => absurd rfl hne
      | @cons node walk _ _ hnear ih =>
        intro _ hout
        rw [List.mem_cons, not_or] at hout
        exact ⟨node, List.mem_cons_self, hnear a ⟨.inl ha, hout.2⟩⟩
    obtain ⟨first, hfirst, hnear⟩ := hfirst h (List.ne_nil_of_mem hmem) hin
    have hall := h.forall_mem hQ
    exact htrans _ _ _ (hall nearest hmem) (hall first hfirst) (hQ walk a ⟨.inl ha, hin⟩)
      (hnearest first hfirst) hnear

/-- The nearest node of a walk is as near as its neighbors, if the walk went on from it. -/
theorem near_next {walk : List α} {last nearest : α}
    (h : BestFirstOrder next start near (last :: walk)) (hmem : nearest ∈ walk)
    (hnearest : ∀ a ∈ last :: walk, near nearest a) {a : α} (ha : a ∈ next nearest) :
    near nearest a := by
  by_cases hin : a ∈ last :: walk
  · exact hnearest a hin
  · have hall := h.forall_mem hQ
    cases h with
    | cons _ _ hnear =>
      rw [List.mem_cons, not_or] at hin
      have hcan : CanVisit next start walk a := ⟨.inr ⟨nearest, hmem, ha⟩, hin.2⟩
      exact htrans _ _ _ (hall nearest (List.mem_cons_of_mem _ hmem)) (hall last List.mem_cons_self)
        (hQ walk a hcan) (hnearest last List.mem_cons_self) (hnear a hcan)

end Trans

end BestFirstOrder

/-! ### Walks with a bound -/

variable {cmp : α → α → Ordering} [TransCmp cmp] [LawfulEqCmp cmp]
  {best : ExtTreeSet α cmp → Option α} {maxVisits rounds : ℕ} {frontier : ExtTreeSet α cmp}

/-- **A walk visits the first nodes in best-first order**, as many as there are up to the bound. -/
theorem bestFirst_order (hmem : ∀ frontier node, best frontier = some node → node ∈ frontier)
    (hnone : ∀ frontier, best frontier = none → (∀ a ∈ frontier, start a ∨ ∃ b, a ∈ next b) →
      ∀ a, a ∉ frontier)
    (hnear : ∀ frontier node, best frontier = some node →
      (∀ a ∈ frontier, start a ∨ ∃ b, a ∈ next b) →
      ∀ a ∈ frontier, near node a)
    (hstart : ∀ a, a ∈ frontier ↔ start a) (hrounds : maxVisits ≤ rounds) :
    ∃ walk, BestFirstOrder next start near walk ∧
      (∀ a, a ∈ bestFirst next best maxVisits rounds (∅ : ExtTreeSet α cmp) frontier ↔ a ∈ walk) ∧
      walk.length ≤ maxVisits ∧ (walk.length = maxVisits ∨ ∀ a, ¬ CanVisit next start walk a) := by
  obtain ⟨left, ⟨walk, horder, hvisited, hlength, hleft, hbound⟩, hends⟩ := bestFirst_rule
    (fun visited frontier => ∃ walk, BestFirstOrder next start near walk ∧
      (∀ a, a ∈ visited ↔ a ∈ walk) ∧
      walk.length = visited.size ∧ (∀ a, a ∈ frontier ↔ CanVisit next start walk a) ∧
        walk.length ≤ maxVisits)
    hmem
    (fun visited frontier node hI (hroom : visited.size < maxVisits) hnode hnew => by
      obtain ⟨walk, horder, hvisited, hlength, hfrontier, -⟩ := hI
      have hunseen : visited.contains node = false :=
        Bool.eq_false_iff.2 fun h => hnew (ExtTreeSet.mem_iff_contains.2 h)
      have hseen : ∀ a ∈ frontier, start a ∨ ∃ b, a ∈ next b := fun a ha =>
        ((hfrontier a).1 ha).1.imp_right fun ⟨b, _, hab⟩ => ⟨b, hab⟩
      refine ⟨node :: walk, .cons horder ((hfrontier node).1 (hmem _ _ hnode)) fun a ha =>
        hnear _ _ hnode hseen a ((hfrontier a).2 ha), fun a => ?_, ?_, fun a => ?_, ?_⟩
      · rw [ExtTreeSet.mem_insert, LawfulEqCmp.compare_eq_iff_eq, List.mem_cons, hvisited, eq_comm]
      · rw [List.length_cons, hlength, ExtTreeSet.size_insert, hunseen, if_neg Bool.false_ne_true]
      · rw [mem_extendFrontier, ExtTreeSet.mem_erase, ExtTreeSet.mem_insert, canVisit_cons,
          hfrontier, hvisited, ne_eq, LawfulEqCmp.compare_eq_iff_eq, @eq_comm _ node a]
        tauto
      · rw [List.length_cons]
        omega)
    (fun _ _ => ExtTreeSet.not_mem_empty)
    (show maxVisits ≤ (∅ : ExtTreeSet α cmp).size + rounds
      by rwa [ExtTreeSet.size_empty, Nat.zero_add])
    ⟨[], .nil, fun a => iff_of_false ExtTreeSet.not_mem_empty List.not_mem_nil,
      by rw [ExtTreeSet.size_empty]; rfl,
      fun a => (hstart a).trans ⟨fun h => ⟨.inl h, List.not_mem_nil⟩,
        fun h => h.1.resolve_right fun ⟨_, hb, _⟩ =>
        List.not_mem_nil hb⟩, Nat.zero_le _⟩
  refine ⟨walk, horder, hvisited, hbound, ?_⟩
  rcases hends with hnothing | hfull
  · have hseen : ∀ a ∈ left, start a ∨ ∃ b, a ∈ next b := fun a ha =>
      ((hleft a).1 ha).1.imp_right fun ⟨b, _, hab⟩ => ⟨b, hab⟩
    exact .inr fun a ha => hnone left hnothing hseen a ((hleft a).2 ha)
  · exact .inl (Nat.le_antisymm hbound (hlength ▸ hfull))

/-- **The nearest node that a walk visits is as near as its neighbors** if and only if this holds of
the node that uses up the bound, should it be nearer than all before it. -/
theorem bestFirst_nearest_iff {Q : α → Prop} (hQ : ∀ walk a, CanVisit next start walk a → Q a)
    (hanti : ∀ a b, Q a → Q b → near a b → near b a → a = b)
    (htrans : ∀ a b c, Q a → Q b → Q c → near a b → near b c → near a c)
    {walk : List α} {nearest : α} (horder : BestFirstOrder next start near walk)
    (hlength : walk.length ≤ maxVisits)
    (hends : walk.length = maxVisits ∨ ∀ a, ¬ CanVisit next start walk a) (hmem : nearest ∈ walk)
    (hnearest : ∀ a ∈ walk, near nearest a) :
    (∀ a ∈ next nearest, near nearest a) ↔
      ∀ last before, BestFirstOrder next start near (last :: before) →
      before.length + 1 = maxVisits →
        (∀ a ∈ before, near last a) → ∀ a ∈ next last, near last a := by
  constructor
  · intro hnext last before hlast hfull hbefore
    -- The walk has the length of the bound, so it is this one.
    have hsame : walk.length = (last :: before).length := by
      rcases hends with hbound | hnothing
      · rw [List.length_cons, hfull, hbound]
      · refine Nat.le_antisymm (by rwa [List.length_cons, hfull])
          (horder.length_le hQ hanti hnothing hlast)
    obtain rfl := BestFirstOrder.unique hQ hanti horder hlast hsame
    have hfirst : last = nearest := by
      refine hanti last nearest (horder.forall_mem hQ _ List.mem_cons_self)
        (horder.forall_mem hQ _ hmem) ?_
        (hnearest last List.mem_cons_self)
      rcases List.mem_cons.1 hmem with rfl | hin
      · exact hnearest _ List.mem_cons_self
      · exact hbefore nearest hin
    rwa [hfirst]
  · intro hcond
    cases horder with
    | nil => exact absurd hmem List.not_mem_nil
    | @cons last before horder hcan hnear =>
      have hwalk : BestFirstOrder next start near (last :: before) := .cons horder hcan hnear
      rcases List.mem_cons.1 hmem with rfl | hbefore
      · rcases hends with hfull | hnothing
        · exact hcond nearest before hwalk hfull fun a ha => hnearest a (List.mem_cons_of_mem _ ha)
        · intro a ha
          by_cases hin : a ∈ nearest :: before
          · exact hnearest a hin
          · exact absurd ⟨.inr ⟨nearest, hmem, ha⟩, hin⟩ (hnothing a)
      · intro a ha
        exact hwalk.near_next hQ htrans hbefore hnearest ha

end TraceDB
