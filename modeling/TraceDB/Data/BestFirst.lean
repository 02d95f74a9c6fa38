import Mathlib.Data.List.Basic
import Mathlib.Order.Compare
import TraceDB.Data.SortedMap

/-!
# Best-first walks

A walk over a graph keeps the nodes it has visited and a frontier.  A round takes the best node of
the frontier, visits it and puts those of its neighbors on the frontier that were not visited yet.
The walk ends when the frontier has no node left that can be visited, or after a number of visits.

* `bestFirst_visits` : only nodes that can be visited are, and no more of them than the bound.
* `bestFirst_start` : a walk that ends before the bound has visited every node it started from.
* `bestFirst_rule` : what a round keeps holds when the walk ends.
* `bestFirst_closed` : a walk that ends before the bound has followed every link of what it visited.
* `bestFirst_around`, `bestFirst_leaves_out` : when a walk leaves out a node that is last of all.
-/

namespace TraceDB

open Std

variable {α : Type} {cmp : α → α → Ordering} [TransCmp cmp]

/-- The nodes that are not visited yet, added to a frontier. -/
def extendFrontier (visited frontier : ExtTreeSet α cmp) (nodes : List α) : ExtTreeSet α cmp :=
  nodes.foldl (fun frontier node =>
    if visited.contains node then frontier else frontier.insert node) frontier

/-- The nodes that a walk visits.  Every round visits one node more, so the bound on the visits is
also one on the rounds. -/
def bestFirst (next : α → List α) (best : ExtTreeSet α cmp → Option α) (maxVisits : ℕ) :
    ℕ → ExtTreeSet α cmp → ExtTreeSet α cmp → ExtTreeSet α cmp
  | 0, visited, _ => visited
  | rounds + 1, visited, frontier =>
    if visited.size < maxVisits then
      match best frontier with
      | none => visited
      | some node =>
        if visited.contains node then
          bestFirst next best maxVisits rounds visited (frontier.erase node)
        else
          bestFirst next best maxVisits rounds (visited.insert node)
            (extendFrontier (visited.insert node) (frontier.erase node) (next node))
    else visited

theorem mem_extendFrontier [LawfulEqCmp cmp] {visited frontier : ExtTreeSet α cmp} {nodes : List α}
    {a : α} :
    a ∈ extendFrontier visited frontier nodes ↔ a ∈ frontier ∨ a ∈ nodes ∧ a ∉ visited := by
  induction nodes generalizing frontier with
  | nil => simp [extendFrontier]
  | cons node nodes ih =>
    rw [extendFrontier, List.foldl_cons, List.mem_cons]
    refine ih.trans ?_
    split_ifs with hvisited
    · constructor
      · rintro (h | ⟨h, hnew⟩)
        · exact .inl h
        · exact .inr ⟨.inr h, hnew⟩
      · rintro (h | ⟨rfl | h, hnew⟩)
        · exact .inl h
        · exact absurd (ExtTreeSet.mem_iff_contains.2 hvisited) hnew
        · exact .inr ⟨h, hnew⟩
    · rw [ExtTreeSet.mem_insert, LawfulEqCmp.compare_eq_iff_eq]
      constructor
      · rintro ((rfl | h) | ⟨h, hnew⟩)
        · exact .inr ⟨.inl rfl, fun h => hvisited (ExtTreeSet.mem_iff_contains.1 h)⟩
        · exact .inl h
        · exact .inr ⟨.inr h, hnew⟩
      · rintro (h | ⟨rfl | h, hnew⟩)
        · exact .inl (.inr h)
        · exact .inl (.inl rfl)
        · exact .inr ⟨h, hnew⟩

variable {next : α → List α} {best : ExtTreeSet α cmp → Option α} {maxVisits rounds : ℕ}
  {visited frontier : ExtTreeSet α cmp} {a : α}

theorem size_le_size_insert : (visited.insert a).size ≤ visited.size + 1 := by
  rw [ExtTreeSet.size_insert]
  split_ifs <;> omega

/-- A walk keeps what it visited, visits only nodes that can be the best of a frontier, and no more
of them than the bound. -/
theorem bestFirst_visits [LawfulEqCmp cmp] {P : α → Prop}
    (hbest : ∀ {frontier node}, best frontier = some node → P node) :
    (∀ a ∈ visited, a ∈ bestFirst next best maxVisits rounds visited frontier) ∧
      (∀ a ∈ bestFirst next best maxVisits rounds visited frontier, a ∈ visited ∨ P a) ∧
      (bestFirst next best maxVisits rounds visited frontier).size ≤
        max maxVisits visited.size := by
  induction rounds generalizing visited frontier with
  | zero => exact ⟨fun _ h => h, fun _ h => .inl h, le_max_right _ _⟩
  | succ rounds ih =>
    rw [bestFirst]
    split_ifs with hroom
    · cases hnode : best frontier with
      | none => exact ⟨fun _ h => h, fun _ h => .inl h, le_max_right _ _⟩
      | some node =>
        dsimp only
        split_ifs with hseen
        · exact ih
        · obtain ⟨hkeeps, honly, hsize⟩ := @ih (visited.insert node)
            (extendFrontier (visited.insert node) (frontier.erase node) (next node))
          refine ⟨fun a ha => hkeeps a (ExtTreeSet.mem_insert.2 (.inr ha)), fun a ha => ?_, ?_⟩
          · rcases honly a ha with h | h
            · rcases ExtTreeSet.mem_insert.1 h with h | h
              · obtain rfl := LawfulEqCmp.compare_eq_iff_eq.1 h
                exact .inr (hbest hnode)
              · exact .inl h
            · exact .inr h
          · have hone : (visited.insert node).size ≤ visited.size + 1 := size_le_size_insert
            omega
    · exact ⟨fun _ h => h, fun _ h => .inl h, le_max_right _ _⟩

/-! ### Invariants -/

/-- **What a round keeps holds when the walk ends**, and then the bound is reached or nothing on the
frontier can be visited.  No round meets a node twice, since the frontier has no visited node. -/
theorem bestFirst_rule [LawfulEqCmp cmp] (I : ExtTreeSet α cmp → ExtTreeSet α cmp → Prop)
    (hbest : ∀ frontier node, best frontier = some node → node ∈ frontier)
    (hstep : ∀ visited frontier node, I visited frontier → visited.size < maxVisits →
      best frontier = some node → node ∉ visited →
        I (visited.insert node)
        (extendFrontier (visited.insert node) (frontier.erase node) (next node)))
    (hfresh : ∀ node ∈ frontier, node ∉ visited) (hrounds : maxVisits ≤ visited.size + rounds)
    (hinit : I visited frontier) :
    ∃ left, I (bestFirst next best maxVisits rounds visited frontier) left ∧
      (best left = none ∨
        maxVisits ≤ (bestFirst next best maxVisits rounds visited frontier).size) := by
  induction rounds generalizing visited frontier with
  | zero => exact ⟨frontier, hinit, .inr hrounds⟩
  | succ rounds ih =>
    rw [bestFirst]
    split_ifs with hroom
    · cases hnode : best frontier with
      | none => exact ⟨frontier, hinit, .inl hnode⟩
      | some node =>
        have hnew := hfresh node (hbest _ _ hnode)
        have hunseen : visited.contains node = false :=
          Bool.eq_false_iff.2 fun h => hnew (ExtTreeSet.mem_iff_contains.2 h)
        have hsize : (visited.insert node).size = visited.size + 1 := by
          rw [ExtTreeSet.size_insert, hunseen, if_neg Bool.false_ne_true]
        simp only [hunseen, Bool.false_eq_true, if_false]
        refine ih (fun other hin hvisited => ?_) (by omega) (hstep _ _ _ hinit hroom hnode hnew)
        rcases mem_extendFrontier.1 hin with h | ⟨-, h⟩
        · obtain ⟨hne, hold⟩ := ExtTreeSet.mem_erase.1 h
          rcases ExtTreeSet.mem_insert.1 hvisited with heq | hvisited
          · exact hne heq
          · exact hfresh other hold hvisited
        · exact h hvisited
    · exact ⟨frontier, hinit, .inr (by omega)⟩

/-- What a walk has seen, visited or not. -/
def Seen (visited frontier : ExtTreeSet α cmp) (a : α) : Prop := a ∈ visited ∨ a ∈ frontier

theorem seen_round [LawfulEqCmp cmp] {visited frontier : ExtTreeSet α cmp} {node b : α}
    {nodes : List α} :
    Seen (visited.insert node)
    (extendFrontier (visited.insert node) (frontier.erase node) nodes) b ↔
      b = node ∨ Seen visited frontier b ∨ b ∈ nodes := by
  simp only [Seen, mem_extendFrontier, ExtTreeSet.mem_insert, ExtTreeSet.mem_erase,
    LawfulEqCmp.compare_eq_iff_eq]
  by_cases hnode : b = node
  · simp [hnode]
  · have hne : ¬ node = b := fun h => hnode h.symm
    have hcmp : cmp node b ≠ .eq := fun h => hne (LawfulEqCmp.compare_eq_iff_eq.1 h)
    simp only [hnode, hne, false_or]
    tauto

/-- A walk that ends before the bound has visited the whole frontier. -/
theorem bestFirst_start [LawfulEqCmp cmp] {P : α → Prop}
    (hmem : ∀ {frontier node}, best frontier = some node → node ∈ frontier ∧ P node)
    (hnone : ∀ {frontier}, best frontier = none → ∀ node ∈ frontier, ¬ P node)
    (hfresh : ∀ node ∈ frontier, node ∉ visited) (hrounds : maxVisits ≤ visited.size + rounds)
    (hends : (bestFirst next best maxVisits rounds visited frontier).size < maxVisits) :
    ∀ node ∈ frontier, P node → node ∈ bestFirst next best maxVisits rounds visited frontier := by
  obtain ⟨left, hseen, hleft⟩ := bestFirst_rule
    (fun visited' frontier' => ∀ a ∈ frontier, Seen visited' frontier' a) (fun _ _ h => (hmem h).1)
    (fun _ _ _ hI _ _ _ a ha => seen_round.2 (.inr (.inl (hI a ha)))) hfresh hrounds fun _ => .inr
  intro node hnode hP
  have hnothing := hnone (hleft.resolve_right (Nat.not_le.2 hends))
  exact (hseen node hnode).resolve_right fun h => hnothing node h hP

/-- A walk only sees what it started from and what the nodes that it visits link to. -/
theorem bestFirst_reaches [LawfulEqCmp cmp] {Q : α → Prop}
    (hbest : ∀ frontier node, best frontier = some node → node ∈ frontier)
    (hfresh : ∀ node ∈ frontier, node ∉ visited) (hrounds : maxVisits ≤ visited.size + rounds)
    (hstart : ∀ a, Seen visited frontier a → Q a) (hnext : ∀ a, Q a → ∀ b ∈ next a, Q b) :
    ∀ a ∈ bestFirst next best maxVisits rounds visited frontier, Q a := by
  obtain ⟨left, hseen, -⟩ :=
    bestFirst_rule (fun visited frontier => ∀ a, Seen visited frontier a → Q a) hbest
    (fun visited frontier node hI _ hnode _ b hb => by
      have hQ := hI node (.inr (hbest _ _ hnode))
      rcases seen_round.1 hb with rfl | hb | hb
      · exact hQ
      · exact hI b hb
      · exact hnext node hQ b hb) hfresh hrounds hstart
  exact fun a ha => hseen a (.inl ha)

/-- Every link of a visited node was seen. -/
def LinksSeen (next : α → List α) (visited frontier : ExtTreeSet α cmp) : Prop :=
  ∀ a ∈ visited, ∀ b ∈ next a, Seen visited frontier b

theorem LinksSeen.round [LawfulEqCmp cmp] {node : α} (h : LinksSeen next visited frontier) :
    LinksSeen next (visited.insert node)
      (extendFrontier (visited.insert node) (frontier.erase node) (next node)) := by
  intro a ha b hb
  refine seen_round.2 ?_
  rcases ExtTreeSet.mem_insert.1 ha with ha | ha
  · obtain rfl := LawfulEqCmp.compare_eq_iff_eq.1 ha
    exact .inr (.inr hb)
  · exact .inr (.inl (h a ha b hb))

/-- A walk that ends before the bound has followed every link of what it visited. -/
theorem bestFirst_closed [LawfulEqCmp cmp] {P : α → Prop}
    (hmem : ∀ {frontier node}, best frontier = some node → node ∈ frontier ∧ P node)
    (hnone : ∀ {frontier}, best frontier = none → ∀ node ∈ frontier, ¬ P node)
    (hfresh : ∀ node ∈ frontier, node ∉ visited) (hrounds : maxVisits ≤ visited.size + rounds)
    (hlinks : LinksSeen next visited frontier)
    (hends : (bestFirst next best maxVisits rounds visited frontier).size < maxVisits) :
    ∀ a ∈ bestFirst next best maxVisits rounds visited frontier, ∀ b ∈ next a, P b →
      b ∈ bestFirst next best maxVisits rounds visited frontier := by
  obtain ⟨left, hlinked, hleft⟩ := bestFirst_rule (LinksSeen next) (fun _ _ h => (hmem h).1)
    (fun _ _ _ hI _ _ _ => hI.round) hfresh hrounds hlinks
  intro a ha b hb hP
  have hnothing := hnone (hleft.resolve_right (Nat.not_le.2 hends))
  exact (hlinked a ha b hb).resolve_right fun h => hnothing b h hP

/-! ### A node that comes last -/

variable {bad : α}

/-- A walk that leaves out a node of its frontier takes others before it, and goes around it. -/
theorem bestFirst_around [LawfulEqCmp cmp] {Q : α → Prop}
    (hbest : ∀ frontier node, best frontier = some node → node ∈ frontier)
    (hfresh : ∀ node ∈ frontier, node ∉ visited) (hrounds : maxVisits ≤ visited.size + rounds)
    (hbad : bad ∈ frontier) (hstart : ∀ a, Seen visited frontier a → Q a)
    (hnext : ∀ a, a ≠ bad → Q a → ∀ b ∈ next a, Q b)
    (hout : bad ∉ bestFirst next best maxVisits rounds visited frontier) :
    ∀ a ∈ bestFirst next best maxVisits rounds visited frontier,
      Q a ∧ (a ∈ visited ∨ ∃ frontier, bad ∈ frontier ∧ best frontier = some a) := by
  -- As long as the node is not visited it stays on the frontier.
  obtain ⟨left, hI, -⟩ := bestFirst_rule
    (fun visited' frontier' => bad ∉ visited' → bad ∈ frontier' ∧
      (∀ a, Seen visited' frontier' a → Q a) ∧
      ∀ a ∈ visited', a ∈ visited ∨ ∃ frontier, bad ∈ frontier ∧ best frontier = some a) hbest
    (fun visited' frontier' node hI _ hnode _ hunseen => by
      rw [ExtTreeSet.mem_insert, not_or, LawfulEqCmp.compare_eq_iff_eq] at hunseen
      obtain ⟨hwaits, hQ, htaken⟩ := hI hunseen.2
      have hQnode := hQ node (.inr (hbest _ _ hnode))
      refine ⟨mem_extendFrontier.2 (.inl (ExtTreeSet.mem_erase.2
        ⟨fun h => hunseen.1 (LawfulEqCmp.compare_eq_iff_eq.1 h), hwaits⟩)), fun b hb => ?_,
        fun a ha => ?_⟩
      · rcases seen_round.1 hb with rfl | hb | hb
        · exact hQnode
        · exact hQ b hb
        · exact hnext node hunseen.1 hQnode b hb
      · rcases ExtTreeSet.mem_insert.1 ha with ha | ha
        · obtain rfl := LawfulEqCmp.compare_eq_iff_eq.1 ha
          exact .inr ⟨frontier', hwaits, hnode⟩
        · exact htaken a ha) hfresh hrounds
    fun _ => ⟨hbad, hstart, fun a ha => .inl ha⟩
  obtain ⟨-, hQ, htaken⟩ := hI hout
  exact fun a ha => ⟨hQ a (.inl ha), htaken a ha⟩

/-- A walk whose bound is reached before a node is the only one left does not visit that node. -/
theorem bestFirst_leaves_out [LawfulEqCmp cmp] {P : α → Prop}
    (hbest : ∀ frontier node, best frontier = some node → node ∈ frontier)
    (hlast : ∀ frontier, best frontier = some bad → ∀ node ∈ frontier, P node → node = bad)
    (hfresh : ∀ node ∈ frontier, node ∉ visited) (hrounds : maxVisits ≤ visited.size + rounds)
    (hlinks : LinksSeen next visited frontier) (hbad : bad ∉ visited)
    (hfull : ∀ visited' frontier' : ExtTreeSet α cmp,
      (∀ a, Seen visited frontier a → Seen visited' frontier' a) →
      LinksSeen next visited' frontier' → (∀ a ∈ frontier', P a → a = bad) →
      maxVisits ≤ visited'.size) :
    bad ∉ bestFirst next best maxVisits rounds visited frontier := by
  obtain ⟨left, ⟨hout, -⟩, -⟩ := bestFirst_rule
    (fun visited' frontier' => bad ∉ visited' ∧ LinksSeen next visited' frontier' ∧
      ∀ a, Seen visited frontier a → Seen visited' frontier' a) hbest
    (fun visited' frontier' node hI hroom hnode _ => by
      obtain ⟨hout, hlinked, hseen⟩ := hI
      refine ⟨fun hin => ?_, hlinked.round, fun a ha => seen_round.2 (.inr (.inl (hseen a ha)))⟩
      rcases ExtTreeSet.mem_insert.1 hin with h | h
      · obtain rfl := LawfulEqCmp.compare_eq_iff_eq.1 h
        exact absurd (hfull visited' frontier' hseen hlinked (hlast _ hnode)) (Nat.not_le.2 hroom)
      · exact hout h) hfresh hrounds ⟨hbad, hlinks, fun _ => id⟩
  exact hout

end TraceDB
