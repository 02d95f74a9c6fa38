import TraceDB.Index.Graph

/-!
# The levels of a graph

`build_hnsw_graphs` inserts the entries of a field one by one: each becomes a node of its levels, is
linked both ways to what a search of the level finds, and the neighbors of both ends are pruned.

* `GraphShape` : which keys are the nodes of the levels, and what neighbors are.  Each step of an
  insertion keeps it (`GraphShape.linkHnswNeighbors`, `GraphShape.linkLevel`,
  `GraphShape.linkLevels`).
* `Grown` : the invariant of the loop over the entries (`Grown.insertHnswEntry`).
* `hnsw_graph_wellFormed` : what holds of the graph of every field.
-/

namespace TraceDB

variable {S : Type} {ops : F32 S}

/-! ### Nodes -/

/-- The level of a key.  Entries with one key have one level. -/
def keyLevel (m : ℕ) (key : String) : ℕ :=
  hnswLevelFrom (.ofNat (max m 2)) maxDeterministicHnswLevel (stableVectorHash key)

theorem deterministicHnswLevel_eq (entry : VectorIndexEntry S) (m : ℕ) :
    deterministicHnswLevel entry m = keyLevel m (vectorEntryKey entry) := rfl

namespace HnswFieldGraph

/-- A key is a node of a level. -/
def IsNode (graph : HnswFieldGraph) (level : ℕ) (key : String) :
    Prop := key ∈ graph.levelLinks level

variable (graph : HnswFieldGraph) (level level' : ℕ) (key key' : String)

theorem isNode_setNeighbors (neighbors : List String) :
    (graph.setNeighbors level key neighbors).IsNode level' key' ↔
      level' = level ∧ key' = key ∨ graph.IsNode level' key' := by
  rw [IsNode, levelLinks_setNeighbors]
  by_cases hlevel : level = level'
  · subst hlevel
    rw [if_pos rfl, Std.ExtTreeMap.mem_insert, compare_eq_iff_eq, IsNode, eq_comm]
    simp only [true_and]
  · rw [if_neg hlevel, IsNode]
    exact ⟨.inr, fun h => h.resolve_left fun hsame => hlevel hsame.1.symm⟩

theorem isNode_addAtLevels (levels : List ℕ) :
    (graph.addAtLevels levels key).IsNode level' key' ↔ level' ∈ levels ∧ key' = key ∨
    graph.IsNode level' key' := by
  induction levels generalizing graph with
  | nil =>
    have hnone : ¬ (level' ∈ ([] : List ℕ) ∧ key' = key) := fun h => List.not_mem_nil h.1
    rw [or_iff_right hnone]
    rfl
  | cons level levels ih =>
    rw [addAtLevels, List.foldl_cons]
    refine (ih _).trans ?_
    rw [isNode_setNeighbors, List.mem_cons]
    tauto

/-- A node stays the same node with other neighbors. -/
theorem isNode_setNeighbors_of_isNode {graph : HnswFieldGraph} {level : ℕ} {key : String}
    (h : graph.IsNode level key) (neighbors : List String) :
    (graph.setNeighbors level key neighbors).IsNode level' key' ↔ graph.IsNode level' key' := by
  rw [isNode_setNeighbors]
  refine or_iff_right_of_imp ?_
  rintro ⟨rfl, rfl⟩
  exact h

theorem isNode_pruneHnswNeighbors (entries : EntryMap S) (m : ℕ) :
    (graph.pruneHnswNeighbors ops level key entries m).IsNode level' key' ↔
      graph.IsNode level' key' := by
  rw [pruneHnswNeighbors]
  split
  · rename_i hlinks
    refine isNode_setNeighbors_of_isNode level' key' ?_ _
    rw [IsNode, Std.ExtTreeMap.mem_iff_isSome_getElem?, hlinks]
    rfl
  · exact Iff.rfl

end HnswFieldGraph

/-! ### Pruned neighbors -/

/-- What pruning leaves of distinct neighbors. -/
theorem prunedNeighbors_spec {order : String → String → Ordering}
    {neighbors : List String} (m : ℕ) :
    (((sortBy order neighbors).destutter (· ≠ ·)).take m).length ≤ m ∧
      (neighbors.Nodup → (((sortBy order neighbors).destutter (· ≠ ·)).take m).Nodup) ∧
        ∀ a ∈ ((sortBy order neighbors).destutter (· ≠ ·)).take m, a ∈ neighbors := by
  have hsub : (((sortBy order neighbors).destutter (· ≠ ·)).take m).Sublist
      (sortBy order neighbors) :=
    (List.take_sublist _ _).trans (List.destutter_sublist _ _)
  have hperm := sortBy_perm order neighbors
  exact ⟨List.length_take_le _ _, fun hnodup => (hperm.nodup_iff.2 hnodup).sublist hsub,
    fun a ha => hperm.mem_iff.1 (hsub.subset ha)⟩

/-! ### The shape of a graph -/

variable {graph : HnswFieldGraph} {entries : EntryMap S} {nodes : ℕ → String → Prop} {m level : ℕ}

/-- Some keys are the nodes of the levels, and neighbors are other nodes of the same level. -/
structure GraphShape (graph : HnswFieldGraph) (nodes : ℕ → String → Prop) : Prop where
  isNode_iff : ∀ level key, graph.IsNode level key ↔ nodes level key
  nodup : ∀ level key, (graph.neighborsAt level key).Nodup
  irrefl : ∀ level key, key ∉ graph.neighborsAt level key
  closed : ∀ level key, ∀ neighbor ∈ graph.neighborsAt level key, nodes level neighbor

/-- No list of neighbors is too long. -/
def FewNeighbors (graph : HnswFieldGraph) (m : ℕ) : Prop :=
  ∀ level key, (graph.neighborsAt level key).length ≤ mForLevel m level

namespace GraphShape

theorem congr {nodes' : ℕ → String → Prop} (h : GraphShape graph nodes)
    (hsame : ∀ level key, nodes level key ↔ nodes' level key) : GraphShape graph nodes' where
  isNode_iff level key := (h.isNode_iff level key).trans (hsame level key)
  nodup := h.nodup
  irrefl := h.irrefl
  closed level key neighbor hneighbor :=
    (hsame level neighbor).1 (h.closed level key neighbor hneighbor)

theorem addAtLevels (h : GraphShape graph nodes) (levels : List ℕ) (key : String) :
    GraphShape (graph.addAtLevels levels key) fun level a => level ∈ levels ∧ a = key ∨
    nodes level a where
  isNode_iff level a := by rw [HnswFieldGraph.isNode_addAtLevels, h.isNode_iff]
  nodup level a := by
    rw [HnswFieldGraph.neighborsAt_addAtLevels]
    exact h.nodup level a
  irrefl level a := by
    rw [HnswFieldGraph.neighborsAt_addAtLevels]
    exact h.irrefl level a
  closed level a neighbor hneighbor := by
    rw [HnswFieldGraph.neighborsAt_addAtLevels] at hneighbor
    exact .inr (h.closed level a neighbor hneighbor)

theorem addHnswNeighbor (h : GraphShape graph nodes) {key neighbor : String}
    (hkey : nodes level key) (hneighbor : nodes level neighbor) (hne : neighbor ≠ key) :
    GraphShape (graph.addHnswNeighbor level key neighbor) nodes where
  isNode_iff level' a := by
    rw [HnswFieldGraph.addHnswNeighbor,
      HnswFieldGraph.isNode_setNeighbors_of_isNode level' a ((h.isNode_iff level key).2 hkey),
      h.isNode_iff]
  nodup level' a := by
    rw [HnswFieldGraph.neighborsAt_addHnswNeighbor]
    split_ifs with hsame
    · obtain ⟨rfl, rfl, hnew⟩ := hsame
      refine List.nodup_append.2 ⟨h.nodup _ _, List.nodup_singleton _, fun b hb c hc hbc => ?_⟩
      exact hnew (List.mem_singleton.1 hc ▸ hbc ▸ hb)
    · exact h.nodup level' a
  irrefl level' a := by
    rw [HnswFieldGraph.neighborsAt_addHnswNeighbor]
    split_ifs with hsame
    · obtain ⟨rfl, rfl, -⟩ := hsame
      intro hmem
      rcases List.mem_append.1 hmem with hmem | hmem
      · exact h.irrefl _ _ hmem
      · exact hne (List.mem_singleton.1 hmem).symm
    · exact h.irrefl level' a
  closed level' a b hb := by
    rw [HnswFieldGraph.neighborsAt_addHnswNeighbor] at hb
    split_ifs at hb with hsame
    · obtain ⟨rfl, rfl, -⟩ := hsame
      rcases List.mem_append.1 hb with hb | hb
      · exact h.closed _ _ b hb
      · rw [List.mem_singleton.1 hb]
        exact hneighbor
    · exact h.closed level' a b hb

theorem pruneHnswNeighbors (h : GraphShape graph nodes) {key : String} (hkey : key ∈ entries) :
    GraphShape (graph.pruneHnswNeighbors ops level key entries m) nodes := by
  obtain ⟨entry, hentry⟩ :=
    Option.isSome_iff_exists.1 (Std.ExtTreeMap.mem_iff_isSome_getElem?.1 hkey)
  refine ⟨fun level' a => ?_, fun level' a => ?_, fun level' a => ?_, fun level' a b hb => ?_⟩
  · rw [HnswFieldGraph.isNode_pruneHnswNeighbors, h.isNode_iff]
  · rw [HnswFieldGraph.neighborsAt_pruneHnswNeighbors _ _ _ _ _ m hentry]
    split_ifs with hsame
    · exact (prunedNeighbors_spec m).2.1 (h.nodup level key)
    · exact h.nodup level' a
  · rw [HnswFieldGraph.neighborsAt_pruneHnswNeighbors _ _ _ _ _ m hentry]
    split_ifs with hsame
    · obtain ⟨rfl, rfl⟩ := hsame
      exact fun hmem => h.irrefl _ _ ((prunedNeighbors_spec m).2.2 _ hmem)
    · exact h.irrefl level' a
  · rw [HnswFieldGraph.neighborsAt_pruneHnswNeighbors _ _ _ _ _ m hentry] at hb
    split_ifs at hb with hsame
    · obtain ⟨rfl, rfl⟩ := hsame
      exact h.closed _ _ b ((prunedNeighbors_spec m).2.2 b hb)
    · exact h.closed level' a b hb

theorem linkHnswNeighbors (h : GraphShape graph nodes) {left right : String}
    (hleft : nodes level left) (hright : nodes level right) (hne : left ≠ right)
    (hentries : ∀ level key, nodes level key → key ∈ entries) :
    GraphShape (graph.linkHnswNeighbors ops level left right entries m) nodes :=
  (((h.addHnswNeighbor hleft hright hne.symm).addHnswNeighbor hright hleft hne).pruneHnswNeighbors
    (hentries level left hleft)).pruneHnswNeighbors (hentries level right hright)

end GraphShape

/-- Linking adds a neighbor to two lists, and prunes both. -/
theorem FewNeighbors.linkHnswNeighbors (h : FewNeighbors graph m) {left right : String}
    (hleft : left ∈ entries) (hright : right ∈ entries) :
    FewNeighbors (graph.linkHnswNeighbors ops level left right entries (mForLevel m level)) m := by
  obtain ⟨leftEntry, hleft⟩ :=
    Option.isSome_iff_exists.1 (Std.ExtTreeMap.mem_iff_isSome_getElem?.1 hleft)
  obtain ⟨rightEntry, hright⟩ :=
    Option.isSome_iff_exists.1 (Std.ExtTreeMap.mem_iff_isSome_getElem?.1 hright)
  intro level' key
  rw [HnswFieldGraph.linkHnswNeighbors,
    HnswFieldGraph.neighborsAt_pruneHnswNeighbors _ _ _ _ _ _ hright]
  split_ifs with hsame
  · rw [← hsame.1]
    exact (prunedNeighbors_spec _).1
  · rw [HnswFieldGraph.neighborsAt_pruneHnswNeighbors _ _ _ _ _ _ hleft]
    split_ifs with hsame'
    · rw [← hsame'.1]
      exact (prunedNeighbors_spec _).1
    · -- Other lists are not touched.
      rw [HnswFieldGraph.neighborsAt_addHnswNeighbor,
        if_neg fun hadded => hsame ⟨hadded.1, hadded.2.1⟩,
        HnswFieldGraph.neighborsAt_addHnswNeighbor,
        if_neg fun hadded => hsame' ⟨hadded.1, hadded.2.1⟩]
      exact h level' key

/-- The links of an entry at one level. -/
theorem GraphShape.foldl_linkHnswNeighbors (ops : F32 S) (h : GraphShape graph nodes)
    (hfew : FewNeighbors graph m) {key : String} {selected : List String} (hkey : nodes level key)
    (hselected : ∀ a ∈ selected, nodes level a ∧ a ≠ key)
    (hentries : ∀ level key, nodes level key → key ∈ entries) :
    GraphShape (selected.foldl (fun graph neighbor =>
        graph.linkHnswNeighbors ops level key neighbor entries (mForLevel m level)) graph) nodes ∧
      FewNeighbors (selected.foldl (fun graph neighbor =>
        graph.linkHnswNeighbors ops level key neighbor entries (mForLevel m level)) graph) m := by
  induction selected generalizing graph with
  | nil => exact ⟨h, hfew⟩
  | cons first selected ih =>
    obtain ⟨⟨hfirst, hne⟩, hrest⟩ := List.forall_mem_cons.1 hselected
    rw [List.foldl_cons]
    exact ih (h.linkHnswNeighbors hkey hfirst hne.symm hentries)
      (hfew.linkHnswNeighbors (hentries level key hkey) (hentries level first hfirst)) hrest

/-! ### Levels -/

/-- A search of a level finds nodes of the level. -/
theorem GraphShape.mem_search (h : GraphShape graph nodes) {query : List S}
    {entryPoints : List String} (hpoints : ∀ key ∈ entryPoints, nodes level key) {ef : ℕ}
    {visited : Std.ExtTreeSet String compare} :
    ∀ key ∈ (graph.hnswSearchLayer ops entries query entryPoints level ef visited).1,
    nodes level key := by
  have hvisited : ∀ key ∈ layerVisited ops graph entries query entryPoints level ef,
      nodes level key := by
    refine bestFirst_reaches (fun _ _ h => (bestEntryKey_mem h).1)
      (fun _ _ => Std.ExtTreeSet.not_mem_empty) (Nat.le_add_left _ _) (fun key hkey => ?_)
      fun key _ neighbor hneighbor => ?_
    · have hstart := hkey.resolve_left Std.ExtTreeSet.not_mem_empty
      rw [Std.ExtTreeSet.mem_ofList, List.contains_iff_mem] at hstart
      exact hpoints key (List.mem_of_mem_filter hstart)
    · exact h.closed level key neighbor (List.mem_of_mem_filter hneighbor)
  intro key hkey
  rw [hnswSearchLayer_eq] at hkey
  exact hvisited key
    (Std.ExtTreeSet.mem_toList.1 ((sortBy_perm _ _).mem_iff.1 (List.mem_of_mem_take hkey)))

/-- The nodes of the levels after a key was put at one level. -/
def withNode (nodes : ℕ → String → Prop) (level : ℕ) (key : String) (level' : ℕ) (a : String) :
    Prop :=
  level' = level ∧ a = key ∨ nodes level' a

/-- An entry is linked at a level, and the search goes on from a node of the level. -/
theorem GraphShape.linkLevel (ops : F32 S) (efConstruction : ℕ) (h : GraphShape graph nodes)
    (hfew : FewNeighbors graph m) {entry : VectorIndexEntry S} {entryPoint : String}
    (hpoint : nodes level entryPoint) (hstored : vectorEntryKey entry ∈ entries)
    (hentries : ∀ level key, nodes level key → key ∈ entries) :
    let linked := TraceDB.linkLevel ops entries m efConstruction entry (graph, entryPoint) level
    GraphShape linked.1 (withNode nodes level (vectorEntryKey entry)) ∧ FewNeighbors linked.1 m ∧
      nodes level linked.2 := by
  set key := vectorEntryKey entry with hkeyeq
  set candidates := (graph.hnswSearchLayer ops entries entry.vector [entryPoint] level
    (max efConstruction 1) ∅).1
    with hcandidates
  set selected := selectHnswNeighbors ops key candidates entries (mForLevel m level) with hselected
  have hfound : ∀ a ∈ candidates, nodes level a := h.mem_search (by simpa using hpoint)
  have hadded : GraphShape (graph.addAtLevels [level] key) (withNode nodes level key) :=
    (h.addAtLevels [level] key).congr fun level' a => by rw [List.mem_singleton, withNode]
  have hfewAdded : FewNeighbors (graph.addAtLevels [level] key) m := by
    intro level' a
    rw [HnswFieldGraph.neighborsAt_addAtLevels]
    exact hfew level' a
  have hchosen : ∀ a ∈ selected, withNode nodes level key level a ∧ a ≠ key := fun a ha =>
    ⟨.inr (hfound a (mem_of_mem_selectHnswNeighbors ha).1), (mem_of_mem_selectHnswNeighbors ha).2⟩
  have hknown : ∀ level' a, withNode nodes level key level' a → a ∈ entries := by
    rintro level' a (⟨-, rfl⟩ | ha)
    · exact hstored
    · exact hentries level' a ha
  obtain ⟨hshape, hfewLinked⟩ :=
    hadded.foldl_linkHnswNeighbors ops hfewAdded (.inl ⟨rfl, rfl⟩) hchosen hknown
  refine ⟨hshape, hfewLinked, ?_⟩
  set linked := selected.foldl (fun graph neighbor =>
    graph.linkHnswNeighbors ops level key neighbor entries (mForLevel m level))
      (graph.addAtLevels [level] key)
  show nodes level ((hnswBestKey ops (linked.neighborsAt level key) entries entry.vector).getD
    entryPoint)
  cases hbest : hnswBestKey ops (linked.neighborsAt level key) entries entry.vector with
  | none => exact hpoint
  | some best =>
    -- The best neighbor of the entry is not the entry.
    have hneighbor := List.mem_of_mem_filter (minBy_mem hbest)
    refine (hshape.closed level key best hneighbor).resolve_left fun hsame => ?_
    exact hshape.irrefl level key (hsame.2 ▸ hneighbor)

/-- The levels from 0 up, from the top down. -/
theorem levelsDown_zero (top : ℕ) : levelsDown 0 (top + 1) = (top + 1) :: levelsDown 0 top := by
  rw [levelsDown, levelsDown, Nat.sub_zero, Nat.sub_zero, List.range'_concat, List.reverse_append]
  simp

/-- An entry is linked at all levels from one down. -/
theorem GraphShape.linkLevels (ops : F32 S) (efConstruction : ℕ) {old : ℕ → String → Prop} {top : ℕ}
    {entry : VectorIndexEntry S} (hdown : ∀ level key, old (level + 1) key → old level key)
    (hstored : vectorEntryKey entry ∈ entries)
    (hentries : ∀ level key, old level key → key ∈ entries) (limit : ℕ) (htop : top ≤ limit)
    {entryPoint : String} (hpoint : old top entryPoint) (hfew : FewNeighbors graph m)
    (h : GraphShape graph fun level a => (top < level ∧ level ≤ limit) ∧ a = vectorEntryKey entry ∨
      old level a) :
    let linked := (levelsDown 0 top).foldl
      (TraceDB.linkLevel ops entries m efConstruction entry) (graph, entryPoint)
    GraphShape linked.1 (fun level a => level ≤ limit ∧ a = vectorEntryKey entry ∨ old level a) ∧
      FewNeighbors linked.1 m := by
  have hknown : ∀ top level a, (top < level ∧ level ≤ limit) ∧
      a = vectorEntryKey entry ∨ old level a →
      a ∈ entries := by
    rintro top level a (⟨-, rfl⟩ | ha)
    · exact hstored
    · exact hentries level a ha
  induction top generalizing graph entryPoint with
  | zero =>
    obtain ⟨hshape, hfewLinked, -⟩ := h.linkLevel ops efConstruction hfew (.inr hpoint)
      hstored (hknown 0)
    refine ⟨hshape.congr fun level a => ?_, hfewLinked⟩
    rw [withNode]
    constructor
    · rintro (⟨rfl, ha⟩ | ⟨hlevel, ha⟩ | ha)
      · exact .inl ⟨htop, ha⟩
      · exact .inl ⟨hlevel.2, ha⟩
      · exact .inr ha
    · rintro (⟨hlevel, ha⟩ | ha)
      · rcases Nat.eq_zero_or_pos level with hzero | hpos
        · exact .inl ⟨hzero, ha⟩
        · exact .inr (.inl ⟨⟨hpos, hlevel⟩, ha⟩)
      · exact .inr (.inr ha)
  | succ top ih =>
    obtain ⟨hshape, hfewLinked, hnext⟩ := h.linkLevel ops efConstruction hfew (.inr hpoint)
      hstored (hknown (top + 1))
    rw [levelsDown_zero, List.foldl_cons]
    have hnode := hnext.resolve_left fun hsame => absurd hsame.1.1 (lt_irrefl _)
    refine ih (by omega) (hdown _ _ hnode) hfewLinked (hshape.congr fun level a => ?_)
    rw [withNode]
    constructor
    · rintro (⟨rfl, ha⟩ | ⟨hlevel, ha⟩ | ha)
      · exact .inl ⟨⟨by omega, htop⟩, ha⟩
      · exact .inl ⟨⟨by omega, hlevel.2⟩, ha⟩
      · exact .inr ha
    · rintro (⟨hlevel, ha⟩ | ha)
      · rcases eq_or_ne level (top + 1) with heq | hne
        · exact .inl ⟨heq, ha⟩
        · exact .inr (.inl ⟨⟨by omega, hlevel.2⟩, ha⟩)
      · exact .inr (.inr ha)

/-! ### Entries -/

/-- The nodes of a graph with some keys. -/
def levelNodes (m : ℕ) (inserted : List String) (level : ℕ) (key : String) : Prop :=
  level ≤ keyLevel m key ∧ key ∈ inserted

theorem levelNodes_cons {key a : String} {inserted : List String} :
    levelNodes m (key :: inserted) level a ↔ level ≤ keyLevel m key ∧ a = key ∨
    levelNodes m inserted level a := by
  rw [levelNodes, levelNodes, List.mem_cons]
  constructor
  · rintro ⟨hlevel, rfl | ha⟩
    · exact .inl ⟨hlevel, rfl⟩
    · exact .inr ⟨hlevel, ha⟩
  · rintro (⟨hlevel, rfl⟩ | ⟨hlevel, ha⟩)
    · exact ⟨hlevel, .inl rfl⟩
    · exact ⟨hlevel, .inr ha⟩

/-- A graph after some keys were inserted. -/
structure Grown (graph : HnswFieldGraph) (m : ℕ) (inserted : List String) : Prop where
  shape : GraphShape graph (levelNodes m inserted)
  few : FewNeighbors graph m
  entryPoint : ∃ key ∈ inserted, graph.entryPoint = some key ∧ keyLevel m key = graph.maxLevel
  le_maxLevel : ∀ key ∈ inserted, keyLevel m key ≤ graph.maxLevel

theorem graphShape_empty : GraphShape .empty fun _ _ => False := by
  have hlinks : ∀ level, HnswFieldGraph.empty.levelLinks level = ∅ := by
    intro level
    rw [HnswFieldGraph.levelLinks, HnswFieldGraph.empty, Std.ExtTreeMap.getElem?_empty,
      Option.getD_none]
  have hnone : ∀ level key, HnswFieldGraph.empty.neighborsAt level key = [] := by
    intro level key
    rw [HnswFieldGraph.neighborsAt, hlinks, Std.ExtTreeMap.getElem?_empty, Option.getD_none]
  refine ⟨fun level key => ?_, fun level key => ?_, fun level key => ?_, fun level key a ha => ?_⟩
  · rw [HnswFieldGraph.IsNode, hlinks]
    exact iff_false_intro Std.ExtTreeMap.not_mem_empty
  · rw [hnone]
    exact List.nodup_nil
  · rw [hnone]
    exact List.not_mem_nil
  · rw [hnone] at ha
    cases ha

/-- The first entry. -/
theorem grown_first (entries : EntryMap S) (m efConstruction : ℕ) (entry : VectorIndexEntry S) :
    Grown (insertHnswEntry ops entries m efConstruction .empty entry) m [vectorEntryKey entry] where
  shape := by
    have hadded := graphShape_empty.addAtLevels (List.range (deterministicHnswLevel entry m + 1))
      (vectorEntryKey entry)
    have hshape : GraphShape (insertHnswEntry ops entries m efConstruction .empty entry) _ :=
      ⟨hadded.isNode_iff, hadded.nodup, hadded.irrefl, hadded.closed⟩
    refine hshape.congr fun level a => ?_
    rw [or_false, List.mem_range, Nat.lt_succ_iff, levelNodes, List.mem_singleton]
    refine and_congr_left fun ha => ?_
    rw [ha, deterministicHnswLevel_eq]
  few level key := by
    have hnone : (insertHnswEntry ops entries m efConstruction .empty entry).neighborsAt level key =
        [] :=
      (HnswFieldGraph.empty.neighborsAt_addAtLevels level (vectorEntryKey entry) key _).trans
        (List.eq_nil_iff_forall_not_mem.2 fun a ha => graphShape_empty.closed level key a ha)
    rw [hnone]
    exact Nat.zero_le _
  entryPoint := ⟨vectorEntryKey entry, List.mem_singleton_self _, rfl, rfl⟩
  le_maxLevel key hkey := by
    rw [List.mem_singleton.1 hkey]
    exact le_rfl

/-- Linking leaves the entry point and the number of levels as they are. -/
theorem samePoint_linkLevels (entries : EntryMap S) (m efConstruction : ℕ)
    (entry : VectorIndexEntry S) (levels : List ℕ) (state : HnswFieldGraph × String) :
    HnswFieldGraph.SamePoint state.1
      (levels.foldl (linkLevel ops entries m efConstruction entry) state).1 := by
  induction levels generalizing state with
  | nil => exact ⟨rfl, rfl⟩
  | cons level levels ih =>
    have hlink := @HnswFieldGraph.samePoint_linkLevel S ops state.1 level entries m
      efConstruction entry state.2
    have hrest := ih (linkLevel ops entries m efConstruction entry state level)
    exact ⟨hrest.1.trans hlink.1, hrest.2.trans hlink.2⟩

/-- **Inserting an entry** keeps the shape of the graph. -/
theorem Grown.insertHnswEntry {inserted : List String} (h : Grown graph m inserted)
    {efConstruction : ℕ} {entry : VectorIndexEntry S} (hstored : vectorEntryKey entry ∈ entries)
    (hinserted : ∀ key ∈ inserted, key ∈ entries) :
    Grown (TraceDB.insertHnswEntry ops entries m efConstruction graph entry) m
      (vectorEntryKey entry :: inserted) := by
  obtain ⟨entryPoint, hpoint, hgraph, htop⟩ := h.entryPoint
  set nodeLevel := deterministicHnswLevel entry m with hnode
  set key := vectorEntryKey entry with hkeyeq
  have hlevel : keyLevel m key = nodeLevel := rfl
  -- The levels above the entry are passed from the entry point, which is where they lead back to.
  have hstart := (@descend_eq S ops entry.vector entries graph _ (hinserted _ hpoint)
    (levelsDown (nodeLevel + 1) graph.maxLevel) ∅).1
  set limit := min graph.maxLevel nodeLevel with hlimit
  have hdown : ∀ level a, levelNodes m inserted (level + 1) a → levelNodes m inserted level a :=
    fun level a ha => ⟨(Nat.le_succ level).trans ha.1, ha.2⟩
  have hknown : ∀ level a, levelNodes m inserted level a → a ∈ entries :=
    fun level a ha => hinserted a ha.2
  have hnode' : levelNodes m inserted limit entryPoint := ⟨by omega, hpoint⟩
  have hbefore : GraphShape graph fun level a => (limit < level ∧ level ≤ limit) ∧
      a = vectorEntryKey entry ∨
      levelNodes m inserted level a :=
    h.shape.congr fun level a => (or_iff_right fun hnew => by omega).symm
  obtain ⟨hshape, hfew⟩ :=
    hbefore.linkLevels ops efConstruction hdown hstored hknown limit le_rfl hnode' h.few
  set linked := ((levelsDown 0 limit).foldl (linkLevel ops entries m efConstruction entry) (graph,
    entryPoint)).1
    with hlinked
  have hsame : HnswFieldGraph.SamePoint graph linked :=
    samePoint_linkLevels entries m efConstruction entry (levelsDown 0 limit) (graph, entryPoint)
  have hinsert : TraceDB.insertHnswEntry ops entries m efConstruction graph entry =
      if graph.maxLevel < nodeLevel then
        { linked.addAtLevels
          (List.range' (graph.maxLevel + 1) (nodeLevel - graph.maxLevel)) key with
          entryPoint := some key
          maxLevel := nodeLevel }
      else linked := by
    rw [TraceDB.insertHnswEntry, hgraph]
    dsimp only
    rw [← hnode, hstart]
  rw [hinsert]
  split_ifs with hhigher
  · -- The entry is above all others, and becomes the entry point.
    have hadded : GraphShape
        (linked.addAtLevels (List.range' (graph.maxLevel + 1) (nodeLevel - graph.maxLevel)) key)
        (levelNodes m (key :: inserted)) := by
      refine (hshape.addAtLevels _ key).congr fun level a => ?_
      rw [levelNodes_cons, hlevel, List.mem_range'_1, ← or_assoc, ← or_and_right]
      refine or_congr_left (and_congr_left fun _ => ?_)
      omega
    refine ⟨⟨hadded.isNode_iff, hadded.nodup, hadded.irrefl, hadded.closed⟩, fun level a => ?_,
      ⟨key, List.mem_cons_self, rfl, hlevel⟩, List.forall_mem_cons.2 ⟨hlevel.le, fun a ha => ?_⟩⟩
    · exact (congrArg List.length (linked.neighborsAt_addAtLevels level key a _)).trans_le
        (hfew level a)
    · exact (h.le_maxLevel a ha).trans hhigher.le
  · have hbelow : limit = nodeLevel := by omega
    refine ⟨hshape.congr fun level a => ?_, hfew,
      ⟨entryPoint, List.mem_cons_of_mem _ hpoint, hsame.1.trans hgraph, htop.trans hsame.2.symm⟩,
      ?_⟩
    · rw [levelNodes_cons, hlevel, hbelow]
    · rw [hsame.2]
      exact List.forall_mem_cons.2 ⟨by omega, h.le_maxLevel⟩

/-! ### The graphs of all fields -/

/-- What holds of the graph of a field with some entries. -/
structure HnswFieldGraph.WellFormed (graph : HnswFieldGraph)
    (entries : List (VectorIndexEntry S)) (m : ℕ) :
    Prop where
  few : ∀ level key, (graph.neighborsAt level key).length ≤ mForLevel m level
  nodup : ∀ level key, (graph.neighborsAt level key).Nodup
  irrefl : ∀ level key, key ∉ graph.neighborsAt level key
  closed : ∀ level key, ∀ neighbor ∈ graph.neighborsAt level key,
    (∃ entry ∈ entries, vectorEntryKey entry = neighbor) ∧ graph.IsNode level neighbor
  /-- An entry is a node of its levels and of no others. -/
  isNode_iff : ∀ entry ∈ entries, ∀ level,
    graph.IsNode level (vectorEntryKey entry) ↔ level ≤ deterministicHnswLevel entry m
  entryPoint : ∃ key, graph.entryPoint = some key ∧ graph.IsNode graph.maxLevel key
  maxLevel_mem : ∃ entry ∈ entries, deterministicHnswLevel entry m = graph.maxLevel
  le_maxLevel : ∀ entry ∈ entries, deterministicHnswLevel entry m ≤ graph.maxLevel

/-- The entries of a field, inserted one after the other. -/
theorem grown_foldl {m efConstruction : ℕ} {fieldEntries : List (VectorIndexEntry S)}
    (hne : fieldEntries ≠ []) (hstored : ∀ entry ∈ fieldEntries, vectorEntryKey entry ∈ entries) :
    Grown (fieldEntries.foldl (insertHnswEntry ops entries m efConstruction) .empty) m
      (fieldEntries.map vectorEntryKey).reverse := by
  induction fieldEntries using List.reverseRecOn with
  | nil => exact absurd rfl hne
  | append_singleton fieldEntries entry ih =>
    obtain ⟨hbefore, hentry⟩ := List.forall_mem_append.1 hstored
    rw [List.forall_mem_singleton] at hentry
    rw [List.foldl_append, List.foldl_cons, List.foldl_nil, List.map_append, List.map_singleton,
      List.reverse_append, List.reverse_singleton, List.singleton_append]
    rcases eq_or_ne fieldEntries [] with rfl | hmore
    · exact grown_first entries m efConstruction entry
    · refine (ih hmore hbefore).insertHnswEntry hentry fun key hkey => ?_
      obtain ⟨other, hother, rfl⟩ := List.mem_map.1 (List.mem_reverse.1 hkey)
      exact hbefore other hother

/-- A graph with all entries of a field is well formed. -/
theorem Grown.wellFormed {members fieldEntries : List (VectorIndexEntry S)}
    (h : Grown graph m (fieldEntries.map vectorEntryKey).reverse)
    (hperm : fieldEntries.Perm members) :
    graph.WellFormed members m := by
  have hkeys : ∀ key, key ∈ (fieldEntries.map vectorEntryKey).reverse ↔
      ∃ entry ∈ members, vectorEntryKey entry = key := by
    intro key
    rw [List.mem_reverse, List.mem_map]
    exact exists_congr fun entry => and_congr_left fun _ => hperm.mem_iff
  have hmem : ∀ entry ∈ members, vectorEntryKey entry ∈ (fieldEntries.map vectorEntryKey).reverse :=
    fun entry hentry => (hkeys _).2 ⟨entry, hentry, rfl⟩
  obtain ⟨point, hpoint, hgraph, htop⟩ := h.entryPoint
  refine ⟨h.few, h.shape.nodup, h.shape.irrefl, fun level key a ha => ?_,
    fun entry hentry level => ?_, ⟨point, hgraph, (h.shape.isNode_iff _ _).2 ⟨htop.ge, hpoint⟩⟩, ?_,
    fun entry hentry => h.le_maxLevel _ (hmem entry hentry)⟩
  · have hnode := h.shape.closed level key a ha
    exact ⟨(hkeys a).1 hnode.2, (h.shape.isNode_iff level a).2 hnode⟩
  · rw [h.shape.isNode_iff, levelNodes, deterministicHnswLevel_eq]
    exact and_iff_left (hmem entry hentry)
  · obtain ⟨entry, hentry, rfl⟩ := (hkeys point).1 hpoint
    exact ⟨entry, hentry, htop⟩

/-- The graph of a field has all its entries. -/
theorem grown_buildHnswGraphs {records : List (VectorIndexEntry S)} {efConstruction : ℕ}
    {field : String} (h : (buildHnswGraphs ops records m efConstruction)[field]? = some graph) :
    Grown graph m ((sortBy fieldEntryOrder (records.filter fun entry => entry.field = field)).map
      vectorEntryKey).reverse := by
  rw [getElem?_buildHnswGraphs] at h
  dsimp only at h
  split_ifs at h with hmembers
  obtain rfl := Option.some.inj h
  refine grown_foldl (fun hnil => hmembers ?_) fun entry hentry => ?_
  · have hperm := sortBy_perm fieldEntryOrder (records.filter fun entry => entry.field = field)
    exact (hnil ▸ hperm).nil_eq.symm
  · exact SortedMap.mem_indexBy.2 ⟨entry, hentry, rfl⟩

/-- **The graph of every field is well formed.** -/
theorem hnsw_graph_wellFormed {entries : List (VectorIndexEntry S)} {efConstruction : ℕ}
    {field : String} (h : (buildHnswGraphs ops entries m efConstruction)[field]? = some graph) :
    graph.WellFormed (entries.filter fun entry => entry.field = field) m :=
  (grown_buildHnswGraphs h).wellFormed (sortBy_perm _ _)

/-- Two entries of a field, and one of another field. -/
def fieldsEntries : List (VectorIndexEntry ℚ) :=
  [⟨"a", 1, "v", [1, 0]⟩, ⟨"a", 1, "w", [1]⟩, ⟨"b", 1, "v", [0, 1]⟩]

theorem hnsw_graph_wellFormed_fields :
    ∃ graph, (buildHnswGraphs .rational fieldsEntries 16 64)["v"]? = some graph ∧
      graph.WellFormed (fieldsEntries.filter fun entry => entry.field = "v") 16 := by
  have hgraph := @getElem?_buildHnswGraphs ℚ .rational fieldsEntries 16 64 "v"
  have hmembers : fieldsEntries.filter (fun entry => entry.field = "v") ≠ [] := List.cons_ne_nil _ _
  dsimp only at hgraph
  rw [if_neg hmembers] at hgraph
  exact ⟨_, hgraph, hnsw_graph_wellFormed hgraph⟩

end TraceDB
