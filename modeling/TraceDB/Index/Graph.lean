import Mathlib.Data.List.Destutter
import Mathlib.Logic.Relation
import TraceDB.Index.Answers

/-!
# Linking in a graph

What the steps of `build_hnsw_graphs` do to the neighbors of keys at level 0.  Linking touches two
keys, and pruning keeps a neighbor that few others can come before.

* `LevelLinked` : the neighbors are keys that were inserted, and some links are there.
* `LevelLinked.insertHnswEntry` : inserting an entry keeps the links that pruning keeps, and links
  the entry to the nearest key that can be reached.
-/

namespace TraceDB

variable {S : Type} {ops : F32 S}

/-! ### Fields -/

/-- A field has the graph of its entries in their order. -/
theorem getElem?_buildHnswGraphs (entries : List (VectorIndexEntry S)) (m efConstruction : ℕ)
    (field : String) :
    (buildHnswGraphs ops entries m efConstruction)[field]? =
      let members := entries.filter fun entry => entry.field = field
      let fieldEntries := sortBy fieldEntryOrder members
      if members = [] then none
      else some (fieldEntries.foldl
        (insertHnswEntry ops (SortedMap.indexBy vectorEntryKey fieldEntries) m efConstruction)
        .empty) := by
  have hgroup : entries.foldl
      (fun (grouped : Std.ExtTreeMap String (List (VectorIndexEntry S)) compare) entry =>
      grouped.insert entry.field (grouped[entry.field]?.getD [] ++ [entry])) ∅ =
        group (entries.map fun entry => (entry.field, entry)) := by
    rw [group, List.foldl_map]
    simp only [Std.ExtTreeMap.getD_eq_getD_getElem?]
  have hvalues : valuesOf (entries.map fun entry => (entry.field, entry)) field =
      entries.filter fun entry => entry.field = field := by
    rw [valuesOf, List.filterMap_map, ← List.filterMap_eq_filter]
    refine List.filterMap_congr fun entry _ => ?_
    by_cases hfield : entry.field = field
    · simp [hfield]
    · simp [hfield, Option.guard]
  rw [buildHnswGraphs, hgroup, Std.ExtTreeMap.getElem?_map, getElem?_group, hvalues]
  dsimp only
  split_ifs <;> rfl

namespace HnswFieldGraph

variable (graph : HnswFieldGraph) (level level' : ℕ) (key key' : String)

/-! ### Neighbors -/

theorem levelLinks_setNeighbors (neighbors : List String) :
    (graph.setNeighbors level key neighbors).levelLinks level' =
      if level = level' then (graph.levelLinks level).insert key neighbors
        else graph.levelLinks level' := by
  rw [levelLinks, setNeighbors, Std.ExtTreeMap.getElem?_insert]
  by_cases hlevel : level = level'
  · rw [if_pos (compare_eq_iff_eq.2 hlevel), if_pos hlevel, Option.getD_some]
  · rw [if_neg fun h => hlevel (compare_eq_iff_eq.1 h), if_neg hlevel, levelLinks]

theorem neighborsAt_setNeighbors (neighbors : List String) :
    (graph.setNeighbors level key neighbors).neighborsAt level' key' =
      if level = level' ∧ key = key' then neighbors else graph.neighborsAt level' key' := by
  rw [neighborsAt, levelLinks_setNeighbors]
  by_cases hlevel : level = level'
  · subst hlevel
    rw [if_pos rfl, Std.ExtTreeMap.getElem?_insert]
    by_cases hkey : key = key'
    · rw [if_pos (compare_eq_iff_eq.2 hkey), if_pos ⟨rfl, hkey⟩, Option.getD_some]
    · rw [if_neg fun h => hkey (compare_eq_iff_eq.1 h), if_neg fun h => hkey h.2, neighborsAt]
  · rw [if_neg hlevel, if_neg fun h => hlevel h.1, neighborsAt]

/-- A key that is put at some levels keeps its neighbors there. -/
theorem neighborsAt_addAtLevels (levels : List ℕ) :
    (graph.addAtLevels levels key).neighborsAt level' key' = graph.neighborsAt level' key' := by
  induction levels generalizing graph with
  | nil => rfl
  | cons level levels ih =>
    rw [addAtLevels, List.foldl_cons]
    refine (ih _).trans ?_
    rw [neighborsAt_setNeighbors]
    split_ifs with hsame
    · rw [hsame.1, hsame.2]
    · rfl

theorem neighborsAt_addHnswNeighbor (neighbor : String) :
    (graph.addHnswNeighbor level key neighbor).neighborsAt level' key' =
      if level = level' ∧ key = key' ∧ neighbor ∉ graph.neighborsAt level key then
        graph.neighborsAt level' key' ++ [neighbor]
      else graph.neighborsAt level' key' := by
  rw [addHnswNeighbor, neighborsAt_setNeighbors]
  by_cases hsame : level = level' ∧ key = key'
  · obtain ⟨rfl, rfl⟩ := hsame
    by_cases hmem : neighbor ∈ graph.neighborsAt level key
    · rw [if_pos ⟨rfl, rfl⟩, if_pos hmem, if_neg fun h => h.2.2 hmem]
    · rw [if_pos ⟨rfl, rfl⟩, if_neg hmem, if_pos ⟨rfl, rfl, hmem⟩]
  · rw [if_neg hsame, if_neg fun h => hsame ⟨h.1, h.2.1⟩]

/-- Pruning sorts the neighbors of one key and cuts them off. -/
theorem neighborsAt_pruneHnswNeighbors {entries : EntryMap S} {entry : VectorIndexEntry S} (m : ℕ)
    (hentry : entries[key]? = some entry) :
    (graph.pruneHnswNeighbors ops level key entries m).neighborsAt level' key' =
      if level = level' ∧ key = key' then
        ((sortBy (vectorKeyOrder ops entries entry.vector)
          (graph.neighborsAt level key)).destutter (· ≠ ·)).take m
      else graph.neighborsAt level' key' := by
  rw [pruneHnswNeighbors, hentry]
  cases hlinks : (graph.levelLinks level)[key]? with
  | none =>
    split_ifs with hsame
    · obtain ⟨rfl, rfl⟩ := hsame
      have hnone : graph.neighborsAt level key = [] := by rw [neighborsAt, hlinks, Option.getD_none]
      rw [hnone, sortBy, List.mergeSort_nil, List.destutter_nil, List.take_nil]
    · rfl
  | some neighbors =>
    have hsome : graph.neighborsAt level key = neighbors :=
      by rw [neighborsAt, hlinks, Option.getD_some]
    rw [neighborsAt_setNeighbors, hsome]

/-! ### Entry points -/

/-- Two graphs with the same entry point and the same number of levels. -/
def SamePoint (graph graph' : HnswFieldGraph) : Prop :=
  graph'.entryPoint = graph.entryPoint ∧ graph'.maxLevel = graph.maxLevel

theorem samePoint_addAtLevels (levels : List ℕ) :
    SamePoint graph (graph.addAtLevels levels key) := by
  induction levels generalizing graph with
  | nil => exact ⟨rfl, rfl⟩
  | cons level levels ih => exact ih (graph.setNeighbors level key (graph.neighborsAt level key))

theorem samePoint_pruneHnswNeighbors (entries : EntryMap S) (m : ℕ) :
    SamePoint graph (graph.pruneHnswNeighbors ops level key entries m) := by
  rw [pruneHnswNeighbors]
  split <;> exact ⟨rfl, rfl⟩

theorem samePoint_linkHnswNeighbors (right : String) (entries : EntryMap S) (m : ℕ) :
    SamePoint graph (graph.linkHnswNeighbors ops level key right entries m) := by
  rw [linkHnswNeighbors]
  set added := (graph.addHnswNeighbor level key right).addHnswNeighbor level right key
  have hleft := @samePoint_pruneHnswNeighbors S ops added level key entries m
  have hright := @samePoint_pruneHnswNeighbors S ops
    (added.pruneHnswNeighbors ops level key entries m) level right entries m
  exact ⟨hright.1.trans hleft.1, hright.2.trans hleft.2⟩

theorem samePoint_foldl_linkHnswNeighbors (selected : List String) (entries : EntryMap S) (m : ℕ) :
    SamePoint graph (selected.foldl (fun graph neighbor =>
      graph.linkHnswNeighbors ops level key neighbor entries m) graph) := by
  induction selected generalizing graph with
  | nil => exact ⟨rfl, rfl⟩
  | cons first selected ih =>
    have hlink := @samePoint_linkHnswNeighbors S ops graph level key first entries m
    have hrest := ih (graph.linkHnswNeighbors ops level key first entries m)
    exact ⟨hrest.1.trans hlink.1, hrest.2.trans hlink.2⟩

theorem samePoint_linkLevel (entries : EntryMap S) (m efConstruction : ℕ)
    (entry : VectorIndexEntry S) (entryPoint : String) :
    SamePoint graph (linkLevel ops entries m efConstruction entry (graph, entryPoint) level).1 := by
  have hadd := graph.samePoint_addAtLevels (vectorEntryKey entry) [level]
  have hlinks := @samePoint_foldl_linkHnswNeighbors S ops
    (graph.addAtLevels [level] (vectorEntryKey entry)) level
    (vectorEntryKey entry)
  exact ⟨(hlinks _ _ _).1.trans hadd.1, (hlinks _ _ _).2.trans hadd.2⟩

end HnswFieldGraph

/-! ### Links -/

variable {graph : HnswFieldGraph} {entries : EntryMap S} {inserted : List String}
  {links : String → String → Prop}

/-- At level 0 the neighbors of keys are others that were inserted, and some links are there. -/
structure LevelLinked (graph : HnswFieldGraph) (inserted : List String)
    (links : String → String → Prop) : Prop where
  known : ∀ key, ∀ neighbor ∈ graph.neighborsAt 0 key, neighbor ∈ inserted ∧ neighbor ≠ key
  nodup : ∀ key, (graph.neighborsAt 0 key).Nodup
  linked : ∀ key neighbor, links key neighbor → neighbor ∈ graph.neighborsAt 0 key

/-- A link from a key is kept among `m`: few entries can come before the neighbor. -/
def Survives [LinearOrder S] (ops : F32 S) (entries : EntryMap S) (m : ℕ) (key neighbor : String) :
    Prop :=
  ∀ entry, entries[key]? = some entry → ∃ before : List String, before.length < m ∧
    ∀ other ∈ entries, other ≠ key → other ≠ neighbor →
      (entryKeyOrder ops entries entry.vector other neighbor).isLE = true → other ∈ before

theorem LevelLinked.mono {links' : String → String → Prop} (h : LevelLinked graph inserted links)
    (hlinks : ∀ key neighbor, links' key neighbor → links key neighbor) :
      LevelLinked graph inserted links' :=
  ⟨h.known, h.nodup, fun key neighbor hlink => h.linked key neighbor (hlinks key neighbor hlink)⟩

theorem LevelLinked.congr {graph' : HnswFieldGraph} (h : LevelLinked graph inserted links)
    (hsame : ∀ key, graph'.neighborsAt 0 key = graph.neighborsAt 0 key) :
      LevelLinked graph' inserted links :=
  ⟨fun key => hsame key ▸ h.known key, fun key => hsame key ▸ h.nodup key,
    fun key => hsame key ▸ h.linked key⟩

theorem LevelLinked.addHnswNeighbor (h : LevelLinked graph inserted links) {key neighbor : String}
    (hneighbor : neighbor ∈ inserted) (hne : neighbor ≠ key) :
    LevelLinked (graph.addHnswNeighbor 0 key neighbor) inserted
      fun a b => links a b ∨ a = key ∧ b = neighbor where
  known a b hb := by
    rw [HnswFieldGraph.neighborsAt_addHnswNeighbor] at hb
    split_ifs at hb with hsame
    · rcases List.mem_append.1 hb with hb | hb
      · exact h.known a b hb
      · rw [List.mem_singleton.1 hb]
        exact ⟨hneighbor, hsame.2.1 ▸ hne⟩
    · exact h.known a b hb
  nodup a := by
    rw [HnswFieldGraph.neighborsAt_addHnswNeighbor]
    split_ifs with hsame
    · obtain ⟨-, rfl, hnew⟩ := hsame
      exact List.nodup_append.2 ⟨h.nodup _, List.nodup_singleton _, fun b hb c hc hbc =>
        hnew (List.mem_singleton.1 hc ▸ hbc ▸ hb)⟩
    · exact h.nodup a
  linked a b hlink := by
    rw [HnswFieldGraph.neighborsAt_addHnswNeighbor]
    split_ifs with hsame
    · rcases hlink with hlink | ⟨-, rfl⟩
      · exact List.mem_append_left _ (h.linked a b hlink)
      · exact List.mem_append_right _ (List.mem_singleton_self _)
    · rcases hlink with hlink | ⟨rfl, rfl⟩
      · exact h.linked a b hlink
      · by_contra hnew
        exact hsame ⟨rfl, rfl, hnew⟩

/-! ### Searching while a graph grows -/

/-- A walk at level 0 finds inserted keys only. -/
theorem LevelLinked.layerVisited_inserted (h : LevelLinked graph inserted links) {query : List S}
    {entryPoint : String} (hpoint : entryPoint ∈ inserted) {ef : ℕ} :
    ∀ key ∈ layerVisited ops graph entries query [entryPoint] 0 ef, key ∈ inserted := by
  refine bestFirst_reaches (fun _ _ h => (bestEntryKey_mem h).1)
    (fun _ _ => Std.ExtTreeSet.not_mem_empty) (Nat.le_add_left _ _) (fun key hkey => ?_)
    fun key _ neighbor hneighbor => ?_
  · have hstart := hkey.resolve_left Std.ExtTreeSet.not_mem_empty
    rw [Std.ExtTreeSet.mem_ofList, List.contains_iff_mem] at hstart
    rwa [List.mem_singleton.1 (List.mem_of_mem_filter hstart)]
  · exact (h.known key neighbor (List.mem_of_mem_filter hneighbor)).1

/-- A walk at level 0 with room for the inserted keys finds those that it can reach. -/
theorem LevelLinked.mem_layerVisited (h : LevelLinked graph inserted links) {query : List S}
    (hinserted : ∀ a ∈ inserted, a ∈ entries) {entryPoint : String}
    (hpoint : entryPoint ∈ inserted) {ef : ℕ} (hroom : inserted.length ≤ ef) {key : String}
    (hreach : Relation.ReflTransGen links entryPoint key) :
    key ∈ layerVisited ops graph entries query [entryPoint] 0 ef := by
  by_cases hends : (layerVisited ops graph entries query [entryPoint] 0 ef).size <
      max (min (max ef 1) entries.size) 1
  · have hclosed := bestFirst_closed (P := (· ∈ entries)) bestEntryKey_mem bestEntryKey_eq_none
      (fun _ _ => Std.ExtTreeSet.not_mem_empty) (Nat.le_add_left _ _)
      (fun _ h => absurd h Std.ExtTreeSet.not_mem_empty) hends
    induction hreach with
    | refl => exact TraceDB.mem_layerVisited (List.mem_singleton_self _) (hinserted _ hpoint) hends
    | tail _ hlink ih =>
      have hneighbor := h.linked _ _ hlink
      have hentry := hinserted _ (h.known _ _ hneighbor).1
      exact hclosed _ ih _ (List.mem_filter.2 ⟨hneighbor, Std.ExtTreeMap.mem_iff_contains.1 hentry⟩)
        hentry
  · -- A walk that has used up its room has found all inserted keys.
    have hkey : key ∈ inserted := by
      cases hreach with
      | refl => exact hpoint
      | tail _ hlink => exact (h.known _ _ (h.linked _ _ hlink)).1
    have hsub : (layerVisited ops graph entries query [entryPoint] 0 ef).toList.Subperm inserted :=
      List.subperm_of_subset nodup_toList fun a ha =>
        h.layerVisited_inserted hpoint a (Std.ExtTreeSet.mem_toList.1 ha)
    by_cases hall : entries.size ≤ (layerVisited ops graph entries query [entryPoint] 0 ef).size
    · exact mem_of_size_le (fun a ha => layerVisited_subset ha) hall (hinserted key hkey)
    · have hlength : inserted.length ≤
          (layerVisited ops graph entries query [entryPoint] 0 ef).toList.length := by
        rw [Std.ExtTreeSet.length_toList]
        omega
      exact Std.ExtTreeSet.mem_toList.1 ((hsub.perm_of_length_le hlength).mem_iff.2 hkey)

theorem mem_of_mem_selectHnswNeighbors {key a : String} {candidates : List String} {m : ℕ}
    (h : a ∈ selectHnswNeighbors ops key candidates entries m) : a ∈ candidates ∧ a ≠ key := by
  rw [selectHnswNeighbors] at h
  split at h
  · cases h
  · have hmem := (sortBy_perm _ _).mem_iff.1 (List.mem_of_mem_take h)
    rw [Std.ExtTreeSet.mem_toList, Std.ExtTreeSet.mem_ofList, List.contains_iff_mem] at hmem
    obtain ⟨hcandidate, hne⟩ := List.mem_filter.1 hmem
    exact ⟨hcandidate, (of_decide_eq_true hne).1⟩

/-- The first entry has no neighbors, and is the entry point. -/
theorem levelLinked_insert_first (entries : EntryMap S) (m efConstruction : ℕ)
    (entry : VectorIndexEntry S) :
    LevelLinked (insertHnswEntry ops entries m efConstruction .empty entry) [vectorEntryKey entry]
        (fun _ _ => False) ∧
      (insertHnswEntry ops entries m efConstruction .empty entry).maxLevel =
        deterministicHnswLevel entry m ∧
      (insertHnswEntry ops entries m efConstruction .empty entry).entryPoint =
        some (vectorEntryKey entry) := by
  have hnone : ∀ key, HnswFieldGraph.empty.neighborsAt 0 key = [] := by
    intro key
    rw [HnswFieldGraph.neighborsAt, HnswFieldGraph.levelLinks, HnswFieldGraph.empty,
      Std.ExtTreeMap.getElem?_empty, Option.getD_none, Std.ExtTreeMap.getElem?_empty,
      Option.getD_none]
  have hempty : LevelLinked .empty [vectorEntryKey entry] fun _ _ => False := by
    refine ⟨fun key a ha => ?_, fun key => ?_, fun _ _ h => h.elim⟩
    · rw [hnone] at ha
      cases ha
    · rw [hnone]
      exact List.nodup_nil
  exact ⟨hempty.congr fun key => HnswFieldGraph.empty.neighborsAt_addAtLevels 0
    (vectorEntryKey entry) key _, rfl, rfl⟩

section Order

variable [LinearOrder S] (hcmp : ∀ a b : S, ops.partialCmp a b = some (compare a b))

include hcmp

/-- Pruning keeps the links that are kept. -/
theorem LevelLinked.pruneHnswNeighbors (h : LevelLinked graph inserted links) {key : String} {m : ℕ}
    (hinserted : ∀ a ∈ inserted, a ∈ entries) (hkey : key ∈ entries)
    (hsurvive : ∀ a b, links a b → Survives ops entries m a b) :
    LevelLinked (graph.pruneHnswNeighbors ops 0 key entries m) inserted links := by
  obtain ⟨entry, hentry⟩ :=
    Option.isSome_iff_exists.1 (Std.ExtTreeMap.mem_iff_isSome_getElem?.1 hkey)
  have hentries : ∀ a ∈ graph.neighborsAt 0 key, a ∈ entries :=
    fun a ha => hinserted a (h.known key a ha).1
  have hsort : sortBy (vectorKeyOrder ops entries entry.vector) (graph.neighborsAt 0 key) =
      sortBy (entryKeyOrder ops entries entry.vector) (graph.neighborsAt 0 key) :=
    sortBy_congr fun a ha b hb => vectorKeyOrder_eq hcmp (hentries a ha) (hentries b hb)
  have hperm := sortBy_perm (entryKeyOrder ops entries entry.vector) (graph.neighborsAt 0 key)
  -- The neighbors are distinct, so there is nothing to drop before the cut.
  have hchain : (sortBy (entryKeyOrder ops entries entry.vector) (graph.neighborsAt 0 key)).IsChain
      (· ≠ ·) :=
    (hperm.nodup_iff.2 (h.nodup key)).isChain
  have hpruned : ∀ a, (graph.pruneHnswNeighbors ops 0 key entries m).neighborsAt 0 a =
      if key = a then (sortBy (entryKeyOrder ops entries entry.vector)
        (graph.neighborsAt 0 key)).take m
      else graph.neighborsAt 0 a := by
    intro a
    rw [HnswFieldGraph.neighborsAt_pruneHnswNeighbors _ _ _ _ _ m hentry, hsort,
      List.destutter_of_isChain _ _ hchain]
    simp only [true_and]
  refine ⟨fun a b hb => ?_, fun a => ?_, fun a b hlink => ?_⟩
  · rw [hpruned] at hb
    split_ifs at hb with hsame
    · exact h.known a b (hsame ▸ hperm.mem_iff.1 (List.mem_of_mem_take hb))
    · exact h.known a b hb
  · rw [hpruned]
    split_ifs with hsame
    · exact (hperm.nodup_iff.2 (h.nodup key)).sublist (List.take_sublist _ _)
    · exact h.nodup a
  · rw [hpruned]
    split_ifs with hsame
    · subst hsame
      obtain ⟨before, hfew, hbefore⟩ := hsurvive _ _ hlink entry hentry
      refine mem_take_sortBy (h.nodup _) (h.linked _ _ hlink) (fun c hc hne hle => ?_) hfew
      exact hbefore c (hentries c hc) (h.known _ c hc).2 hne hle
    · exact h.linked a b hlink

/-- Linking two keys keeps the links that are kept, and the new one from the second key where it is
kept. -/
theorem LevelLinked.linkHnswNeighbors (h : LevelLinked graph inserted links)
    {left right : String} {m : ℕ} (hinserted : ∀ a ∈ inserted, a ∈ entries)
    (hleft : left ∈ inserted) (hright : right ∈ inserted) (hne : left ≠ right)
    (hsurvive : ∀ a b, links a b → Survives ops entries m a b) :
    LevelLinked (graph.linkHnswNeighbors ops 0 left right entries m) inserted
      fun a b => links a b ∨ Survives ops entries m a b ∧ a = right ∧ b = left := by
  have hadded : LevelLinked
      ((graph.addHnswNeighbor 0 left right).addHnswNeighbor 0 right left) inserted
      fun a b => links a b ∨ Survives ops entries m a b ∧ a = right ∧ b = left :=
    ((h.addHnswNeighbor hright hne.symm).addHnswNeighbor hleft hne).mono
      fun a b hlink => hlink.elim (fun hlink => .inl (.inl hlink)) fun hlink => .inr hlink.2
  have hkept : ∀ a b, links a b ∨ Survives ops entries m a b ∧ a = right ∧ b = left →
      Survives ops entries m a b :=
    fun a b hlink => hlink.elim (hsurvive a b) And.left
  exact (hadded.pruneHnswNeighbors hcmp hinserted (hinserted left hleft) hkept).pruneHnswNeighbors
    hcmp hinserted
    (hinserted right hright) hkept

/-- The nearest of the candidates is selected. -/
theorem mem_selectHnswNeighbors {entry : VectorIndexEntry S} {key nearest : String}
    {candidates : List String} {m : ℕ} (hstored : entries[key]? = some entry) (hm : 0 < m)
    (hcandidate : nearest ∈ candidates) (hentry : nearest ∈ entries) (hne : nearest ≠ key)
    (hnearest : ∀ other ∈ candidates, other ≠ key → other ≠ nearest →
      ¬ (entryKeyOrder ops entries entry.vector other nearest).isLE = true) :
    nearest ∈ selectHnswNeighbors ops key candidates entries m := by
  rw [selectHnswNeighbors, hstored]
  have hothers : ∀ a, a ∈ (Std.ExtTreeSet.ofList (candidates.filter fun candidate =>
      candidate ≠ key ∧ entries.contains candidate) compare).toList ↔
        a ∈ candidates ∧ a ≠ key ∧ a ∈ entries := by
    intro a
    rw [Std.ExtTreeSet.mem_toList, Std.ExtTreeSet.mem_ofList, List.contains_iff_mem,
      List.mem_filter, decide_eq_true_eq, Std.ExtTreeMap.mem_iff_contains]
  dsimp only
  rw [sortBy_congr fun a ha b hb => vectorKeyOrder_eq hcmp
    ((hothers a).1 ha).2.2 ((hothers b).1 hb).2.2]
  have hbefore : ∀ other ∈ (Std.ExtTreeSet.ofList (candidates.filter fun candidate =>
      candidate ≠ key ∧ entries.contains candidate) compare).toList, other ≠ nearest →
        (entryKeyOrder ops entries entry.vector other nearest).isLE = true → other ∈ [] := by
    intro other hother hdiffers hle
    obtain ⟨hin, hkey, -⟩ := (hothers other).1 hother
    exact absurd hle (hnearest other hin hkey hdiffers)
  exact mem_take_sortBy nodup_toList ((hothers nearest).2 ⟨hcandidate, hne, hentry⟩) hbefore hm

/-- The keys that an inserted entry is linked to keep their links, and are linked to the entry. -/
theorem LevelLinked.foldl_linkHnswNeighbors (h : LevelLinked graph inserted links)
    {key : String} {m : ℕ} {selected : List String} (hinserted : ∀ a ∈ inserted, a ∈ entries)
    (hkey : key ∈ inserted) (hselected : ∀ a ∈ selected, a ∈ inserted ∧ a ≠ key)
    (hsurvive : ∀ a b, links a b → Survives ops entries m a b) :
    LevelLinked (selected.foldl
      (fun graph neighbor => graph.linkHnswNeighbors ops 0 key neighbor entries m) graph) inserted
        fun a b => links a b ∨ Survives ops entries m a b ∧ a ∈ selected ∧ b = key := by
  induction selected generalizing graph links with
  | nil => exact h.mono fun a b hlink => hlink.resolve_right fun h => List.not_mem_nil h.2.1
  | cons first selected ih =>
    obtain ⟨⟨hfirst, hne⟩, hrest⟩ := List.forall_mem_cons.1 hselected
    rw [List.foldl_cons]
    refine (ih (h.linkHnswNeighbors hcmp hinserted hkey hfirst hne.symm hsurvive) hrest
      fun a b hlink => hlink.elim (hsurvive a b) And.left).mono fun a b hlink => ?_
    rcases hlink with hlink | ⟨hsurvives, ha, rfl⟩
    · exact .inl (.inl hlink)
    · rcases List.mem_cons.1 ha with rfl | ha
      · exact .inl (.inr ⟨hsurvives, rfl, rfl⟩)
      · exact .inr ⟨hsurvives, ha, rfl⟩

/-- What an entry is linked to: a key that can be reached and that nothing inserted comes before. -/
structure NearestTo (ops : F32 S) (entries : EntryMap S) (inserted : List String)
    (links : String → String → Prop) (entryPoint : String) (entry : VectorIndexEntry S)
    (nearest : String) : Prop where
  reached : Relation.ReflTransGen links entryPoint nearest
  other : nearest ≠ vectorEntryKey entry
  first : ∀ a ∈ inserted, a ≠ vectorEntryKey entry → a ≠ nearest →
    ¬ (entryKeyOrder ops entries entry.vector a nearest).isLE = true

/-- The links after an entry was inserted. -/
def linksWith (ops : F32 S) (entries : EntryMap S) (m : ℕ) (inserted : List String)
    (links : String → String → Prop) (entryPoint : String) (entry : VectorIndexEntry S)
    (a b : String) : Prop :=
  links a b ∨ Survives ops entries m a b ∧ NearestTo ops entries inserted links entryPoint entry a ∧
    b = vectorEntryKey entry

omit hcmp in
theorem mForLevel_pos (m level : ℕ) : 0 < mForLevel m level := by
  rw [mForLevel]
  split_ifs <;> omega

/-- An entry is linked at level 0 to the nearest key that can be reached. -/
theorem LevelLinked.linkLevel (h : LevelLinked graph inserted links) {m efConstruction : ℕ}
    {entry : VectorIndexEntry S} {entryPoint : String}
    (hstored : entries[vectorEntryKey entry]? = some entry)
    (hinserted : ∀ a ∈ inserted, a ∈ entries) (hpoint : entryPoint ∈ inserted)
    (hroom : inserted.length ≤ efConstruction)
    (hsurvive : ∀ a b, links a b → Survives ops entries (mForLevel m 0) a b) :
    LevelLinked (TraceDB.linkLevel ops entries m efConstruction entry (graph, entryPoint) 0).1
      (vectorEntryKey entry :: inserted)
      (linksWith ops entries (mForLevel m 0) inserted links entryPoint entry) := by
  have hkey : vectorEntryKey entry ∈ entries := by
    rw [Std.ExtTreeMap.mem_iff_isSome_getElem?, hstored]
    rfl
  set key := vectorEntryKey entry with hkeyeq
  have hall : ∀ a ∈ key :: inserted, a ∈ entries := List.forall_mem_cons.2 ⟨hkey, hinserted⟩
  set visited := layerVisited ops graph entries entry.vector [entryPoint] 0
    (max efConstruction 1) with hvisited
  set candidates := (sortBy (vectorKeyOrder ops entries entry.vector) visited.toList).take
    (max (max efConstruction 1) 1) with hcandidates
  have hmem : ∀ a, a ∈ candidates ↔ a ∈ visited := by
    intro a
    rw [hcandidates, List.take_of_length_le, (sortBy_perm _ _).mem_iff, Std.ExtTreeSet.mem_toList]
    rw [(sortBy_perm _ _).length_eq, Std.ExtTreeSet.length_toList]
    exact (size_layerVisited_le _ _ _).trans (by omega)
  have hfound : ∀ a ∈ candidates, a ∈ inserted := fun a ha =>
    h.layerVisited_inserted hpoint a ((hmem a).1 ha)
  have hgrown : LevelLinked graph (key :: inserted) links :=
    ⟨fun a b hb => (h.known a b hb).imp_left (List.mem_cons_of_mem _), h.nodup, h.linked⟩
  have hstart := hgrown.congr fun a => graph.neighborsAt_addAtLevels 0 key a [0]
  have hselected : ∀ a ∈ selectHnswNeighbors ops key candidates entries (mForLevel m 0),
      a ∈ key :: inserted ∧ a ≠ key := fun a ha =>
    ⟨List.mem_cons_of_mem _ (hfound a (mem_of_mem_selectHnswNeighbors ha).1),
      (mem_of_mem_selectHnswNeighbors ha).2⟩
  have hlinked := hstart.foldl_linkHnswNeighbors hcmp hall List.mem_cons_self hselected hsurvive
  refine hlinked.mono fun a b hlink => hlink.imp_right ?_
  rintro ⟨hsurvives, hnearest, rfl⟩
  have hreached : a ∈ visited :=
    h.mem_layerVisited hinserted hpoint (hroom.trans (le_max_left _ _)) hnearest.reached
  refine ⟨hsurvives, mem_selectHnswNeighbors hcmp hstored (mForLevel_pos m 0) ((hmem a).2 hreached)
    (layerVisited_subset hreached) hnearest.other fun other hother => hnearest.first other
      (hfound other hother), rfl⟩

/-- **An entry that is inserted where there are no levels above 0** is linked to the nearest key
that can be reached, and becomes the entry point when it has levels of its own. -/
theorem LevelLinked.insertHnswEntry (h : LevelLinked graph inserted links) {m efConstruction : ℕ}
    {entry : VectorIndexEntry S} {entryPoint : String} (hgraph : graph.entryPoint = some entryPoint)
    (hflat : graph.maxLevel = 0) (hstored : entries[vectorEntryKey entry]? = some entry)
    (hinserted : ∀ a ∈ inserted, a ∈ entries) (hpoint : entryPoint ∈ inserted)
    (hroom : inserted.length ≤ efConstruction)
    (hsurvive : ∀ a b, links a b → Survives ops entries (mForLevel m 0) a b) :
    LevelLinked (TraceDB.insertHnswEntry ops entries m efConstruction graph entry)
    (vectorEntryKey entry :: inserted)
        (linksWith ops entries (mForLevel m 0) inserted links entryPoint entry) ∧
      (TraceDB.insertHnswEntry ops entries m efConstruction graph entry).maxLevel =
        deterministicHnswLevel entry m ∧
      (TraceDB.insertHnswEntry ops entries m efConstruction graph entry).entryPoint =
        some (if deterministicHnswLevel entry m = 0 then entryPoint else vectorEntryKey entry) := by
  have hlinked := h.linkLevel hcmp hstored hinserted hpoint hroom hsurvive
  obtain ⟨hsame, hlevel⟩ := @HnswFieldGraph.samePoint_linkLevel S ops graph 0 entries m
    efConstruction entry entryPoint
  set linked := (TraceDB.linkLevel ops entries m efConstruction entry (graph, entryPoint) 0).1
    with hlinkedeq
  set nodeLevel := deterministicHnswLevel entry m with hnode
  have hdown : levelsDown (nodeLevel + 1) 0 = [] := by
    rw [levelsDown, List.reverse_eq_nil_iff, List.range'_eq_nil_iff]
    omega
  have hinsert : TraceDB.insertHnswEntry ops entries m efConstruction graph entry =
      if 0 < nodeLevel then
        { linked.addAtLevels (List.range' 1 nodeLevel) (vectorEntryKey entry) with
          entryPoint := some (vectorEntryKey entry)
          maxLevel := nodeLevel }
      else linked := by
    rw [TraceDB.insertHnswEntry, hgraph]
    simp only [hflat, ← hnode, hdown, Nat.zero_min, Nat.zero_add, Nat.sub_zero]
    rfl
  rw [hinsert]
  split_ifs with hpos hzero hzero
  · omega
  · exact ⟨hlinked.congr fun a => linked.neighborsAt_addAtLevels 0 (vectorEntryKey entry) a _, rfl,
      rfl⟩
  · exact ⟨hlinked, hlevel.trans (hflat.trans hzero.symm), hsame.trans hgraph⟩
  · omega

end Order

end TraceDB
