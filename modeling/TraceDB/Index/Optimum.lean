import TraceDB.Data.BestFirstOrder
import TraceDB.Index.Levels

/-!
# Searches of a layer

A search of a layer should end where no neighbor is closer to the query, which is how the descent
gets nearer level by level.  Its visits are bounded by the width of its beam, and the last of them
can be of a key that has closer neighbors.

* `LayerOrder` : the keys of a level in the order in which a search with enough visits takes them.
* `layer_optimum_iff` : a search ends in a local optimum unless its last visit is the best one and
  could be bettered.
* `narrow_search_stops` : with one visit a search stays at its entry point.
-/

namespace TraceDB

variable {S : Type} {ops : F32 S} {graph : HnswFieldGraph} {records : List (VectorIndexEntry S)}
  {field : String} {query : List S} {entryPoints : List String} {level m efConstruction ef : ℕ}

/-- A key is at least as close to the query as another one. -/
def AsClose (ops : F32 S) (entries : EntryMap S) (query : List S) (key other : String) : Prop :=
  (vectorKeyOrder ops entries query key other).isLE = true

instance (entries : EntryMap S) (key other : String) :
    Decidable (AsClose ops entries query key other) :=
  inferInstanceAs (Decidable (_ = true))

/-- The keys of a level in best-first order from some entry points, the last one first. -/
def LayerOrder (ops : F32 S) (graph : HnswFieldGraph) (entries : EntryMap S) (query : List S)
    (entryPoints : List String) (level : ℕ) : List String → Prop :=
  BestFirstOrder (graph.neighborsAt level) (· ∈ entryPoints) (AsClose ops entries query)

/-- What a search of a layer returns first, if it returns a key that is as close to the query as its
neighbors and as the entry points. -/
def FindsOptimum (ops : F32 S) (graph : HnswFieldGraph) (entries : EntryMap S) (query : List S)
    (entryPoints : List String) (level : ℕ) (found : List String) : Prop :=
  ∃ first, found.head? = some first ∧
    (∀ neighbor ∈ graph.neighborsAt level first, AsClose ops entries query first neighbor) ∧
      ∀ entryPoint ∈ entryPoints, AsClose ops entries query first entryPoint

/-- A search may end after some number of visits: if the last one takes a key that is closer than
all before it, then no neighbor of that key is closer. -/
def SettlesAt (ops : F32 S) (graph : HnswFieldGraph) (entries : EntryMap S) (query : List S)
    (entryPoints : List String) (level visits : ℕ) : Prop :=
  ∀ last before, LayerOrder ops graph entries query entryPoints level (last :: before) →
    before.length + 1 = visits →
    (∀ key ∈ before, AsClose ops entries query last key) →
      ∀ neighbor ∈ graph.neighborsAt level last, AsClose ops entries query last neighbor

/-! ### The entries of a graph -/

/-- The nodes of the graph of a field are keys of its entries. -/
theorem mem_fieldEntriesByKey_of_isNode
    (h : (buildHnswGraphs ops records m efConstruction)[field]? = some graph) {key : String}
    (hnode : graph.IsNode level key) : key ∈ fieldEntriesByKey records field := by
  obtain ⟨-, hinserted⟩ := ((grown_buildHnswGraphs h).shape.isNode_iff level key).1 hnode
  obtain ⟨entry, hentry, rfl⟩ := List.mem_map.1 (List.mem_reverse.1 hinserted)
  exact SortedMap.mem_indexBy.2 ⟨entry, (sortBy_perm _ _).mem_iff.1 hentry, rfl⟩

/-- All entries of the field are nodes of level 0. -/
theorem isNode_zero (h : (buildHnswGraphs ops records m efConstruction)[field]? = some graph)
    {key : String} (hkey : key ∈ fieldEntriesByKey records field) : graph.IsNode 0 key := by
  obtain ⟨entry, hentry, rfl⟩ := SortedMap.mem_indexBy.1 hkey
  refine ((grown_buildHnswGraphs h).shape.isNode_iff 0 _).2
    ⟨Nat.zero_le _, List.mem_reverse.2 (List.mem_map_of_mem ?_)⟩
  exact (sortBy_perm _ _).mem_iff.2 hentry

theorem isNode_of_mem_neighborsAt
    (h : (buildHnswGraphs ops records m efConstruction)[field]? = some graph)
    {key neighbor : String} (hneighbor : neighbor ∈ graph.neighborsAt level key) :
      graph.IsNode level neighbor :=
  ((grown_buildHnswGraphs h).shape.isNode_iff level neighbor).2
    ((grown_buildHnswGraphs h).shape.closed level key neighbor hneighbor)

theorem mem_of_canVisit (h : (buildHnswGraphs ops records m efConstruction)[field]? = some graph)
    (hpoints : ∀ key ∈ entryPoints, graph.IsNode level key) (walk : List String) (key : String)
    (hcan : CanVisit (graph.neighborsAt level) (· ∈ entryPoints) walk key) :
      key ∈ fieldEntriesByKey records field := by
  rcases hcan.1 with hpoint | ⟨other, -, hneighbor⟩
  · exact mem_fieldEntriesByKey_of_isNode h (hpoints key hpoint)
  · exact mem_fieldEntriesByKey_of_isNode h (isNode_of_mem_neighborsAt h hneighbor)

/-! ### When a search may end -/

/-- A search may end after one visit if the closest entry point has no closer neighbor. -/
theorem settlesAt_one {entries : EntryMap S} :
    SettlesAt ops graph entries query entryPoints level 1 ↔
      ∀ key ∈ entryPoints, (∀ entryPoint ∈ entryPoints, AsClose ops entries query key entryPoint) →
        ∀ neighbor ∈ graph.neighborsAt level key, AsClose ops entries query key neighbor := by
  have hfirst : ∀ key, CanVisit (graph.neighborsAt level) (· ∈ entryPoints) [] key ↔
      key ∈ entryPoints := by
    intro key
    simp only [CanVisit, List.not_mem_nil, false_and, exists_false, or_false,
      not_false_eq_true, and_true]
  constructor
  · intro hsettles key hkey hclosest
    refine hsettles key [] (.cons .nil ((hfirst key).2 hkey) fun a ha => hclosest a
      ((hfirst a).1 ha)) rfl fun a ha => ?_
    cases ha
  · rintro hclosest last before (_ | ⟨-, hcan, hnear⟩) hone -
    obtain rfl := List.eq_nil_of_length_eq_zero (Nat.succ.inj hone)
    exact hclosest last ((hfirst last).1 hcan) fun entryPoint hpoint => hnear entryPoint
      ((hfirst entryPoint).2 hpoint)

/-- A search may end after it has visited all entries. -/
theorem settlesAt_all (h : (buildHnswGraphs ops records m efConstruction)[field]? = some graph)
    (hpoints : ∀ key ∈ entryPoints, graph.IsNode level key) :
    SettlesAt ops graph (fieldEntriesByKey records field) query entryPoints level
      (fieldEntriesByKey records field).size := by
  intro last before horder hall hclosest neighbor hneighbor
  have hsub : (last :: before).Subperm (fieldEntriesByKey records field).keys :=
    List.subperm_of_subset horder.nodup fun key hkey =>
      Std.ExtTreeMap.mem_keys.2 (horder.forall_mem (mem_of_canVisit h hpoints) key hkey)
  have hentry := mem_fieldEntriesByKey_of_isNode h (isNode_of_mem_neighborsAt h hneighbor)
  have hvisited : neighbor ∈ last :: before := by
    refine (hsub.perm_of_length_le ?_).mem_iff.2 (Std.ExtTreeMap.mem_keys.2 hentry)
    rw [Std.ExtTreeMap.length_keys, List.length_cons, hall]
  rcases List.mem_cons.1 hvisited with rfl | hbefore
  · exact absurd hneighbor ((grown_buildHnswGraphs h).shape.irrefl level neighbor)
  · exact hclosest neighbor hbefore

/-! ### The order of visits -/

section Order

variable [LinearOrder S] (hcmp : ∀ a b : S, ops.partialCmp a b = some (compare a b))

include hcmp

theorem asClose_iff {entries : EntryMap S} {key other : String} (hkey : key ∈ entries)
    (hother : other ∈ entries) :
    AsClose ops entries query key other ↔
      (entryKeyOrder ops entries query key other).isLE = true := by
  rw [AsClose, vectorKeyOrder_eq hcmp hkey hother]

/-- Keys of a field are told apart. -/
theorem asClose_antisymm (a b : String) (ha : a ∈ fieldEntriesByKey records field)
    (hb : b ∈ fieldEntriesByKey records field)
    (hab : AsClose ops (fieldEntriesByKey records field) query a b)
    (hba : AsClose ops (fieldEntriesByKey records field) query b a) : a = b := by
  rw [asClose_iff hcmp ha hb] at hab
  rw [asClose_iff hcmp hb ha] at hba
  exact entryKeyOrder_eq ha hb (Std.OrientedCmp.isLE_antisymm hab hba)

theorem asClose_trans {entries : EntryMap S} (a b c : String) (ha : a ∈ entries) (hb : b ∈ entries)
    (hc : c ∈ entries) (hab : AsClose ops entries query a b) (hbc : AsClose ops entries query b c) :
      AsClose ops entries query a c := by
  rw [asClose_iff hcmp ha hb] at hab
  rw [asClose_iff hcmp hb hc] at hbc
  exact (asClose_iff hcmp ha hc).2 (Std.TransCmp.isLE_trans hab hbc)

/-- The first key of a sorted list of entries is as close as all of them. -/
theorem asClose_head {entries : EntryMap S} {keys : List String}
    (hkeys : ∀ key ∈ keys, key ∈ entries) {first : String}
    (h : (sortBy (vectorKeyOrder ops entries query) keys).head? = some first) :
    first ∈ keys ∧ ∀ key ∈ keys, AsClose ops entries query first key := by
  have hperm := sortBy_perm (vectorKeyOrder ops entries query) keys
  have hfirst : first ∈ keys := hperm.mem_iff.1 (List.mem_of_head? h)
  have hsorted : (sortBy (vectorKeyOrder ops entries query) keys).Pairwise
      fun a b => (entryKeyOrder ops entries query a b).isLE = true := by
    rw [sortBy_congr fun a ha b hb => vectorKeyOrder_eq hcmp (hkeys a ha) (hkeys b hb)]
    exact pairwise_sortBy keys
  refine ⟨hfirst, fun key hkey => (asClose_iff hcmp (hkeys first hfirst) (hkeys key hkey)).2 ?_⟩
  obtain ⟨rest, hrest⟩ := List.head?_eq_some_iff.1 h
  have hmem := hperm.mem_iff.2 hkey
  rw [hrest] at hsorted hmem
  rcases List.mem_cons.1 hmem with rfl | hlater
  · have hself : entryKeyOrder ops entries query key key = .eq := Std.ReflCmp.compare_self
    rw [hself]
    rfl
  · exact (List.pairwise_cons.1 hsorted).1 key hlater

/-- **A search visits the keys of a level in best-first order**, up to the width of its beam. -/
theorem layerVisited_order
    (hgraph : (buildHnswGraphs ops records m efConstruction)[field]? = some graph)
    (hpoints : ∀ key ∈ entryPoints, graph.IsNode level key) (query : List S) (ef : ℕ) :
    ∃ walk, LayerOrder ops graph (fieldEntriesByKey records field) query entryPoints level walk ∧
      (∀ key, key ∈ layerVisited ops graph (fieldEntriesByKey records field)
        query entryPoints level ef ↔
        key ∈ walk) ∧
      walk.length ≤ max (min (max ef 1) (fieldEntriesByKey records field).size) 1 ∧
      (walk.length = max (min (max ef 1) (fieldEntriesByKey records field).size) 1 ∨
        ∀ key, ¬ CanVisit (graph.neighborsAt level) (· ∈ entryPoints) walk key) := by
  set entries := fieldEntriesByKey records field with hentries
  have hpoint : ∀ key ∈ entryPoints, key ∈ entries := fun key hkey =>
    mem_fieldEntriesByKey_of_isNode hgraph (hpoints key hkey)
  have hneighbor : ∀ key, ∀ neighbor ∈ graph.neighborsAt level key, neighbor ∈ entries :=
    fun key neighbor h =>
    mem_fieldEntriesByKey_of_isNode hgraph (isNode_of_mem_neighborsAt hgraph h)
  have hnext : (fun key => (graph.neighborsAt level key).filter fun neighbor =>
      entries.contains neighbor) =
      graph.neighborsAt level := by
    funext key
    exact List.filter_eq_self.2 fun neighbor h => Std.ExtTreeMap.mem_iff_contains.1
      (hneighbor key neighbor h)
  have hstart : entryPoints.filter (fun key => entries.contains key) = entryPoints :=
    List.filter_eq_self.2 fun key h => Std.ExtTreeMap.mem_iff_contains.1 (hpoint key h)
  rw [layerVisited, hnext, hstart]
  refine bestFirst_order (fun _ _ h => (bestEntryKey_mem h).1) (fun frontier hnone hseen key => ?_)
    (fun frontier key hbest hseen other hother => ?_) (fun key => ?_) le_rfl
  · intro hkey
    rcases hseen key hkey with h | ⟨other, h⟩
    · exact bestEntryKey_eq_none hnone key hkey (hpoint key h)
    · exact bestEntryKey_eq_none hnone key hkey (hneighbor other key h)
  · rcases hseen other hother with h | ⟨before, h⟩
    · exact bestEntryKey_isLE hcmp hbest hother (hpoint other h)
    · exact bestEntryKey_isLE hcmp hbest hother (hneighbor before other h)
  · rw [Std.ExtTreeSet.mem_ofList, List.contains_iff_mem]

/-! ### Local optima -/

/-- **A search of a layer ends in a local optimum** if and only if this holds of the key that uses
up the visits, should it be closer than all before it. -/
theorem layer_optimum_iff
    (hgraph : (buildHnswGraphs ops records m efConstruction)[field]? = some graph) (query : List S)
    (hne : entryPoints ≠ []) (hpoints : ∀ key ∈ entryPoints, graph.IsNode level key) (hef : 1 ≤ ef)
    (visited : Std.ExtTreeSet String compare) :
    FindsOptimum ops graph (fieldEntriesByKey records field) query entryPoints level
        (graph.hnswSearchLayer ops (fieldEntriesByKey records field) query
          entryPoints level ef visited).1 ↔
      SettlesAt ops graph (fieldEntriesByKey records field) query entryPoints level
        (min ef (fieldEntriesByKey records field).size) := by
  obtain ⟨walk, horder, hvisited, hlength, hends⟩ := layerVisited_order hcmp hgraph hpoints query ef
  set entries := fieldEntriesByKey records field with hentries
  have hQ := mem_of_canVisit hgraph hpoints
  obtain ⟨point, hpoint⟩ := List.exists_mem_of_ne_nil entryPoints hne
  have hsize : 0 < entries.size :=
    size_pos_of_mem (mem_fieldEntriesByKey_of_isNode hgraph (hpoints point hpoint))
  have hmax : max (min (max ef 1) entries.size) 1 = min ef entries.size := by omega
  rw [hmax] at hlength hends
  -- The search visits a key, and returns the closest one first.
  have hsome : ∃ key, key ∈ walk := by
    refine List.exists_mem_of_ne_nil walk fun hnil => ?_
    rcases hends with hfull | hnothing
    · rw [hnil, List.length_nil] at hfull
      omega
    · exact hnothing point ⟨.inl hpoint, hnil ▸ List.not_mem_nil⟩
  obtain ⟨key, hkey⟩ := hsome
  set keys := (layerVisited ops graph entries query entryPoints level ef).toList with hkeys
  have hwalk : ∀ key, key ∈ keys ↔ key ∈ walk :=
    fun key => Std.ExtTreeSet.mem_toList.trans (hvisited key)
  obtain ⟨first, hfirst⟩ : ∃ first,
      (sortBy (vectorKeyOrder ops entries query) keys).head? = some first := by
    have hin := (sortBy_perm (vectorKeyOrder ops entries query) keys).mem_iff.2 ((hwalk key).2 hkey)
    exact ⟨_, List.head?_eq_some_head (List.ne_nil_of_mem hin)⟩
  obtain ⟨hmem, hclosest⟩ :=
    asClose_head hcmp (fun key hkey => horder.forall_mem hQ key ((hwalk key).1 hkey)) hfirst
  have hnearest : ∀ key ∈ walk, AsClose ops entries query first key :=
    fun key hkey => hclosest key ((hwalk key).2 hkey)
  have hfound : (graph.hnswSearchLayer ops entries query entryPoints level ef visited).1.head? =
      some first := by
    rw [hnswSearchLayer_eq, List.head?_take, if_neg (by omega), hfirst]
  have hpointed : ∀ entryPoint ∈ entryPoints, AsClose ops entries query first entryPoint :=
    fun entryPoint h =>
    horder.near_start hQ (asClose_trans hcmp) ((hwalk first).1 hmem) hnearest h
  have hoptimum : FindsOptimum ops graph entries query entryPoints level
      (graph.hnswSearchLayer ops entries query entryPoints level ef visited).1 ↔
        ∀ neighbor ∈ graph.neighborsAt level first, AsClose ops entries query first neighbor := by
    rw [FindsOptimum, hfound]
    constructor
    · rintro ⟨_, hsame, hnext, -⟩
      rwa [Option.some.inj hsame]
    · exact fun hnext => ⟨first, rfl, hnext, hpointed⟩
  rw [hoptimum]
  exact bestFirst_nearest_iff hQ (asClose_antisymm hcmp) (asClose_trans hcmp) horder hlength hends
    ((hwalk first).1 hmem) hnearest

end Order

/-! ### One visit -/

/-- An entry in one direction. -/
def alongEntry : VectorIndexEntry ℚ := ⟨"a", 1, "v", [1, 0]⟩

/-- An entry in another direction. -/
def acrossEntry : VectorIndexEntry ℚ := ⟨"b", 1, "v", [0, 1]⟩

/-- Both entries by their keys. -/
def crossMap : EntryMap ℚ := fieldEntriesByKey [alongEntry, acrossEntry] "v"

/-- The graph of both entries. -/
def crossGraph : HnswFieldGraph :=
  [alongEntry, acrossEntry].foldl (insertHnswEntry .rational crossMap 16 64) .empty

theorem buildHnswGraphs_cross :
    (buildHnswGraphs .rational [alongEntry, acrossEntry] 16 64)["v"]? = some crossGraph := by
  have hfilter : [alongEntry, acrossEntry].filter (fun entry => entry.field = "v") =
      [alongEntry, acrossEntry] := rfl
  have hsorted : sortBy fieldEntryOrder [alongEntry, acrossEntry] = [alongEntry, acrossEntry] :=
    List.mergeSort_of_pairwise (by decide +kernel)
  rw [getElem?_buildHnswGraphs, hfilter]
  dsimp only
  rw [if_neg (List.cons_ne_nil _ _), hsorted]
  rfl

theorem mem_crossMap {key : String} :
    key ∈ crossMap ↔ key = vectorEntryKey alongEntry ∨ key = vectorEntryKey acrossEntry := by
  have hfilter : [alongEntry, acrossEntry].filter (fun entry => entry.field = "v") =
      [alongEntry, acrossEntry] := rfl
  rw [crossMap, fieldEntriesByKey, hfilter, SortedMap.mem_indexBy]
  simp only [List.mem_cons, List.not_mem_nil, or_false, exists_eq_or_imp, exists_eq_left, eq_comm]

/-- The entries are neighbors. -/
theorem across_mem_neighborsAt :
    vectorEntryKey acrossEntry ∈ crossGraph.neighborsAt 0 (vectorEntryKey alongEntry) := by
  obtain ⟨hfirst, hlevel, hpoint⟩ :=
    @levelLinked_insert_first _ F32.rational crossMap 16 64 alongEntry
  have hflat : deterministicHnswLevel alongEntry 16 = 0 := by decide +kernel
  have hstored : crossMap[vectorEntryKey acrossEntry]? = some acrossEntry := by rfl
  have hknown : ∀ key ∈ [vectorEntryKey alongEntry], key ∈ crossMap :=
    fun key hkey => mem_crossMap.2 (.inl (List.mem_singleton.1 hkey))
  obtain ⟨hlinked, -⟩ := hfirst.insertHnswEntry F32.rational_partialCmp hpoint
    (hlevel.trans hflat) hstored hknown
    List.mem_cons_self (show 1 ≤ 64 by decide) fun a b hlink => hlink.elim
  refine hlinked.linked _ _
    (.inr ⟨fun entry _ => ⟨[], by decide, fun other hother hne hne' _ => ?_⟩,
      ⟨.refl, by decide, fun key hkey _ hne => ?_⟩, rfl⟩)
  · exact absurd (mem_crossMap.1 hother) (not_or.2 ⟨hne, hne'⟩)
  · exact absurd (List.mem_singleton.1 hkey) hne

/-- **With one visit a search stays at its entry point**, and passes over a neighbor with the vector
of the query. -/
theorem narrow_search_stops :
    ∃ graph, (buildHnswGraphs .rational [alongEntry, acrossEntry] 16 64)["v"]? = some graph ∧
      graph.IsNode 0 (vectorEntryKey alongEntry) ∧
      ¬ FindsOptimum .rational graph (fieldEntriesByKey [alongEntry, acrossEntry] "v") [0, 1]
        [vectorEntryKey alongEntry] 0
        (graph.hnswSearchLayer .rational (fieldEntriesByKey [alongEntry, acrossEntry] "v") [0, 1]
          [vectorEntryKey alongEntry] 0 1 ∅).1 := by
  refine ⟨crossGraph, buildHnswGraphs_cross, ?_, ?_⟩
  · exact isNode_zero buildHnswGraphs_cross (mem_crossMap.2 (.inl rfl))
  · rintro ⟨first, hfirst, hnext, -⟩
    rw [hnswSearchLayer_eq] at hfirst
    have hvisited := (sortBy_perm _ _).mem_iff.1 (List.mem_of_mem_take (List.mem_of_head? hfirst))
    have hstays := (mem_layerVisited_one (mem_crossMap.2 (.inl rfl)) 0).1
      (Std.ExtTreeSet.mem_toList.1 hvisited)
    rw [hstays] at hnext
    exact absurd (hnext _ across_mem_neighborsAt) (by decide +kernel)

theorem layer_optimum_cross :
    FindsOptimum .rational crossGraph (fieldEntriesByKey [alongEntry, acrossEntry] "v") [0, 1]
      [vectorEntryKey alongEntry] 0
      (crossGraph.hnswSearchLayer .rational (fieldEntriesByKey [alongEntry, acrossEntry] "v") [0, 1]
        [vectorEntryKey alongEntry] 0 2 ∅).1 := by
  have hpoints : ∀ key ∈ [vectorEntryKey alongEntry], crossGraph.IsNode 0 key := by
    intro key hkey
    rw [List.mem_singleton.1 hkey]
    exact isNode_zero buildHnswGraphs_cross (mem_crossMap.2 (.inl rfl))
  have hsize : min 2 (fieldEntriesByKey [alongEntry, acrossEntry] "v").size =
      (fieldEntriesByKey [alongEntry, acrossEntry] "v").size := rfl
  have hoptimum := layer_optimum_iff F32.rational_partialCmp buildHnswGraphs_cross [0, 1]
    (List.cons_ne_nil _ _) hpoints
    (show 1 ≤ 2 by decide) ∅
  rw [hsize] at hoptimum
  exact hoptimum.2 (settlesAt_all buildHnswGraphs_cross hpoints)

end TraceDB
