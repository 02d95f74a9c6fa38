import TraceDB.Index.Graph

/-!
# An entry point that is overlooked

65 versions of a record with vectors in two directions, and the last one opposite to the first
direction. Only the last one has a level above 0, so it becomes the entry point.

* `cluster_levelLinked` : the versions are linked around the first of each direction.
* `overlooked_entryPoint` : a search for the last version alone finds nothing.
-/

namespace TraceDB

/-! ### The entries -/

/-- 32 vectors in each of two directions, and one more. -/
def clusterVector (k : ℕ) : List ℚ :=
  if k < 32 then [1, 0] else if k < 64 then [0, 1] else [-1, 0]

/-- A version of the record. -/
def clusterEntry (k : ℕ) : VectorIndexEntry ℚ := ⟨"e", 115 + 11 * k, "v", clusterVector k⟩

/-- The key of a version. -/
def clusterKey (k : ℕ) : String := vectorEntryKey (clusterEntry k)

/-- The entries by their keys. -/
def clusterMap : EntryMap ℚ := SortedMap.indexBy vectorEntryKey ((List.range 65).map clusterEntry)

/-- The record of a version. -/
def clusterRecord (k : ℕ) : IndexRecord ℚ where
  table := "docs"
  recordId := "e"
  tenantId := "t"
  versionId := 115 + 11 * k
  fields := ∅
  text := ∅
  vectors := (∅ : Std.ExtTreeMap String (List ℚ) compare).insert "v" (clusterVector k)

/-- The records of a segment with all versions. -/
def clusterRecords : List (IndexRecord ℚ) := (List.range 65).map clusterRecord

theorem clusterKey_inj {j k : ℕ} (h : clusterKey j = clusterKey k) : j = k := by
  have hfield : (clusterEntry j).field = (clusterEntry k).field := rfl
  have hversion := (vectorEntryKey_inj hfield h).2
  simp only [clusterEntry] at hversion
  omega

theorem getElem?_clusterMap {k : ℕ} (hk : k < 65) :
    clusterMap[clusterKey k]? = some (clusterEntry k) := by
  rw [clusterMap, SortedMap.getElem?_indexBy]
  cases hlast : ((List.range 65).map clusterEntry).findLast? fun entry => vectorEntryKey entry =
    clusterKey k with
  | none =>
    have hnone := List.findLast?_eq_none.1 hlast (clusterEntry k)
      (List.mem_map_of_mem (List.mem_range.2 hk))
    exact absurd (decide_eq_true rfl) hnone
  | some entry =>
    obtain ⟨j, -, rfl⟩ := List.mem_map.1 (List.mem_of_findLast? hlast)
    have hkey : vectorEntryKey (clusterEntry j) = clusterKey k :=
      by simpa using List.prop_of_findLast? hlast
    rw [clusterKey_inj hkey]

theorem mem_clusterMap {key : String} : key ∈ clusterMap ↔ ∃ k < 65, key = clusterKey k := by
  rw [clusterMap, SortedMap.mem_indexBy]
  constructor
  · rintro ⟨entry, hentry, rfl⟩
    obtain ⟨k, hk, rfl⟩ := List.mem_map.1 hentry
    exact ⟨k, List.mem_range.1 hk, rfl⟩
  · rintro ⟨k, hk, rfl⟩
    exact ⟨clusterEntry k, List.mem_map_of_mem (List.mem_range.2 hk), rfl⟩

theorem keys_clusterMap_perm : clusterMap.keys.Perm ((List.range 65).map clusterKey) := by
  refine (List.perm_ext_iff_of_nodup Std.ExtTreeMap.nodup_keys
    (List.nodup_range.map fun j k => clusterKey_inj)).2 fun key => ?_
  rw [Std.ExtTreeMap.mem_keys, mem_clusterMap, List.mem_map]
  constructor
  · rintro ⟨k, hk, rfl⟩
    exact ⟨k, List.mem_range.2 hk, rfl⟩
  · rintro ⟨k, hk, rfl⟩
    exact ⟨k, List.mem_range.1 hk, rfl⟩

theorem size_clusterMap : clusterMap.size = 65 := by
  rw [← Std.ExtTreeMap.length_keys, keys_clusterMap_perm.length_eq, List.length_map,
    List.length_range]

theorem clusterKey_first : ∀ k < 65, ¬ clusterKey k < clusterKey 0 := by decide +kernel

theorem head?_clusterMap : clusterMap.keys.head? = some (clusterKey 0) := by
  have hmem : clusterKey 0 ∈ clusterMap.keys :=
    Std.ExtTreeMap.mem_keys.2 (mem_clusterMap.2 ⟨0, by omega, rfl⟩)
  have hsorted := Std.ExtTreeMap.ordered_keys (t := clusterMap)
  cases hkeys : clusterMap.keys with
  | nil =>
    rw [hkeys] at hmem
    cases hmem
  | cons key keys =>
    rw [hkeys] at hmem hsorted
    rcases List.mem_cons.1 hmem with rfl | htail
    · rfl
    · have hlt := compare_lt_iff_lt.1 ((List.pairwise_cons.1 hsorted).1 _ htail)
      have hkey : key ∈ clusterMap := Std.ExtTreeMap.mem_keys.1 (hkeys ▸ List.mem_cons_self)
      obtain ⟨k, hk, rfl⟩ := mem_clusterMap.1 hkey
      exact absurd hlt (clusterKey_first k hk)

/-! ### Similarities -/

/-- How similar two versions are. -/
def clusterSimilarity (j k : ℕ) : ℚ :=
  if j < 32 then (if k < 32 then 1 else if k < 64 then 0 else -1)
  else if j < 64 then (if k < 32 then 0 else if k < 64 then 1 else 0)
  else (if k < 32 then -1 else if k < 64 then 0 else 1)

theorem cosineSimilarity_cluster (j k : ℕ) :
    F32.rational.cosineSimilarity (clusterVector j) (clusterVector k) =
      some (clusterSimilarity j k) := by
  unfold clusterVector clusterSimilarity
  split_ifs <;> decide +kernel

/-- The more similar version comes first, and then the older one. -/
theorem entryKeyOrder_cluster {i j k : ℕ} (hj : j < 65) (hk : k < 65) :
    entryKeyOrder F32.rational clusterMap (clusterVector i) (clusterKey j) (clusterKey k) =
      (compare (clusterSimilarity i k) (clusterSimilarity i j)).then (compare j k) := by
  have hversions : compare (115 + 11 * j) (115 + 11 * k) = compare j k := by
    rcases lt_trichotomy j k with h | rfl | h
    · rw [compare_lt_iff_lt.2 h, compare_lt_iff_lt.2 (by omega)]
    · rw [compare_eq_iff_eq.2 rfl, compare_eq_iff_eq.2 rfl]
    · rw [compare_gt_iff_gt.2 h, compare_gt_iff_gt.2 (by omega)]
  have hids : compare "e" "e" = .eq := compare_eq_iff_eq.2 rfl
  simp only [entryKeyOrder, compareLex, compareOn, keyScore, getElem?_clusterMap hj,
    getElem?_clusterMap hk, Option.bind_some, Option.map_some, clusterEntry,
    cosineSimilarity_cluster, Option.getD_some]
  rw [show compare (some "e") (some "e") = .eq from hids, Ordering.eq_then, ← hversions]
  rfl

theorem isLE_cluster {i j k : ℕ} (hj : j < 65) (hk : k < 65)
    (h : (entryKeyOrder F32.rational clusterMap (clusterVector i) (clusterKey j)
      (clusterKey k)).isLE = true) :
    clusterSimilarity i k < clusterSimilarity i j ∨
    clusterSimilarity i k = clusterSimilarity i j ∧ j ≤ k := by
  rw [entryKeyOrder_cluster hj hk] at h
  rcases lt_trichotomy (clusterSimilarity i k) (clusterSimilarity i j) with hlt | heq | hgt
  · exact .inl hlt
  · rw [compare_eq_iff_eq.2 heq, Ordering.eq_then] at h
    exact .inr ⟨heq, compare_le_iff_le.1 (Ordering.isLE_iff_ne_gt.1 h)⟩
  · rw [compare_gt_iff_gt.2 hgt] at h
    cases h

/-- The first version of its direction that a version is linked to. -/
def clusterHub (k : ℕ) : ℕ := if k ≤ 32 then 0 else 32

/-- The hub is the nearest of the older versions. -/
theorem clusterHub_first {j k : ℕ} (hk : 0 < k) (hk' : k < 64) (hj : j < k)
    (hne : j ≠ clusterHub k) :
    ¬ (clusterSimilarity k (clusterHub k) < clusterSimilarity k j ∨
      clusterSimilarity k (clusterHub k) = clusterSimilarity k j ∧ j ≤ clusterHub k) := by
  unfold clusterHub at hne ⊢
  unfold clusterSimilarity
  rintro (h | ⟨h, hle⟩)
  · split_ifs at hne h <;> first | omega | exact absurd h (by decide)
  · split_ifs at hne h hle <;> first | omega | exact absurd h (by decide)

/-- Only the versions between a hub and another come before that one. -/
theorem between_clusterHub {j k : ℕ} (hk : 0 < k) (hk' : k < 64) (hj : j ≠ clusterHub k)
    (h : clusterSimilarity (clusterHub k) k < clusterSimilarity (clusterHub k) j ∨
      clusterSimilarity (clusterHub k) k = clusterSimilarity (clusterHub k) j ∧ j ≤ k) (hne :
        j ≠ k) :
    clusterHub k < j ∧ j < k := by
  unfold clusterHub at hj h ⊢
  unfold clusterSimilarity at h
  rcases h with h | ⟨h, hle⟩
  · split_ifs at hj h ⊢ <;> first | omega | exact absurd h (by decide)
  · split_ifs at hj h ⊢ <;> first | omega | exact absurd h (by decide)

/-! ### The graph -/

/-- The keys of the first versions, the newest first. -/
def clusterKeys (n : ℕ) : List String := ((List.range n).map clusterKey).reverse

theorem mem_clusterKeys {n : ℕ} {key : String} :
    key ∈ clusterKeys n ↔ ∃ k < n, key = clusterKey k := by
  rw [clusterKeys, List.mem_reverse, List.mem_map]
  constructor
  · rintro ⟨k, hk, rfl⟩
    exact ⟨k, List.mem_range.1 hk, rfl⟩
  · rintro ⟨k, hk, rfl⟩
    exact ⟨k, List.mem_range.2 hk, rfl⟩

theorem clusterKeys_succ (n : ℕ) : clusterKeys (n + 1) = clusterKey n :: clusterKeys n := by
  rw [clusterKeys, List.range_succ, List.map_append, List.reverse_append, clusterKeys]
  rfl

/-- The hubs are linked to their versions. -/
def clusterLinks (n : ℕ) (a b : String) : Prop :=
  ∃ k, 0 < k ∧ k < n ∧ a = clusterKey (clusterHub k) ∧ b = clusterKey k

/-- The graph of the first versions. -/
def clusterGraph (n : ℕ) : HnswFieldGraph :=
  ((List.range n).map clusterEntry).foldl
    (insertHnswEntry F32.rational clusterMap defaultHnswM defaultHnswEfConstruction) .empty

theorem clusterGraph_succ (n : ℕ) : clusterGraph (n + 1) =
    insertHnswEntry F32.rational clusterMap defaultHnswM defaultHnswEfConstruction (clusterGraph n)
      (clusterEntry n) := by
  rw [clusterGraph, List.range_succ, List.map_append, List.foldl_append, clusterGraph]
  rfl

theorem clusterHub_lt {k : ℕ} (hk : 0 < k) : clusterHub k < k := by
  unfold clusterHub
  split_ifs <;> omega

/-- The link from a hub is not pruned: fewer than 32 versions come before the linked one. -/
theorem survives_clusterHub {k : ℕ} (hk : 0 < k) (hk' : k < 64) :
    Survives F32.rational clusterMap (mForLevel defaultHnswM 0) (clusterKey (clusterHub k))
    (clusterKey k) := by
  have hhub := clusterHub_lt hk
  intro entry hentry
  rw [getElem?_clusterMap (by omega)] at hentry
  obtain rfl := Option.some.inj hentry
  refine ⟨(List.range' (clusterHub k + 1) (k - clusterHub k - 1)).map clusterKey, ?_,
    fun other hother hne hne' hle => ?_⟩
  · have hm : mForLevel defaultHnswM 0 = 32 := by decide
    rw [List.length_map, List.length_range', hm]
    unfold clusterHub
    split_ifs <;> omega
  · obtain ⟨j, hj, rfl⟩ := mem_clusterMap.1 hother
    have hbetween := between_clusterHub hk hk' (fun h => hne (h ▸ rfl))
      (isLE_cluster hj (by omega) hle)
      fun h => hne' (h ▸ rfl)
    exact List.mem_map_of_mem (List.mem_range'_1.2 (by omega))

/-- The hub is the nearest version that can be reached when a version is inserted. -/
theorem nearest_clusterHub {k : ℕ} (hk : 0 < k) (hk' : k < 64) :
    NearestTo F32.rational clusterMap (clusterKeys k) (clusterLinks k)
    (clusterKey 0) (clusterEntry k)
      (clusterKey (clusterHub k)) where
  reached := by
    by_cases hfar : k ≤ 32
    · rw [show clusterHub k = 0 from if_pos hfar]
    · rw [show clusterHub k = 32 from if_neg hfar]
      exact .single ⟨32, by omega, by omega, rfl, rfl⟩
  other h := (clusterHub_lt hk).ne (clusterKey_inj h)
  first a ha _ hne hle := by
    obtain ⟨j, hj, rfl⟩ := mem_clusterKeys.1 ha
    have hhub := clusterHub_lt hk
    exact clusterHub_first hk hk' hj (fun h => hne (h ▸ rfl))
      (isLE_cluster (by omega) (by omega) hle)

/-- The last version is the only one with a level above 0. -/
theorem deterministicHnswLevel_cluster :
    ∀ k < 65, deterministicHnswLevel (clusterEntry k) defaultHnswM = if k < 64 then 0 else 1 := by
  decide +kernel

/-- What inserting the next version does. -/
theorem clusterGraph_insert {n : ℕ} (hn : 0 < n) (hn' : n ≤ 64)
    (h : LevelLinked (clusterGraph n) (clusterKeys n) (clusterLinks n))
    (hflat : (clusterGraph n).maxLevel = 0)
    (hpoint : (clusterGraph n).entryPoint = some (clusterKey 0)) :
    LevelLinked (clusterGraph (n + 1)) (clusterKeys (n + 1))
        (linksWith F32.rational clusterMap (mForLevel defaultHnswM 0) (clusterKeys n)
          (clusterLinks n) (clusterKey 0) (clusterEntry n)) ∧
      (clusterGraph (n + 1)).maxLevel = deterministicHnswLevel (clusterEntry n) defaultHnswM ∧
      (clusterGraph (n + 1)).entryPoint =
        some (if deterministicHnswLevel (clusterEntry n) defaultHnswM = 0
          then clusterKey 0 else clusterKey n) := by
  rw [clusterGraph_succ, clusterKeys_succ]
  refine h.insertHnswEntry F32.rational_partialCmp hpoint hflat (getElem?_clusterMap (by omega))
    (fun a ha => ?_) (mem_clusterKeys.2 ⟨0, hn, rfl⟩) ?_ fun a b hlink => ?_
  · obtain ⟨k, hk, rfl⟩ := mem_clusterKeys.1 ha
    exact mem_clusterMap.2 ⟨k, by omega, rfl⟩
  · rw [clusterKeys, List.length_reverse, List.length_map, List.length_range]
    exact hn'
  · obtain ⟨k, hk, hkn, rfl, rfl⟩ := hlink
    exact survives_clusterHub hk (by omega)

/-- **The versions are linked around the first of each direction**, as long as they have no levels
above 0. -/
theorem cluster_levelLinked {n : ℕ} (hn : 0 < n) (hn' : n ≤ 64) :
    LevelLinked (clusterGraph n) (clusterKeys n) (clusterLinks n) ∧ (clusterGraph n).maxLevel = 0 ∧
      (clusterGraph n).entryPoint = some (clusterKey 0) := by
  induction n, hn using Nat.le_induction with
  | base =>
    obtain ⟨hlinked, hlevel, hpoint⟩ :=
      @levelLinked_insert_first _ F32.rational clusterMap defaultHnswM
      defaultHnswEfConstruction (clusterEntry 0)
    rw [clusterGraph_succ]
    refine ⟨hlinked.mono fun a b hlink => ?_,
      hlevel.trans (deterministicHnswLevel_cluster 0 (by omega)), hpoint⟩
    obtain ⟨k, hk, hk', -⟩ := hlink
    omega
  | succ n hn ih =>
    obtain ⟨hlinked, hflat, hpoint⟩ := ih (by omega)
    obtain ⟨hnext, hlevel, hentry⟩ := clusterGraph_insert hn (by omega) hlinked hflat hpoint
    have hold : n < 64 := by omega
    rw [deterministicHnswLevel_cluster n (by omega), if_pos hold] at hlevel hentry
    refine ⟨hnext.mono fun a b hlink => ?_, hlevel, hentry⟩
    obtain ⟨k, hk, hkn, rfl, rfl⟩ := hlink
    rcases Nat.lt_succ_iff_lt_or_eq.1 hkn with hlt | rfl
    · exact .inl ⟨k, hk, hlt, rfl, rfl⟩
    · exact .inr ⟨survives_clusterHub hk (by omega), nearest_clusterHub hk (by omega), rfl⟩

/-- The last version is the entry point, and the links from the hubs are still there. -/
theorem clusterGraph_last : LevelLinked (clusterGraph 65) (clusterKeys 65) (clusterLinks 64) ∧
    (clusterGraph 65).maxLevel = 1 ∧ (clusterGraph 65).entryPoint = some (clusterKey 64) := by
  obtain ⟨hlinked, hflat, hpoint⟩ := cluster_levelLinked (n := 64) (by omega) le_rfl
  obtain ⟨hnext, hlevel, hentry⟩ := clusterGraph_insert (by omega) le_rfl hlinked hflat hpoint
  rw [deterministicHnswLevel_cluster 64 (by omega)] at hlevel hentry
  exact ⟨hnext.mono fun a b => .inl, hlevel, hentry⟩

/-! ### The search -/

theorem vectorEntries_cluster : clusterRecords.flatMap IndexRecord.vectorEntries =
    (List.range 65).map clusterEntry := by
  rw [clusterRecords, List.flatMap_map, List.map_eq_flatMap]
  rfl

theorem sorted_cluster {order : VectorIndexEntry ℚ → VectorIndexEntry ℚ → Ordering}
    (horder : ∀ j k, order (clusterEntry j) (clusterEntry k) = compare
      (115 + 11 * j) (115 + 11 * k)) :
    sortBy order ((List.range 65).map clusterEntry) = (List.range 65).map clusterEntry := by
  refine List.mergeSort_of_pairwise
    (List.pairwise_map.2 (List.pairwise_lt_range.imp fun {j k} hjk => ?_))
  rw [horder, compare_lt_iff_lt.2 (by omega)]
  rfl

theorem filter_cluster :
    (((List.range 65).map clusterEntry).filter fun entry => entry.field = "v") =
    (List.range 65).map clusterEntry := by
  refine List.filter_eq_self.2 fun entry hentry => ?_
  obtain ⟨k, -, rfl⟩ := List.mem_map.1 hentry
  exact decide_eq_true rfl

/-- The index of the segment. -/
def clusterIndex :
    VectorIndexArtifact ℚ := buildVectorIndex F32.rational "s1" 1 2 Digest.zero clusterRecords

theorem entries_clusterIndex : clusterIndex.entries = (List.range 65).map clusterEntry := by
  rw [clusterIndex, buildVectorIndex, vectorEntries_cluster]
  refine sorted_cluster fun j k => ?_
  have hfield : compare "v" "v" = .eq := compare_eq_iff_eq.2 rfl
  have hid : compare "e" "e" = .eq := compare_eq_iff_eq.2 rfl
  simp only [entryOrder, fieldEntryOrder, compareLex, compareOn, clusterEntry, hfield, hid,
    Ordering.eq_then]

theorem fieldEntriesByKey_clusterIndex :
    fieldEntriesByKey clusterIndex.entries "v" = clusterMap := by
  rw [entries_clusterIndex, fieldEntriesByKey, filter_cluster]
  rfl

theorem hnsw_clusterIndex : clusterIndex.hnsw["v"]? = some (clusterGraph 65) := by
  have hhnsw : clusterIndex.hnsw =
      buildHnswGraphs F32.rational clusterIndex.entries defaultHnswM defaultHnswEfConstruction :=
        rfl
  have hsorted : sortBy fieldEntryOrder ((List.range 65).map clusterEntry) =
      (List.range 65).map clusterEntry := by
    refine sorted_cluster fun j k => ?_
    have hid : compare "e" "e" = .eq := compare_eq_iff_eq.2 rfl
    simp only [fieldEntryOrder, compareLex, compareOn, clusterEntry, hid, Ordering.eq_then]
  have hsome : ¬ (List.range 65).map clusterEntry = [] := by
    rw [List.map_eq_nil_iff]
    decide
  rw [hhnsw, entries_clusterIndex, getElem?_buildHnswGraphs, filter_cluster]
  dsimp only
  rw [if_neg hsome, hsorted]
  rfl

/-- Every version but the last one comes before the last one, and is reached from the first. -/
theorem leavesOut_cluster :
    LeavesOut F32.rational (clusterGraph 65) clusterMap (clusterVector 0) (clusterKey 64) where
  last key hkey hne := by
    obtain ⟨k, hk, rfl⟩ := mem_clusterMap.1 hkey
    have hlt : k < 64 := by
      have hne' : k ≠ 64 := fun h => hne (h ▸ rfl)
      omega
    rw [vectorKeyOrder_eq F32.rational_partialCmp hkey (mem_clusterMap.2 ⟨64, by omega, rfl⟩),
      entryKeyOrder_cluster hk (by omega)]
    have hless : clusterSimilarity 0 64 < clusterSimilarity 0 k := by
      unfold clusterSimilarity
      split_ifs <;> first | omega | decide
    rw [compare_lt_iff_lt.2 hless]
    rfl
  around key hkey hne := by
    obtain ⟨k, hk, rfl⟩ := mem_clusterMap.1 hkey
    refine ⟨clusterKey 0, head?_clusterMap, ?_⟩
    -- A version is linked from its hub, and the second hub from the first.
    have hlink : ∀ {j : ℕ}, 0 < j → j < 64 →
        LinkAround (clusterGraph 65) clusterMap (clusterKey 64) (clusterKey (clusterHub j))
        (clusterKey j) := by
      intro j hj hj'
      have hhub := clusterHub_lt hj
      exact ⟨fun h => by have := clusterKey_inj h; omega,
        clusterGraph_last.1.linked _ _ ⟨j, hj, hj', rfl, rfl⟩, mem_clusterMap.2 ⟨j, by omega, rfl⟩⟩
    rcases Nat.eq_zero_or_pos k with rfl | hpos
    · exact .refl
    have hlt : k < 64 := by
      have hne' : k ≠ 64 := fun h => hne (h ▸ rfl)
      omega
    have hlast := hlink hpos hlt
    by_cases hfar : k ≤ 32
    · rw [show clusterHub k = 0 from if_pos hfar] at hlast
      exact .single hlast
    · rw [show clusterHub k = 32 from if_neg hfar] at hlast
      have hfirst := @hlink 32 (by omega) (by omega)
      rw [show clusterHub 32 = 0 from rfl] at hfirst
      exact (Relation.ReflTransGen.single hfirst).tail hlast

/-- **A search among 65 entries overlooks the entry point.** -/
theorem overlooks_cluster {limit : ℕ} (hlimit : limit ≤ 16) :
    Overlooks F32.rational clusterIndex "v" (clusterVector 0) limit (clusterEntry 64) where
  stored := by
    rw [fieldEntriesByKey_clusterIndex]
    exact getElem?_clusterMap (by omega)
  room := by
    have hwidth : clusterIndex.efSearch = 64 := rfl
    rw [fieldEntriesByKey_clusterIndex, size_clusterMap, hwidth]
    omega
  leftOut := by
    obtain ⟨-, hlevel, hpoint⟩ := clusterGraph_last
    rw [fieldEntriesByKey_clusterIndex]
    exact ⟨clusterGraph 65, hnsw_clusterIndex, hpoint, by omega, leavesOut_cluster⟩

theorem length_allowedScores_cluster :
    (allowedScores F32.rational ((List.range 65).map clusterEntry) "v" (clusterVector 0)
      (some [("e", 819)])).length ≤
      1 := by
  decide +kernel

theorem vectorScoreForEntry_cluster (j k : ℕ) :
    vectorScoreForEntry F32.rational (clusterEntry k) (clusterVector j) =
    some ⟨"e", 115 + 11 * k, clusterSimilarity j k⟩ := by
  rw [vectorScoreForEntry, clusterEntry, cosineSimilarity_cluster]
  rfl

theorem distinct_cluster : DistinctEntries ((List.range 65).map clusterEntry) := by
  rw [DistinctEntries, List.map_map]
  refine List.nodup_range.map fun j k hsame => ?_
  simp only [Function.comp_apply, clusterEntry, Prod.mk.injEq] at hsame
  omega

/-- **The last version is not found**: it is the only one that is allowed, and the search comes back
without it. -/
theorem overlooked_entryPoint :
    DistinctEntries (clusterRecords.flatMap IndexRecord.vectorEntries) ∧
      ¬ SmallAnswer F32.rational
        (allowedScores F32.rational (clusterRecords.flatMap IndexRecord.vectorEntries) "v"
          (clusterVector 0) (some [("e", 819)])) 1
        (clusterIndex.searchBy F32.rational "v" (clusterVector 0) 1
          (some [("e", 819)])).scores := by
  rw [vectorEntries_cluster]
  refine ⟨distinct_cluster, fun hanswer => ?_⟩
  have hlast := vectorScoreForEntry_cluster 0 64
  refine not_mem_of_overlooks F32.rational_partialCmp le_rfl (overlooks_cluster (by omega)) hlast
    (hanswer.complete length_allowedScores_cluster _ ?_)
  refine (mem_allowedScores distinct_cluster).2 ⟨List.mem_singleton_self _, clusterEntry 64, ?_, ?_⟩
  · exact (lastEntry_iff distinct_cluster).2 ⟨List.mem_map_of_mem (by decide), rfl, rfl, rfl⟩
  · exact cosineSimilarity_cluster 0 64

end TraceDB
