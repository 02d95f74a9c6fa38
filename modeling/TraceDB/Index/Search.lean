import TraceDB.Index.Vector

/-!
# What a vector index finds

The entries of a field are looked up by record id and version, so of several entries with the same
pair only the last one counts (`lastEntry`).

* `search_sound` : each score of a search is that of the last entry with its pair.
* `search_complete` : a search with room for all entries of its field scores every allowed pair that
  has an entry.
-/

namespace TraceDB

variable {S : Type} {ops : F32 S}

/-! ### Keys -/

/-- The key of an entry separates the record ids and versions of a field: the version is what
follows the last NUL. -/
theorem vectorEntryKey_inj {left right : VectorIndexEntry S} (hfield : left.field = right.field)
    (h : vectorEntryKey left = vectorEntryKey right) :
    left.recordId = right.recordId ∧ left.versionId = right.versionId := by
  have hlist := congrArg (List.reverse ∘ String.toList) h
  simp only [vectorEntryKey, Function.comp_apply, String.toList_append, List.reverse_append,
    show ("\x00" : String).toList.reverse = ['\x00'] from rfl, List.append_assoc,
    List.singleton_append] at hlist
  obtain ⟨hversion, hrest⟩ := Text.append_sep_inj
    (fun h => Text.not_mem_toString rfl left.versionId (List.mem_reverse.1 h))
    (fun h => Text.not_mem_toString rfl right.versionId (List.mem_reverse.1 h)) hlist
  rw [hfield] at hrest
  replace hrest := List.append_cancel_right hrest
  rw [List.reverse_inj, String.toList_inj] at hrest
  rw [List.reverse_inj, String.toList_inj] at hversion
  exact ⟨hrest, toString_nat_inj hversion⟩

/-- The last entry of a field for a record id and a version. -/
def lastEntry (entries : List (VectorIndexEntry S)) (field recordId : String) (versionId : ℕ) :
    Option (VectorIndexEntry S) :=
  entries.findLast? fun entry =>
    entry.field = field ∧ entry.recordId = recordId ∧ entry.versionId = versionId

theorem lastEntry_spec {entries : List (VectorIndexEntry S)} {field recordId : String}
    {versionId : ℕ} {entry : VectorIndexEntry S}
    (h : lastEntry entries field recordId versionId = some entry) :
    entry ∈ entries ∧ entry.field = field ∧ entry.recordId = recordId ∧
      entry.versionId = versionId :=
  ⟨List.mem_of_findLast? h, by simpa using List.prop_of_findLast? h⟩

theorem getElem?_fieldEntriesByKey {entries : List (VectorIndexEntry S)} {field : String}
    {entry : VectorIndexEntry S} (hfield : entry.field = field) :
    (fieldEntriesByKey entries field)[vectorEntryKey entry]? =
      lastEntry entries field entry.recordId entry.versionId := by
  rw [fieldEntriesByKey, SortedMap.getElem?_indexBy, List.findLast?, ← List.filter_reverse,
    List.find?_filter, lastEntry, List.findLast?]
  refine congrFun (congrArg _ (funext fun other => ?_)) _
  simp only [decide_eq_true_eq, decide_eq_decide]
  refine and_congr_right fun hother =>
    ⟨fun h => vectorEntryKey_inj (hother.trans hfield.symm) h, ?_⟩
  rintro ⟨hid, hversion⟩
  rw [vectorEntryKey, vectorEntryKey, hother, hfield, hid, hversion]

theorem lastEntry_of_getElem? {entries : List (VectorIndexEntry S)} {field key : String}
    {entry : VectorIndexEntry S} (h : (fieldEntriesByKey entries field)[key]? = some entry) :
    vectorEntryKey entry = key ∧
      lastEntry entries field entry.recordId entry.versionId = some entry := by
  have hfound := h
  rw [fieldEntriesByKey, SortedMap.getElem?_indexBy] at hfound
  have hkey : vectorEntryKey entry = key := by simpa using List.prop_of_findLast? hfound
  have hfield : entry.field = field := by
    simpa using (List.mem_filter.1 (List.mem_of_findLast? hfound)).2
  rw [← getElem?_fieldEntriesByKey hfield, hkey]
  exact ⟨rfl, h⟩

/-! ### Scores are those of last entries -/

/-- A score is that of the last entry with its record id and version. -/
def ScoresEntry (ops : F32 S) (entries : List (VectorIndexEntry S)) (field : String)
    (query : List S) (score : VectorScore S) : Prop :=
  ∃ entry, lastEntry entries field score.recordId score.versionId = some entry ∧
    ops.cosineSimilarity query entry.vector = some score.score

theorem ScoresEntry.eq {entries : List (VectorIndexEntry S)} {field : String} {query : List S}
    {score score' : VectorScore S} (h : ScoresEntry ops entries field query score)
    (h' : ScoresEntry ops entries field query score') (hid : score.recordId = score'.recordId)
    (hversion : score.versionId = score'.versionId) : score = score' := by
  obtain ⟨entry, hentry, hscore⟩ := h
  obtain ⟨entry', hentry', hscore'⟩ := h'
  rw [hid, hversion, hentry'] at hentry
  obtain rfl := Option.some.inj hentry
  have hsame := Option.some.inj (hscore.symm.trans hscore')
  cases score
  cases score'
  simp_all

variable {entries : List (VectorIndexEntry S)} {field : String} {query : List S}
  {allowed : List (String × ℕ)} {score : VectorScore S}

theorem scoresEntry_of_getElem? {key : String} {entry : VectorIndexEntry S}
    (h : (fieldEntriesByKey entries field)[key]? = some entry)
    (hscore : vectorScoreForEntry ops entry query = some score) :
    ScoresEntry ops entries field query score ∧ vectorEntryKey entry = key ∧
      entry.recordId = score.recordId ∧ entry.versionId = score.versionId := by
  obtain ⟨hkey, hlast⟩ := lastEntry_of_getElem? h
  obtain ⟨value, hcosine, rfl⟩ := Option.map_eq_some_iff.1 hscore
  exact ⟨⟨entry, hlast, hcosine⟩, hkey, rfl, rfl⟩

theorem mem_vectorScoresForKeys {keys : List String} :
    score ∈ vectorScoresForKeys ops keys (fieldEntriesByKey entries field) query allowed ↔
      (score.recordId, score.versionId) ∈ allowed ∧ ∃ key ∈ keys, ∃ entry,
        (fieldEntriesByKey entries field)[key]? = some entry ∧
          vectorScoreForEntry ops entry query = some score := by
  simp only [vectorScoresForKeys, List.mem_filter, List.mem_filterMap, Option.bind_eq_some_iff,
    scoreAllowed, decide_eq_true_eq]
  exact and_comm

theorem mem_exactScoresForEntries :
    score ∈ exactScoresForEntries ops (fieldEntriesByKey entries field) query allowed ↔
      (score.recordId, score.versionId) ∈ allowed ∧ ScoresEntry ops entries field query score := by
  simp only [exactScoresForEntries, List.mem_filter, List.mem_filterMap, scoreAllowed,
    decide_eq_true_eq]
  rw [and_comm]
  refine and_congr_right fun _ => ⟨?_, ?_⟩
  · rintro ⟨⟨key, entry⟩, hmem, hscore⟩
    exact (scoresEntry_of_getElem? (SortedMap.mem_toList.1 hmem) hscore).1
  · rintro ⟨entry, hlast, hcosine⟩
    obtain ⟨-, hfield, hid, hversion⟩ := lastEntry_spec hlast
    rw [← hid, ← hversion, ← getElem?_fieldEntriesByKey hfield] at hlast
    refine ⟨(vectorEntryKey entry, entry), SortedMap.mem_toList.2 hlast, ?_⟩
    rw [vectorScoreForEntry, hcosine, hid, hversion]
    rfl

/-- No two scores of different keys have the same record id and version. -/
theorem nodup_vectorScoresForKeys {keys : List String} (hnodup : keys.Nodup) :
    ((vectorScoresForKeys ops keys (fieldEntriesByKey entries field) query allowed).map
      fun score => (score.recordId, score.versionId)).Nodup := by
  rw [vectorScoresForKeys]
  refine List.Nodup.sublist (List.filter_sublist.map _) ?_
  rw [List.map_filterMap]
  refine hnodup.filterMap fun key key' pair hkey hkey' => ?_
  simp only [Option.mem_def, Option.map_eq_some_iff, Option.bind_eq_some_iff] at hkey hkey'
  obtain ⟨score, ⟨entry, hentry, hscore⟩, rfl⟩ := hkey
  obtain ⟨score', ⟨entry', hentry', hscore'⟩, hsame⟩ := hkey'
  obtain ⟨-, rfl, hid, hversion⟩ := scoresEntry_of_getElem? hentry hscore
  obtain ⟨-, rfl, hid', hversion'⟩ := scoresEntry_of_getElem? hentry' hscore'
  obtain ⟨hids, hversions⟩ := Prod.mk.inj hsame
  have hfield := (lastEntry_spec (lastEntry_of_getElem? hentry).2).2.1
  have hfield' := (lastEntry_spec (lastEntry_of_getElem? hentry').2).2.1
  rw [vectorEntryKey, vectorEntryKey, hfield, hfield', hid, hid', hversion, hversion',
    hids, hversions]

theorem length_vectorScoresForKeys_le {keys : List String} {entries : EntryMap S} :
    (vectorScoresForKeys ops keys entries query allowed).length ≤ keys.length :=
  (List.length_filter_le _ _).trans (List.length_filterMap_le _ _)

theorem length_exactScoresForEntries_le {entries : EntryMap S} :
    (exactScoresForEntries ops entries query allowed).length ≤ entries.size := by
  rw [← Std.ExtTreeMap.length_toList]
  exact (List.length_filter_le _ _).trans (List.length_filterMap_le _ _)

/-! ### The walk -/

section Walk

variable {entries : EntryMap S} {graph : HnswFieldGraph}

/-- What a search of a layer visits. -/
def layerVisited (ops : F32 S) (graph : HnswFieldGraph) (entries : EntryMap S) (query : List S)
    (entryPoints : List String) (level ef : ℕ) : Std.ExtTreeSet String compare :=
  let maxVisits := max (min (max ef 1) entries.size) 1
  bestFirst (fun key => (graph.neighborsAt level key).filter fun neighbor =>
    entries.contains neighbor) (bestEntryKey ops entries query) maxVisits maxVisits ∅
    (Std.ExtTreeSet.ofList (entryPoints.filter fun key => entries.contains key) compare)

theorem hnswSearchLayer_eq (entryPoints : List String) (level ef : ℕ)
    (visited : Std.ExtTreeSet String compare) :
    graph.hnswSearchLayer ops entries query entryPoints level ef visited =
      ((sortBy (vectorKeyOrder ops entries query)
          (layerVisited ops graph entries query entryPoints level ef).toList).take (max ef 1),
        visited.insertMany (layerVisited ops graph entries query entryPoints level ef).toList) :=
          rfl

theorem bestEntryKey_mem {frontier : Std.ExtTreeSet String compare} {key : String}
    (h : bestEntryKey ops entries query frontier = some key) :
    key ∈ frontier ∧ key ∈ entries := by
  obtain ⟨hmem, hentry⟩ := List.mem_filter.1 (minBy_mem h)
  exact ⟨Std.ExtTreeSet.mem_toList.1 hmem, Std.ExtTreeMap.mem_iff_contains.2 hentry⟩

theorem bestEntryKey_eq_none {frontier : Std.ExtTreeSet String compare}
    (h : bestEntryKey ops entries query frontier = none) : ∀ key ∈ frontier, key ∉ entries := by
  intro key hkey hentry
  have hmem : key ∈ frontier.toList.filter fun key => entries.contains key :=
    List.mem_filter.2 ⟨Std.ExtTreeSet.mem_toList.2 hkey, Std.ExtTreeMap.mem_iff_contains.1 hentry⟩
  rw [minBy_eq_none h] at hmem
  cases hmem

theorem layerVisited_subset {entryPoints : List String} {level ef : ℕ} {key : String}
    (h : key ∈ layerVisited ops graph entries query entryPoints level ef) : key ∈ entries := by
  rcases (bestFirst_visits fun h => (bestEntryKey_mem h).2).2.1 key h with h | h
  · exact absurd h Std.ExtTreeSet.not_mem_empty
  · exact h

/-- A layer that is searched from an entry is left early only after that entry was visited. -/
theorem mem_layerVisited {entryPoints : List String} {level ef : ℕ} {key : String}
    (hkey : key ∈ entryPoints) (hentry : key ∈ entries)
    (hends : (layerVisited ops graph entries query entryPoints level ef).size <
      max (min (max ef 1) entries.size) 1) :
    key ∈ layerVisited ops graph entries query entryPoints level ef := by
  refine bestFirst_start (P := (· ∈ entries)) bestEntryKey_mem bestEntryKey_eq_none
    (fun _ _ => Std.ExtTreeSet.not_mem_empty) (by simp) hends key ?_ hentry
  rw [Std.ExtTreeSet.mem_ofList, List.contains_iff_mem]
  exact List.mem_filter.2 ⟨hkey, Std.ExtTreeMap.mem_iff_contains.1 hentry⟩

theorem size_pos_of_mem {key : String} (h : key ∈ entries) : 0 < entries.size := by
  rw [Nat.pos_iff_ne_zero, ne_eq, ← Std.ExtTreeMap.eq_empty_iff_size_eq_zero]
  rintro rfl
  exact Std.ExtTreeMap.not_mem_empty h

/-- A search with a beam of one stays where it starts. -/
theorem mem_layerVisited_one {key : String} (hentry : key ∈ entries) (level : ℕ) {k : String} :
    k ∈ layerVisited ops graph entries query [key] level 1 ↔ k = key := by
  have hcontains := Std.ExtTreeMap.mem_iff_contains.1 hentry
  have hvisits : max (min (max 1 1) entries.size) 1 = 1 := by
    have := size_pos_of_mem hentry
    omega
  have hfrontier : ∀ node, node ∈ Std.ExtTreeSet.ofList ([key].filter fun key =>
      entries.contains key) compare ↔ node = key := by
    intro node
    rw [Std.ExtTreeSet.mem_ofList, List.contains_iff_mem, List.filter_singleton, hcontains]
    exact List.mem_singleton
  simp only [layerVisited, hvisits, bestFirst, Std.ExtTreeSet.size_empty, Nat.zero_lt_one, if_true]
  cases hbest : bestEntryKey ops entries query
      (Std.ExtTreeSet.ofList ([key].filter fun key => entries.contains key) compare) with
  | none => exact absurd hentry (bestEntryKey_eq_none hbest key ((hfrontier key).2 rfl))
  | some node =>
    obtain rfl := (hfrontier node).1 (bestEntryKey_mem hbest).1
    simp only [Std.ExtTreeSet.contains_empty, Bool.false_eq_true, if_false,
      Std.ExtTreeSet.mem_insert, compare_eq_iff_eq, Std.ExtTreeSet.not_mem_empty, or_false]
    exact eq_comm

/-- The levels above lead back to where they start, and nothing else is visited there. -/
theorem descend_eq {key : String} (hentry : key ∈ entries) (levels : List ℕ)
    (visited : Std.ExtTreeSet String compare) :
    (descend ops graph entries query levels (key, visited)).1 = key ∧
      ∀ k, k ∈ (descend ops graph entries query levels (key, visited)).2 ↔
        k ∈ visited ∨ levels ≠ [] ∧ k = key := by
  induction levels generalizing visited with
  | nil => exact ⟨rfl, fun k => by simp [descend]⟩
  | cons level levels ih =>
    have hlayer := @mem_layerVisited_one _ ops query entries graph key hentry level
    have hfound : ∀ k ∈ (graph.hnswSearchLayer ops entries query [key] level 1 visited).1,
        k = key := by
      intro k hk
      rw [hnswSearchLayer_eq] at hk
      exact hlayer.1 (Std.ExtTreeSet.mem_toList.1
        ((sortBy_perm _ _).mem_iff.1 (List.mem_of_mem_take hk)))
    have hnext : (graph.hnswSearchLayer ops entries query [key] level 1 visited).1.head?.getD key =
        key := by
      cases hhead : (graph.hnswSearchLayer ops entries query [key] level 1 visited).1.head? with
      | none => rfl
      | some k => exact hfound k (List.mem_of_head? hhead)
    have hseen : ∀ k, k ∈ (graph.hnswSearchLayer ops entries query [key] level 1 visited).2 ↔
        k ∈ visited ∨ k = key := by
      intro k
      rw [hnswSearchLayer_eq, Std.ExtTreeSet.mem_insertMany_list, List.contains_iff_mem,
        Std.ExtTreeSet.mem_toList, hlayer]
    obtain ⟨hpoint, hvisited⟩ :=
      ih (graph.hnswSearchLayer ops entries query [key] level 1 visited).2
    rw [descend, List.foldl_cons] at *
    simp only [hnext] at hpoint hvisited ⊢
    refine ⟨hpoint, fun k => ?_⟩
    rw [hvisited, hseen]
    simp only [ne_eq, reduceCtorEq, not_false_eq_true, true_and]
    tauto

theorem nodup_toList {set : Std.ExtTreeSet String compare} : set.toList.Nodup := by
  refine Std.ExtTreeSet.distinct_toList.imp fun hne heq => hne ?_
  rw [heq]
  exact Std.ReflCmp.compare_self

theorem size_le_of_subset {small large : Std.ExtTreeSet String compare}
    (h : ∀ key ∈ small, key ∈ large) : small.size ≤ large.size := by
  rw [← Std.ExtTreeSet.length_toList, ← Std.ExtTreeSet.length_toList]
  refine (List.subperm_of_subset nodup_toList fun key hkey => ?_).length_le
  exact Std.ExtTreeSet.mem_toList.2 (h key (Std.ExtTreeSet.mem_toList.1 hkey))

/-- A set of keys as large as the entries is all of them. -/
theorem mem_of_size_le {set : Std.ExtTreeSet String compare} (hset : ∀ key ∈ set, key ∈ entries)
    (hsize : entries.size ≤ set.size) {key : String} (h : key ∈ entries) : key ∈ set := by
  have hsub : set.toList.Subperm entries.keys := List.subperm_of_subset nodup_toList fun key hkey =>
    Std.ExtTreeMap.mem_keys.2 (hset key (Std.ExtTreeSet.mem_toList.1 hkey))
  rw [← Std.ExtTreeMap.length_keys, ← Std.ExtTreeSet.length_toList] at hsize
  exact Std.ExtTreeSet.mem_toList.1 ((hsub.perm_of_length_le hsize).mem_iff.2
    (Std.ExtTreeMap.mem_keys.2 h))

/-- What the walk at level 0 visits. -/
def levelZeroVisited (ops : F32 S) (graph : HnswFieldGraph) (entries : EntryMap S) (query : List S)
    (entryPoint : String) (ef : ℕ) : Std.ExtTreeSet String compare :=
  layerVisited ops graph entries query
    (entryPoint :: (entries.keys.head?.filter fun first => first ≠ entryPoint).toList) 0 ef

theorem size_layerVisited_le (entryPoints : List String) (level ef : ℕ) :
    (layerVisited ops graph entries query entryPoints level ef).size ≤ max
      (min (max ef 1) entries.size) 1 := by
  have hle := (@bestFirst_visits String compare _
    (fun key => (graph.neighborsAt level key).filter fun neighbor => entries.contains neighbor)
    (bestEntryKey ops entries query) (max (min (max ef 1) entries.size) 1)
    (max (min (max ef 1) entries.size) 1) ∅
    (Std.ExtTreeSet.ofList (entryPoints.filter fun key => entries.contains key) compare)
    _ (fun _ => True) fun _ => trivial).2.2
  rwa [Std.ExtTreeSet.size_empty, Nat.max_zero] at hle

/-- A walk finds what it visits at level 0, and the entry point counts as visited where there are
levels above. -/
theorem walkLevelZero_eq {entryPoint : String} (hentry : entryPoint ∈ entries) (ef : ℕ) :
    (walkLevelZero ops graph entries query entryPoint ef).1.Perm
        (levelZeroVisited ops graph entries query entryPoint ef).toList ∧
      ∀ key, key ∈ (walkLevelZero ops graph entries query entryPoint ef).2 ↔
        key ∈ levelZeroVisited ops graph entries query entryPoint ef ∨
          0 < graph.maxLevel ∧ key = entryPoint := by
  obtain ⟨hstart, habove⟩ := @descend_eq _ ops query entries graph _ hentry
    (levelsDown 1 graph.maxLevel) ∅
  have hlevels : levelsDown 1 graph.maxLevel ≠ [] ↔ 0 < graph.maxLevel := by
    rw [levelsDown, ne_eq, List.reverse_eq_nil_iff, List.range'_eq_nil_iff]
    omega
  have hwalk : walkLevelZero ops graph entries query entryPoint ef =
      ((sortBy (vectorKeyOrder ops entries query)
          (levelZeroVisited ops graph entries query entryPoint ef).toList).take (max ef 1),
        ((descend ops graph entries query (levelsDown 1 graph.maxLevel)
          (entryPoint, ∅)).2).insertMany (levelZeroVisited ops graph entries
            query entryPoint ef).toList) := by
    rw [walkLevelZero]
    simp only [hstart]
    rfl
  rw [hwalk]
  refine ⟨?_, fun key => ?_⟩
  · rw [List.take_of_length_le]
    · exact sortBy_perm _ _
    · rw [(sortBy_perm _ _).length_eq, Std.ExtTreeSet.length_toList]
      exact (size_layerVisited_le _ _ _).trans (by omega)
  · rw [Std.ExtTreeSet.mem_insertMany_list, List.contains_iff_mem, Std.ExtTreeSet.mem_toList,
      habove, hlevels, or_comm]
    simp only [Std.ExtTreeSet.not_mem_empty, false_or]

/-- The walk at level 0 with room for all entries: it finds none twice, and it comes back with all
of them, or it has visited fewer than there are. -/
theorem walkLevelZero_spec {entryPoint : String} (hentry : entryPoint ∈ entries) {ef : ℕ}
    (hroom : entries.size ≤ ef) :
    (walkLevelZero ops graph entries query entryPoint ef).1.Nodup ∧
      (walkLevelZero ops graph entries query entryPoint ef).1.length ≤ entries.size ∧
      ((∀ key ∈ entries, key ∈ (walkLevelZero ops graph entries query entryPoint ef).1) ∨
        (walkLevelZero ops graph entries query entryPoint ef).2.size < entries.size) := by
  obtain ⟨hfound, hseen⟩ := @walkLevelZero_eq _ ops query entries graph _ hentry ef
  set found := levelZeroVisited ops graph entries query entryPoint ef
  have hpos := size_pos_of_mem hentry
  have hkeys : ∀ key ∈ found, key ∈ entries := fun key => layerVisited_subset
  have hsize : found.size ≤ entries.size := (size_layerVisited_le _ _ _).trans (by omega)
  refine ⟨hfound.nodup_iff.2 nodup_toList, ?_, ?_⟩
  · rw [hfound.length_eq, Std.ExtTreeSet.length_toList]
    exact hsize
  by_cases hfull : entries.size ≤ found.size
  · refine .inl fun key hkey => hfound.mem_iff.2 ?_
    exact Std.ExtTreeSet.mem_toList.2 (mem_of_size_le hkeys hfull hkey)
  · -- The layer was left early, so its start is among what it visited, and nothing else was.
    have hvisited : entryPoint ∈ found := mem_layerVisited List.mem_cons_self hentry
      ((not_le.1 hfull).trans_le (by omega))
    refine .inr (lt_of_le_of_lt (size_le_of_subset fun key hkey => ?_) (not_le.1 hfull))
    rcases (hseen key).1 hkey with hkey | ⟨-, rfl⟩
    · exact hkey
    · exact hvisited

end Walk

/-! ### Searches -/

variable {limit : ℕ} {artifact : VectorIndexArtifact S}

theorem mem_exactVectorSearch (h : score ∈ (exactVectorSearch ops
    (fieldEntriesByKey entries field) query limit allowed).scores) :
    (score.recordId, score.versionId) ∈ allowed ∧ ScoresEntry ops entries field query score :=
  mem_exactScoresForEntries.1 ((sortBy_perm _ _).mem_iff.1 (List.mem_of_mem_take h))

/-- A search scores all entries, or those that a walk has found when they are enough. -/
theorem searchHnsw_cases (artifact : VectorIndexArtifact S) (field : String) (query : List S)
    (limit : ℕ) (allowed : List (String × ℕ)) (entries : EntryMap S) :
    (artifact.searchHnsw ops field query limit allowed entries).scores =
        (exactVectorSearch ops entries query limit allowed).scores ∨
      ∃ graph entryPoint, artifact.hnsw[field]? = some graph ∧ graph.entryPoint = some entryPoint ∧
        entryPoint ∈ entries ∧
        let walk := walkLevelZero ops graph entries query entryPoint
          (artifact.searchWidth limit allowed.dedup.length entries.size)
        let scores := walkScores ops walk.1 entries query limit allowed
        ¬ (scores.length < limit ∧ scores.length < allowed.dedup.length ∧
            walk.2.size < entries.size) ∧
          (artifact.searchHnsw ops field query limit allowed entries).scores = scores := by
  rw [VectorIndexArtifact.searchHnsw]
  cases hgraph : artifact.hnsw[field]? with
  | none => exact .inl rfl
  | some graph =>
    cases hpoint : graph.entryPoint with
    | none =>
      simp only [hpoint]
      exact .inl trivial
    | some entryPoint =>
      simp only [hpoint]
      split_ifs with hentry hfew
      · exact .inl rfl
      · exact .inr ⟨graph, entryPoint, rfl, hpoint,
          Std.ExtTreeMap.mem_iff_contains.2 hentry, hfew, rfl⟩
      · exact .inl rfl

theorem search_eq (artifact : VectorIndexArtifact S) (field : String) (query : List S) (limit : ℕ)
    (allowed : List (String × ℕ)) :
    (artifact.search ops field query limit allowed).1 =
      if limit = 0 ∨ (fieldEntriesByKey artifact.entries field).isEmpty then []
      else (artifact.searchHnsw ops field query limit allowed
        (fieldEntriesByKey artifact.entries field)).scores := by
  rw [VectorIndexArtifact.search, VectorIndexArtifact.searchVectorWithReportFiltered]
  by_cases hlimit : limit = 0
  · rw [if_pos hlimit, if_pos (.inl hlimit)]
  · rw [if_neg hlimit]
    by_cases hempty : (fieldEntriesByKey artifact.entries field).isEmpty = true
    · simp only [hempty, or_true, if_true]
    · simp only [hlimit, hempty, or_self, if_false, Bool.false_eq_true]

/-- **A search scores last entries only**, and only those of allowed pairs. -/
theorem search_sound (h : score ∈ (artifact.search ops field query limit allowed).1) :
    (score.recordId, score.versionId) ∈ allowed ∧
      ScoresEntry ops artifact.entries field query score := by
  rw [search_eq] at h
  split_ifs at h
  · cases h
  · rcases searchHnsw_cases artifact field query limit allowed
      (fieldEntriesByKey artifact.entries field) with hexact |
        ⟨graph, entryPoint, -, -, -, -, hwalk⟩
    · rw [hexact] at h
      exact mem_exactVectorSearch h
    · rw [hwalk] at h
      obtain ⟨hallowed, key, -, entry, hentry, hscore⟩ := mem_vectorScoresForKeys.1
        ((sortBy_perm _ _).mem_iff.1 (List.mem_of_mem_take h))
      exact ⟨hallowed, (scoresEntry_of_getElem? hentry hscore).1⟩

/-- **A search with room for all entries of its field scores every allowed pair that has an
entry.** -/
theorem search_complete (hroom : (fieldEntriesByKey artifact.entries field).size < limit)
    (husize : (fieldEntriesByKey artifact.entries field).size ≤ usizeMax)
    (hallowed : (score.recordId, score.versionId) ∈ allowed)
    (hscore : ScoresEntry ops artifact.entries field query score) :
    score ∈ (artifact.search ops field query limit allowed).1 := by
  have hexact := mem_exactScoresForEntries.2 ⟨hallowed, hscore⟩
  obtain ⟨entry, hlast, hcosine⟩ := hscore
  obtain ⟨-, hfield, hid, hversion⟩ := lastEntry_spec hlast
  have hentry : (fieldEntriesByKey artifact.entries field)[vectorEntryKey entry]? = some entry := by
    rw [getElem?_fieldEntriesByKey hfield, hid, hversion]
    exact hlast
  have hmem : vectorEntryKey entry ∈ fieldEntriesByKey artifact.entries field := by
    rw [Std.ExtTreeMap.mem_iff_isSome_getElem?, hentry]
    rfl
  have hnonempty : ¬ (fieldEntriesByKey artifact.entries field).isEmpty = true := by
    rw [Std.ExtTreeMap.isEmpty_iff]
    intro hempty
    rw [hempty] at hmem
    exact Std.ExtTreeMap.not_mem_empty hmem
  rw [search_eq, if_neg (not_or.2 ⟨by omega, hnonempty⟩)]
  rcases searchHnsw_cases artifact field query limit allowed
    (fieldEntriesByKey artifact.entries field) with hall |
      ⟨graph, entryPoint, -, -, hpoint, hfew, hwalk⟩
  · rw [hall]
    show score ∈ (sortBy _ (exactScoresForEntries ops _ query allowed)).take limit
    rw [List.take_of_length_le]
    · exact (sortBy_perm _ _).mem_iff.2 hexact
    · rw [(sortBy_perm _ _).length_eq]
      exact (length_exactScoresForEntries_le.trans_lt hroom).le
  · have hwidth : (fieldEntriesByKey artifact.entries field).size ≤
        artifact.searchWidth limit allowed.dedup.length
          (fieldEntriesByKey artifact.entries field).size := by
      rw [VectorIndexArtifact.searchWidth]
      omega
    obtain ⟨hnodup, hlength, hfound⟩ := @walkLevelZero_spec _ ops query _ graph _ hpoint _ hwidth
    set found := walkLevelZero ops graph (fieldEntriesByKey artifact.entries field) query entryPoint
      (artifact.searchWidth limit allowed.dedup.length
        (fieldEntriesByKey artifact.entries field).size)
    have hscores : (walkScores ops found.1 (fieldEntriesByKey artifact.entries field) query limit
        allowed).Perm (vectorScoresForKeys ops found.1
          (fieldEntriesByKey artifact.entries field) query
          allowed) := by
      rw [walkScores, List.take_of_length_le]
      · exact sortBy_perm _ _
      · rw [(sortBy_perm _ _).length_eq]
        exact (length_vectorScoresForKeys_le.trans hlength).trans hroom.le
    rw [hwalk, hscores.mem_iff]
    rw [hscores.length_eq] at hfew
    by_cases hvisited : found.2.size < (fieldEntriesByKey artifact.entries field).size
    · -- Every allowed pair was scored, and by the last entry with that pair.
      have hcount : allowed.dedup.length ≤ (vectorScoresForKeys ops found.1
          (fieldEntriesByKey artifact.entries field) query allowed).length := by
        by_contra hless
        exact hfew ⟨(length_vectorScoresForKeys_le.trans hlength).trans_lt hroom, not_le.1 hless,
          hvisited⟩
      have hpairs : ((vectorScoresForKeys ops found.1
          (fieldEntriesByKey artifact.entries field) query
          allowed).map fun score => (score.recordId, score.versionId)).Subperm allowed.dedup := by
        refine List.subperm_of_subset (nodup_vectorScoresForKeys hnodup) fun pair hpair => ?_
        obtain ⟨score', hmem, rfl⟩ := List.mem_map.1 hpair
        exact List.mem_dedup.2
          (@mem_vectorScoresForKeys _ _ artifact.entries field _ _ _ _ |>.1 hmem).1
      have hpair := (hpairs.perm_of_length_le (by rwa [List.length_map])).mem_iff.2
        (List.mem_dedup.2 hallowed)
      obtain ⟨score', hmem, hsame⟩ := List.mem_map.1 hpair
      obtain ⟨hids, hversions⟩ := Prod.mk.inj hsame
      obtain ⟨-, key, -, entry', hentry', hscore'⟩ := mem_vectorScoresForKeys.1 hmem
      rwa [(scoresEntry_of_getElem? hentry' hscore').1.eq ⟨entry, hlast, hcosine⟩ hids hversions]
        at hmem
    · have hkeys := hfound.resolve_right hvisited
      refine mem_vectorScoresForKeys.2 ⟨hallowed, _, hkeys _ hmem, entry, hentry, ?_⟩
      rw [vectorScoreForEntry, hcosine, hid, hversion]
      rfl

end TraceDB
