import TraceDB.Index.Search
import TraceDB.Query.Samples

/-!
# The greedy search of older indexes

An artifact of the older algorithm `LegacyGreedy` has no graph in levels but one list of near record
ids for each node.  A search walks along these lists, and scores all entries of the field when the
walk leaves out one of them or comes back with too few scores.

`searchLegacyGreedy_exact` : the scores are those of an exact search, whatever the lists hold.
-/

namespace TraceDB

/-- A `VectorIndexArtifact` of the algorithm `LegacyGreedy`, as far as a search reads it. -/
structure LegacyVectorIndex (S : Type) where
  efSearch : ℕ
  entries : List (VectorIndexEntry S)
  neighbors : Std.ExtTreeMap String (List String) compare

variable {S : Type} (ops : F32 S)

/-! ### Scores under an optional filter -/

/-- `score_allowed`, where everything is allowed without a filter. -/
def scoreAllowedBy (allowed : Option (List (String × ℕ))) (score : VectorScore S) : Bool :=
  allowed.all fun allowed => scoreAllowed allowed score

/-- `exact_scores_for_entries`, with or without a filter. -/
def exactScoresBy (entries : EntryMap S) (query : List S) (allowed : Option (List (String × ℕ))) :
    List (VectorScore S) :=
  (entries.toList.filterMap fun entry => vectorScoreForEntry ops entry.2 query).filter
    (scoreAllowedBy allowed)

/-- The scores of `exact_vector_search`, with or without a filter. -/
def exactVectorScores (entries : EntryMap S) (query : List S) (limit : ℕ)
    (allowed : Option (List (String × ℕ))) : List (VectorScore S) :=
  (sortBy (vectorScoreOrder ops) (exactScoresBy ops entries query allowed)).take limit

/-! ### The walk -/

/-- `vector_node_key`. -/
def vectorNodeKey (field recordId : String) : String := field ++ "\x00" ++ recordId

/-- `legacy_entry_key_for_record_id`. -/
def legacyEntryKeyForRecordId (entries : EntryMap S) (recordId : String) : Option String :=
  (entries.toList.find? fun entry => entry.2.recordId = recordId).map Prod.fst

namespace LegacyVectorIndex

variable (index : LegacyVectorIndex S)

/-- The keys of the entries near a node. -/
def legacyNeighbors (field : String) (entries : EntryMap S) (nodeKey : String) : List String :=
  (entries[nodeKey]?.map fun entry =>
    ((index.neighbors[vectorNodeKey field entry.recordId]?).getD []).filterMap
      (legacyEntryKeyForRecordId entries)).getD []

/-- What the loop of `search_legacy_greedy` visits. -/
def legacyVisited (field : String) (query : List S) (limit : ℕ) (entries : EntryMap S)
    (entryPoint : String) : Std.ExtTreeSet String compare :=
  let targetVisits := max (min (max index.efSearch limit) entries.size) 1
  bestFirst (index.legacyNeighbors field entries) (bestEntryKey ops entries query)
    targetVisits targetVisits ∅
    (Std.ExtTreeSet.ofList [entryPoint] compare)

/-- `search_legacy_greedy`.  It panics on a field without entries. -/
def searchLegacyGreedy (field : String) (query : List S) (limit : ℕ)
    (allowed : Option (List (String × ℕ))) (entries : EntryMap S) : Option (VectorSearchReport S) :=
  entries.keys.head?.map fun entryPoint =>
    let visited := index.legacyVisited ops field query limit entries entryPoint
    let scores := (visited.toList.filterMap fun key =>
      entries[key]?.bind fun entry => vectorScoreForEntry ops entry query).filter
        (scoreAllowedBy allowed)
    let fallback := visited.size < entries.size ∨ scores.length < limit
    let scores := if fallback then exactScoresBy ops entries query allowed else scores
    ⟨(sortBy (vectorScoreOrder ops) scores).take limit, entries.size, visited.size, fallback⟩

end LegacyVectorIndex

/-! ### Nothing is left out -/

variable {ops} {entries : EntryMap S}

/-- A set of keys as large as the entries lists their keys. -/
theorem toList_eq_keys {set : Std.ExtTreeSet String compare} (hset : ∀ key ∈ set, key ∈ entries)
    (hsize : entries.size ≤ set.size) : set.toList = entries.keys := by
  have hsorted : ∀ {keys : List String}, (keys.Pairwise fun a b => compare a b = .lt) →
      keys.Pairwise (· < ·) := fun h => h.imp compare_lt_iff_lt.1
  refine List.Perm.eq_of_pairwise (fun a b _ _ hab hba => absurd (lt_trans hab hba) (lt_irrefl _))
    (hsorted Std.ExtTreeSet.ordered_toList) (hsorted Std.ExtTreeMap.ordered_keys) ?_
  refine (List.perm_ext_iff_of_nodup nodup_toList Std.ExtTreeMap.nodup_keys).2 fun key => ?_
  rw [Std.ExtTreeSet.mem_toList, Std.ExtTreeMap.mem_keys]
  exact ⟨hset key, mem_of_size_le hset hsize⟩

/-- The entries in the order of their keys. -/
theorem filterMap_keys {β : Type} (f : VectorIndexEntry S → Option β) :
    (entries.keys.filterMap fun key => entries[key]?.bind f) =
      entries.toList.filterMap fun entry => f entry.2 := by
  rw [← Std.ExtTreeMap.map_fst_toList_eq_keys, List.filterMap_map]
  refine List.filterMap_congr fun entry hentry => ?_
  rw [Function.comp_apply, SortedMap.mem_toList.1 hentry, Option.bind_some]

variable {index : LegacyVectorIndex S} {field : String} {query : List S} {limit : ℕ}
  {allowed : Option (List (String × ℕ))}

theorem mem_entries_of_legacyVisited {entryPoint key : String}
    (h : key ∈ index.legacyVisited ops field query limit entries entryPoint) : key ∈ entries := by
  rcases (bestFirst_visits fun h => (bestEntryKey_mem h).2).2.1 key h with h | h
  · exact absurd h Std.ExtTreeSet.not_mem_empty
  · exact h

/-- A field with an entry has a key. -/
theorem exists_head_of_field {entries : List (VectorIndexEntry S)}
    (h : ∃ entry ∈ entries, entry.field = field) :
    ∃ key, (fieldEntriesByKey entries field).keys.head? = some key := by
  obtain ⟨entry, hentry, hfield⟩ := h
  have hsome : (fieldEntriesByKey entries field)[vectorEntryKey entry]?.isSome = true := by
    rw [getElem?_fieldEntriesByKey hfield, lastEntry, List.findLast?, List.find?_isSome]
    exact ⟨entry, List.mem_reverse.2 hentry, by simp [hfield]⟩
  have hmem : vectorEntryKey entry ∈ (fieldEntriesByKey entries field).keys :=
    Std.ExtTreeMap.mem_keys.2 (Std.ExtTreeMap.mem_iff_isSome_getElem?.2 hsome)
  cases hkeys : (fieldEntriesByKey entries field).keys with
  | nil =>
    rw [hkeys] at hmem
    cases hmem
  | cons key keys => exact ⟨key, rfl⟩

/-- **A greedy search scores as an exact search does.**  The walk may end early, meet entries
without a score or follow broken lists: then all entries are scored, and otherwise it has met them
all. -/
theorem searchLegacyGreedy_exact (index : LegacyVectorIndex S) (field : String)
    (query : List S) (limit : ℕ) (allowed : Option (List (String × ℕ)))
    (hfield : ∃ entry ∈ index.entries, entry.field = field) :
    (index.searchLegacyGreedy ops field query limit allowed
      (fieldEntriesByKey index.entries field)).map
        VectorSearchReport.scores =
      some (exactVectorScores ops (fieldEntriesByKey index.entries field) query limit allowed) := by
  obtain ⟨entryPoint, hhead⟩ := exists_head_of_field hfield
  rw [LegacyVectorIndex.searchLegacyGreedy, hhead, Option.map_some, Option.map_some,
    exactVectorScores]
  dsimp only
  split_ifs with hfallback
  · rfl
  · rw [not_or, not_lt] at hfallback
    have hkeys := toList_eq_keys (fun _ => mem_entries_of_legacyVisited) hfallback.1
    rw [hkeys, filterMap_keys, exactScoresBy]

/-- Two entries, the first with a list that leads to itself and to nothing. -/
def brokenLists : LegacyVectorIndex ℚ where
  efSearch := 64
  entries := [⟨"a", 1, "embedding", [1]⟩, ⟨"b", 2, "embedding", [2]⟩]
  neighbors := SortedMap.ofEntries [(vectorNodeKey "embedding" "a", ["a", "gone"])]

theorem searchLegacyGreedy_exact_brokenLists :
    (brokenLists.searchLegacyGreedy F32.rational "embedding" [1] 1 none
        (fieldEntriesByKey brokenLists.entries "embedding")).map VectorSearchReport.scores =
      some (exactVectorScores F32.rational
        (fieldEntriesByKey brokenLists.entries "embedding") [1] 1 none) :=
  searchLegacyGreedy_exact brokenLists "embedding" [1] 1 none ⟨_, List.mem_cons_self, rfl⟩

end TraceDB
