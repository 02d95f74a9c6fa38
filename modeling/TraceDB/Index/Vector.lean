import TraceDB.Data.BestFirst
import TraceDB.Query.Hybrid

/-!
# Vector indexes

`tracedb-index` builds one vector index over all records of a segment: the vectors as entries, and
for each vector field a graph in levels that links near entries.  A search descends to level 0 and
walks best first from there; when it comes back with too few of the allowed versions, all entries
are scored.

Entries are looked up by a key of the field, the record id and the version.  The greedy search of
older artifacts, and the neighbor lists that only it reads, are in `Index/Legacy`.
-/

namespace TraceDB

/-! ### Records and entries -/

/-- `IndexRecord`. -/
structure IndexRecord (S : Type) where
  table : String
  recordId : String
  tenantId : String
  versionId : ℕ
  fields : Fields
  text : Std.ExtTreeMap String String compare
  vectors : Std.ExtTreeMap String (List S) compare

/-- `VectorIndexEntry`. -/
structure VectorIndexEntry (S : Type) where
  recordId : String
  versionId : ℕ
  field : String
  vector : List S

/-- `HnswFieldGraph`. -/
structure HnswFieldGraph where
  entryPoint : Option String
  maxLevel : ℕ
  levels : Std.ExtTreeMap ℕ (Std.ExtTreeMap String (List String) compare) compare

/-- `VectorIndexArtifact`. -/
structure VectorIndexArtifact (S : Type) where
  indexId : String
  segmentId : String
  generation : ℕ
  manifestGeneration : ℕ
  sourceSegmentChecksum : Digest
  m : ℕ
  efConstruction : ℕ
  efSearch : ℕ
  entries : List (VectorIndexEntry S)
  hnsw : Std.ExtTreeMap String HnswFieldGraph compare

/-- `VectorSearchReport`. -/
structure VectorSearchReport (S : Type) where
  scores : List (VectorScore S)
  fieldEntryCount : ℕ
  visitedCount : ℕ
  exactFallbackUsed : Bool

/-- `DEFAULT_HNSW_M`. -/
def defaultHnswM : ℕ := 16

/-- `DEFAULT_HNSW_EF_CONSTRUCTION`. -/
def defaultHnswEfConstruction : ℕ := 64

/-- `DEFAULT_HNSW_EF_SEARCH`. -/
def defaultHnswEfSearch : ℕ := 64

/-- `MAX_DETERMINISTIC_HNSW_LEVEL`. -/
def maxDeterministicHnswLevel : ℕ := 16

variable {S : Type} (ops : F32 S)

/-- `vector_entry_key`. -/
def vectorEntryKey (entry : VectorIndexEntry S) : String :=
  entry.field ++ "\x00" ++ entry.recordId ++ "\x00" ++ toString entry.versionId

/-- Entries by their keys. -/
abbrev EntryMap (S : Type) := Std.ExtTreeMap String (VectorIndexEntry S) compare

/-- `field_entries_by_key`. -/
def fieldEntriesByKey (entries : List (VectorIndexEntry S)) (field : String) : EntryMap S :=
  SortedMap.indexBy vectorEntryKey (entries.filter fun entry => entry.field = field)

/-- `Iterator::min_by`: the first of the least elements. -/
def minBy {α : Type} (order : α → α → Ordering) : List α → Option α
  | [] => none
  | x :: xs => some (xs.foldl (fun least y => if (order least y).isLE then least else y) x)

theorem minBy_mem {α : Type} {order : α → α → Ordering} {xs : List α} {x : α}
    (h : minBy order xs = some x) : x ∈ xs := by
  cases xs with
  | nil => cases h
  | cons y ys =>
    obtain rfl := Option.some.inj h
    -- The fold starts at the first element and only ever moves to a later one.
    have hfold : ∀ (ys : List α) (y : α),
        ys.foldl (fun least y => if (order least y).isLE then least else y) y ∈ y :: ys := by
      intro ys
      induction ys with
      | nil => exact fun y => List.mem_singleton_self y
      | cons z zs ih =>
        intro y
        rw [List.foldl_cons]
        split_ifs with hle
        · rcases List.mem_cons.1 (ih y) with h | h
          · rw [h]
            exact List.mem_cons_self
          · exact List.mem_cons_of_mem _ (List.mem_cons_of_mem _ h)
        · exact List.mem_cons_of_mem _ (ih z)
    exact hfold ys y

theorem minBy_eq_none {α : Type} {order : α → α → Ordering} {xs : List α}
    (h : minBy order xs = none) : xs = [] := by
  cases xs with
  | nil => rfl
  | cons y ys => cases h

/-! ### Scores -/

/-- `f32::NEG_INFINITY`. -/
def F32.negInfinity : S := ops.div (ops.ofRat (-1)) (ops.ofRat 0)

/-- `vector_score_for_entry`. -/
def vectorScoreForEntry (entry : VectorIndexEntry S) (query : List S) : Option (VectorScore S) :=
  (ops.cosineSimilarity query entry.vector).map fun score =>
    ⟨entry.recordId, entry.versionId, score⟩

/-- `score_allowed`. -/
def scoreAllowed (allowed : List (String × ℕ)) (score : VectorScore S) : Bool :=
  decide ((score.recordId, score.versionId) ∈ allowed)

/-- `vector_key_order`. -/
def vectorKeyOrder (entries : EntryMap S) (query : List S) (left right : String) : Ordering :=
  let score := fun key => (entries[key]?.bind fun entry =>
    ops.cosineSimilarity query entry.vector).getD ops.negInfinity
  (ops.scoreOrder (score left) (score right)).then
    (match entries[left]?, entries[right]? with
      | some left, some right =>
        (compare left.recordId right.recordId).then (compare left.versionId right.versionId)
      | _, _ => compare left right)

/-- `vector_score_order`. -/
def vectorScoreOrder (left right : VectorScore S) : Ordering :=
  ((ops.scoreOrder left.score right.score).then (compare left.recordId right.recordId)).then
    (compare left.versionId right.versionId)

/-- `best_entry_key`. -/
def bestEntryKey (entries : EntryMap S) (query : List S)
    (frontier : Std.ExtTreeSet String compare) :
    Option String :=
  minBy (vectorKeyOrder ops entries query) (frontier.toList.filter fun key => entries.contains key)

/-- `vector_scores_for_keys`. -/
def vectorScoresForKeys (keys : List String) (entries : EntryMap S) (query : List S)
    (allowed : List (String × ℕ)) : List (VectorScore S) :=
  (keys.filterMap fun key => entries[key]?.bind fun entry =>
    vectorScoreForEntry ops entry query).filter (scoreAllowed allowed)

/-- `exact_scores_for_entries`. -/
def exactScoresForEntries (entries : EntryMap S) (query : List S) (allowed : List (String × ℕ)) :
    List (VectorScore S) :=
  (entries.toList.filterMap fun entry => vectorScoreForEntry ops entry.2 query).filter
    (scoreAllowed allowed)

/-! ### Graphs -/

namespace HnswFieldGraph

/-- `HnswFieldGraph::default`. -/
def empty : HnswFieldGraph := ⟨none, 0, ∅⟩

variable (graph : HnswFieldGraph)

/-- The links of a level. -/
def levelLinks (level : ℕ) : Std.ExtTreeMap String (List String) compare :=
  graph.levels[level]?.getD ∅

/-- The neighbors of a key at a level. -/
def neighborsAt (level : ℕ) (key : String) : List String := (graph.levelLinks level)[key]?.getD []

/-- The graph with other neighbors of a key. -/
def setNeighbors (level : ℕ) (key : String) (neighbors : List String) : HnswFieldGraph :=
  { graph with levels := graph.levels.insert level ((graph.levelLinks level).insert key neighbors) }

/-- The graph with a key at some levels, without neighbors where it is new. -/
def addAtLevels (levels : List ℕ) (key : String) : HnswFieldGraph :=
  levels.foldl (fun graph level => graph.setNeighbors level key (graph.neighborsAt level key)) graph

/-- `add_hnsw_neighbor`. -/
def addHnswNeighbor (level : ℕ) (key neighbor : String) : HnswFieldGraph :=
  let neighbors := graph.neighborsAt level key
  graph.setNeighbors level key
    (if neighbor ∈ neighbors then neighbors else neighbors ++ [neighbor])

/-- `prune_hnsw_neighbors`. -/
def pruneHnswNeighbors (level : ℕ) (key : String) (entries : EntryMap S) (m : ℕ) : HnswFieldGraph :=
  match entries[key]?, (graph.levelLinks level)[key]? with
  | some entry, some neighbors =>
    graph.setNeighbors level key
      (((sortBy (vectorKeyOrder ops entries entry.vector) neighbors).destutter (· ≠ ·)).take m)
  | _, _ => graph

/-- `link_hnsw_neighbors`. -/
def linkHnswNeighbors (level : ℕ) (left right : String) (entries : EntryMap S) (m : ℕ) :
    HnswFieldGraph :=
  (((graph.addHnswNeighbor level left right).addHnswNeighbor level right left).pruneHnswNeighbors
    ops
    level left entries m).pruneHnswNeighbors ops level right entries m

/-- `hnsw_search_layer`: the keys that were found, and all that were visited so far. -/
def hnswSearchLayer (entries : EntryMap S) (query : List S) (entryPoints : List String)
    (level ef : ℕ) (visitedAccumulator : Std.ExtTreeSet String compare) :
    List String × Std.ExtTreeSet String compare :=
  let maxVisits := max (min (max ef 1) entries.size) 1
  let visited := bestFirst
    (fun key => (graph.neighborsAt level key).filter fun neighbor => entries.contains neighbor)
    (bestEntryKey ops entries query) maxVisits maxVisits ∅
    (Std.ExtTreeSet.ofList (entryPoints.filter fun key => entries.contains key) compare)
  ((sortBy (vectorKeyOrder ops entries query) visited.toList).take (max ef 1),
    visitedAccumulator.insertMany visited.toList)

end HnswFieldGraph

/-- `select_hnsw_neighbors`. -/
def selectHnswNeighbors (key : String) (candidates : List String) (entries : EntryMap S) (m : ℕ) :
    List String :=
  match entries[key]? with
  | none => []
  | some entry =>
    let others := Std.ExtTreeSet.ofList
      (candidates.filter fun candidate => candidate ≠ key ∧ entries.contains candidate) compare
    (sortBy (vectorKeyOrder ops entries entry.vector) others.toList).take m

/-- `hnsw_best_key`. -/
def hnswBestKey (keys : List String) (entries : EntryMap S) (query : List S) : Option String :=
  minBy (vectorKeyOrder ops entries query) (keys.filter fun key => entries.contains key)

/-- `m_for_level`. -/
def mForLevel (m level : ℕ) : ℕ := if level = 0 then max (min (m * 2) usizeMax) 1 else max m 1

/-- `stable_vector_hash`. -/
def stableVectorHash (value : String) : UInt64 :=
  (utf8 value).foldl (fun hash byte => (hash ^^^ byte.toUInt64) * 0x00000100000001B3)
    0xcbf29ce484222325

/-- The loop of `deterministic_hnsw_level`, with the levels that are left. -/
def hnswLevelFrom (divisor : UInt64) : ℕ → UInt64 → ℕ
  | 0, _ => 0
  | left + 1, hash =>
    if hash % divisor = 0 then
      hnswLevelFrom divisor left (((hash >>> 7) ||| (hash <<< 57)) ^^^ 0x9E3779B97F4A7C15) + 1
    else 0

/-- `deterministic_hnsw_level`. -/
def deterministicHnswLevel (entry : VectorIndexEntry S) (m : ℕ) : ℕ :=
  hnswLevelFrom (.ofNat (max m 2)) maxDeterministicHnswLevel
    (stableVectorHash (vectorEntryKey entry))

/-- The levels from `low` to `high`, from the top down. -/
def levelsDown (low high : ℕ) : List ℕ := (List.range' low (high + 1 - low)).reverse

/-- The search of `build_hnsw_graphs` for the place of an entry, above the level of the entry. -/
def descend (graph : HnswFieldGraph) (entries : EntryMap S) (query : List S) (levels : List ℕ)
    (start : String × Std.ExtTreeSet String compare) : String × Std.ExtTreeSet String compare :=
  levels.foldl (fun (entryPoint, visited) level =>
    let (candidates, visited) :=
      graph.hnswSearchLayer ops entries query [entryPoint] level 1 visited
    (candidates.head?.getD entryPoint, visited)) start

/-- The links of an entry at one level. -/
def linkLevel (entries : EntryMap S) (m efConstruction : ℕ) (entry : VectorIndexEntry S)
    (state : HnswFieldGraph × String) (level : ℕ) : HnswFieldGraph × String :=
  let (graph, entryPoint) := state
  let key := vectorEntryKey entry
  let (candidates, _) := graph.hnswSearchLayer ops entries entry.vector [entryPoint] level
    (max efConstruction 1) ∅
  let selected := selectHnswNeighbors ops key candidates entries (mForLevel m level)
  let graph := selected.foldl (fun graph neighbor =>
    graph.linkHnswNeighbors ops level key neighbor entries (mForLevel m level))
    (graph.addAtLevels [level] key)
  (graph, (hnswBestKey ops (graph.neighborsAt level key) entries entry.vector).getD entryPoint)

/-- The body of the loop of `build_hnsw_graphs` over the entries of a field. -/
def insertHnswEntry (entries : EntryMap S) (m efConstruction : ℕ) (graph : HnswFieldGraph)
    (entry : VectorIndexEntry S) : HnswFieldGraph :=
  let key := vectorEntryKey entry
  let nodeLevel := deterministicHnswLevel entry m
  match graph.entryPoint with
  | none => { graph.addAtLevels (List.range (nodeLevel + 1)) key with
      entryPoint := some key
      maxLevel := nodeLevel }
  | some entryPoint =>
    let (entryPoint, _) := descend ops graph entries entry.vector
      (levelsDown (nodeLevel + 1) graph.maxLevel) (entryPoint, ∅)
    let (linked, _) := (levelsDown 0 (min graph.maxLevel nodeLevel)).foldl
      (linkLevel ops entries m efConstruction entry) (graph, entryPoint)
    if graph.maxLevel < nodeLevel then
      { linked.addAtLevels (List.range' (graph.maxLevel + 1) (nodeLevel - graph.maxLevel)) key with
        entryPoint := some key
        maxLevel := nodeLevel }
    else linked

/-- The order of the entries of a field. -/
def fieldEntryOrder : VectorIndexEntry S → VectorIndexEntry S → Ordering :=
  compareLex (compareOn (·.recordId)) (compareOn (·.versionId))

/-- The order of entries. -/
def entryOrder : VectorIndexEntry S → VectorIndexEntry S → Ordering :=
  compareLex (compareOn (·.field)) fieldEntryOrder

/-- `build_hnsw_graphs`. -/
def buildHnswGraphs (entries : List (VectorIndexEntry S)) (m efConstruction : ℕ) :
    Std.ExtTreeMap String HnswFieldGraph compare :=
  let grouped : Std.ExtTreeMap String (List (VectorIndexEntry S)) compare :=
    entries.foldl (fun grouped entry =>
      grouped.insert entry.field (grouped[entry.field]?.getD [] ++ [entry])) ∅
  grouped.map fun _ group =>
    let fieldEntries := sortBy fieldEntryOrder group
    fieldEntries.foldl
      (insertHnswEntry ops (SortedMap.indexBy vectorEntryKey fieldEntries) m efConstruction) .empty

/-! ### Building and searching -/

/-- The entries of a record. -/
def IndexRecord.vectorEntries (record : IndexRecord S) : List (VectorIndexEntry S) :=
  record.vectors.toList.map fun vector => ⟨record.recordId, record.versionId, vector.1, vector.2⟩

/-- `build_vector_index`. -/
def buildVectorIndex (segmentId : String) (generation manifestGeneration : ℕ)
    (sourceSegmentChecksum : Digest) (records : List (IndexRecord S)) : VectorIndexArtifact S :=
  let entries := sortBy entryOrder (records.flatMap IndexRecord.vectorEntries)
  { indexId := segmentId ++ ":vector:" ++ toString generation
    segmentId := segmentId
    generation := generation
    manifestGeneration := manifestGeneration
    sourceSegmentChecksum := sourceSegmentChecksum
    m := defaultHnswM
    efConstruction := defaultHnswEfConstruction
    efSearch := defaultHnswEfSearch
    entries := entries
    hnsw := buildHnswGraphs ops entries defaultHnswM defaultHnswEfConstruction }

/-- `exact_vector_search`, without a walk before it. -/
def exactVectorSearch (entries : EntryMap S) (query : List S) (limit : ℕ)
    (allowed : List (String × ℕ)) : VectorSearchReport S :=
  ⟨(sortBy (vectorScoreOrder ops) (exactScoresForEntries ops entries query allowed)).take limit,
    entries.size, 0, true⟩

/-- The walk of `search_hnsw` at level 0, from where the levels above lead to and from the first
entry. -/
def walkLevelZero (graph : HnswFieldGraph) (entries : EntryMap S) (query : List S)
    (entryPoint : String) (ef : ℕ) : List String × Std.ExtTreeSet String compare :=
  let (entryPoint, visited) := descend ops graph entries query (levelsDown 1 graph.maxLevel)
    (entryPoint, ∅)
  let first := (entries.keys.head?.filter fun first => first ≠ entryPoint).toList
  graph.hnswSearchLayer ops entries query (entryPoint :: first) 0 ef visited

/-- The scores of what a walk has found. -/
def walkScores (found : List String) (entries : EntryMap S) (query : List S) (limit : ℕ)
    (allowed : List (String × ℕ)) : List (VectorScore S) :=
  (sortBy (vectorScoreOrder ops) (vectorScoresForKeys ops found entries query allowed)).take limit

namespace VectorIndexArtifact

variable (artifact : VectorIndexArtifact S)

/-- `ef_search` of a search. -/
def searchWidth (limit allowedCount fieldEntryCount : ℕ) : ℕ :=
  max (min (max (max artifact.efSearch (min (limit * 4) usizeMax))
    (min (min allowedCount fieldEntryCount) defaultHnswEfSearch)) fieldEntryCount) 1

/-- `search_hnsw`. -/
def searchHnsw (field : String) (query : List S) (limit : ℕ) (allowed : List (String × ℕ))
    (entries : EntryMap S) : VectorSearchReport S :=
  match artifact.hnsw[field]? with
  | none => exactVectorSearch ops entries query limit allowed
  | some graph =>
    match graph.entryPoint with
    | none => exactVectorSearch ops entries query limit allowed
    | some entryPoint =>
      if entries.contains entryPoint then
        let allowedCount := allowed.dedup.length
        let (candidates, visited) := walkLevelZero ops graph entries query entryPoint
          (artifact.searchWidth limit allowedCount entries.size)
        let scores := walkScores ops candidates entries query limit allowed
        if scores.length < limit ∧ scores.length < allowedCount ∧ visited.size < entries.size then
          { exactVectorSearch ops entries query limit allowed with visitedCount := visited.size }
        else ⟨scores, entries.size, visited.size, false⟩
      else exactVectorSearch ops entries query limit allowed

/-- `search_vector_with_report_filtered`. -/
def searchVectorWithReportFiltered (field : String) (query : List S) (limit : ℕ)
    (allowed : List (String × ℕ)) : VectorSearchReport S :=
  if limit = 0 then ⟨[], 0, 0, false⟩
  else
    let entries := fieldEntriesByKey artifact.entries field
    if entries.isEmpty then ⟨[], 0, 0, false⟩
    else artifact.searchHnsw ops field query limit allowed entries

/-- The search, as queries call it. -/
def search : VectorSearch S := fun field query limit allowed =>
  let report := artifact.searchVectorWithReportFiltered ops field query limit allowed
  (report.scores, report.exactFallbackUsed)

end VectorIndexArtifact

end TraceDB
