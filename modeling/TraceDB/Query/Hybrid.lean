import TraceDB.Engine.Segment
import TraceDB.Query.Cache
import TraceDB.Query.Ranking
import TraceDB.Query.Scan

/-!
# Hybrid queries

`query_as` (`tracedb-query`) reads the records of a tenant from the hot store and from the published
segments, keeps those that the policy lets the actor see and that satisfy the scalar conditions,
ranks candidates by text, vector, graph and time, and returns one page of the ranking.

Timings and the explanation of a query are left out.
-/

namespace TraceDB

/-- `FreshnessMode`. -/
inductive FreshnessMode where
  | strict
  | lazy
  | allowDirty
  deriving DecidableEq

/-- `HybridQuery`. -/
structure HybridQuery (S : Type) where
  table : String
  tenantId : String
  cursor : Option String
  textField : Option String
  text : Option String
  vectorField : Option String
  vector : Option (List S)
  scalarEq : Fields
  graphSeed : Option String
  temporalAsOf : Option ℕ
  topK : ℕ
  freshness : FreshnessMode
  explain : Bool

/-- `QueryRow`. -/
structure QueryRow (S : Type) where
  recordId : String
  versionId : ℕ
  tenantId : String
  fields : Fields
  score : ScoreComponents S

/-- `QueryOutput`, without the explanation. -/
structure QueryOutput (S : Type) where
  results : List (QueryRow S)
  nextCursor : Option String

/-- The libraries that queries rest on. -/
structure QueryFormat (S : Type) extends F32 S, CursorFormat where
  /-- `serde_json::from_value::<Policy>`. -/
  policyFromValue : Value → Option Policy
  /-- `as_f64() as f32` of a JSON number. -/
  numberAsF32 : Number → S
  /-- The JSON text of a query. -/
  queryText : HybridQuery S → String
  /-- The JSON text of `scalar_eq_cache_key`. -/
  scalarEqText : Fields → String

/-- A hit of a vector index. -/
structure VectorScore (S : Type) where
  recordId : String
  versionId : ℕ
  score : S

/-- `search_vector_with_report_filtered` of one index: the hits for a field, a query and a limit
among the allowed versions, and whether the search fell back to an exact one. -/
abbrev VectorSearch (S : Type) :=
  String → List S → ℕ → List (String × ℕ) → List (VectorScore S) × Bool

/-- The index artifacts of a directory. -/
structure IndexFiles (S : Type) where
  /-- `validate_ready_indexes_for_segment`. -/
  validateReady : String → Result Unit
  /-- `read_index_artifact` and `as_vector`. -/
  readVector : IndexManifest → Result (Option (VectorSearch S))

/-! ### Scalar conditions -/

/-- `PartialEq` of JSON numbers: doubles are compared as numbers, so the two zeros are equal. -/
def Number.same : Number → Number → Bool
  | .float a, .float b => a == b || (a &&& 0x7fffffffffffffff == 0 && b &&& 0x7fffffffffffffff == 0)
  | a, b => decide (a = b)

mutual

/-- `PartialEq` of JSON values. -/
def Value.same : Value → Value → Bool
  | .number a, .number b => a.same b
  | .array a, .array b => Value.sameItems a b
  | .object a, .object b => Value.sameFields a b
  | .null, .null => true
  | .bool a, .bool b => a == b
  | .string a, .string b => a == b
  | _, _ => false

/-- Equality of the items of two arrays. -/
def Value.sameItems : List Value → List Value → Bool
  | [], [] => true
  | a :: as, b :: bs => a.same b && Value.sameItems as bs
  | _, _ => false

/-- Equality of the entries of two objects. -/
def Value.sameFields : List (String × Value) → List (String × Value) → Bool
  | [], [] => true
  | (k, a) :: as, (l, b) :: bs => k == l && a.same b && Value.sameFields as bs
  | _, _ => false

end

/-- `record_matches_scalar_eq`. -/
def recordMatchesScalarEq (fields scalarEq : Fields) : Bool :=
  scalarEq.toList.all fun condition => fields[condition.1]?.any fun value => value.same condition.2

/-- `validate_scalar_eq_predicates`. -/
def validateScalarEqPredicates (schema : TableSchema) (scalarEq : Fields) : Result Unit :=
  match scalarEq.keys.find? fun column => column ∉ schema.scalarColumns with
  | none => .ok ()
  | some column => .error (.invalidCommand
      s!"invalid scalar predicate column {column}: not in schema scalar columns")

/-! ### Columns -/

/-- `selected_text_columns`. -/
def selectedTextColumns (schema : TableSchema) (textField : Option String) : List String :=
  match textField with
  | some field => [field]
  | none => schema.textIndexedColumns

/-- `selected_vector_column`. -/
def selectedVectorColumn (schema : TableSchema) (vectorField : Option String) :
    Option VectorColumnSchema :=
  match vectorField with
  | some field => schema.vectorColumns.find? fun vector => vector.name = field
  | none => schema.vectorColumns.head?

/-- `validate_text_query_field`. -/
def validateTextQueryField (schema : TableSchema) (text textField : Option String) : Result Unit :=
  match text, textField with
  | some _, some field =>
    if field ∈ schema.textIndexedColumns then .ok ()
    else .error (.invalidCommand
      s!"invalid text query column {field}: not in schema text indexed columns")
  | _, _ => .ok ()

/-- `validate_vector_query_dimensions`. -/
def validateVectorQueryDimensions {S : Type} (schema : TableSchema) (query : Option (List S))
    (vectorField : Option String) : Result Unit :=
  match query with
  | none => .ok ()
  | some query =>
    match selectedVectorColumn schema vectorField with
    | none =>
      match vectorField with
      | some field => .error (.invalidCommand
          s!"invalid vector query column {field}: not in schema vector columns")
      | none => .error (.invalidSchema s!"table {schema.name} has no vector columns")
    | some vector =>
      if query.length ≠ vector.dimensions then
        .error (.invalidVectorDimensions vector.name vector.dimensions query.length)
      else .ok ()

/-- `text_body`, empty where there is none. -/
def textBody (schema : TableSchema) (fields : Fields) (textField : Option String) : String :=
  String.intercalate " " ((selectedTextColumns schema textField).filterMap fun column =>
    match fields[column]? with
    | some (Value.string value) => some value
    | _ => none)

/-- `segment_text_body`, empty where there is none. -/
def segmentTextBody (record : SegmentRecord) (textField : Option String) : String :=
  String.intercalate " " (match textField with
    | some field => record.text[field]?.toList
    | none => record.text.toList.map Prod.snd)

/-- `lexical_documents`. -/
def lexicalDocuments (schema : TableSchema) (visible : List StoredRecord)
    (sealedRecords : List SegmentRecord) (textField : Option String) : List (String × String) :=
  (visible.map fun record => (record.header.recordId, textBody schema record.fields textField)) ++
    sealedRecords.map fun record => (record.recordId, segmentTextBody record textField)

/-- `record_has_graph_seed`. -/
def recordHasGraphSeed (record : StoredRecord) (seed : String) : Bool :=
  match record.fields["edges"]?.bind Value.asArray with
  | some edges => edges.any fun edge => edge.asStr = some seed
  | none => false

/-- `record_valid_as_of`. -/
def recordValidAsOf (record : StoredRecord) (asOf : ℕ) : Bool :=
  decide ((record.fields["valid_from"]?.bind Value.asU64).getD 0 ≤ asOf) &&
    decide (asOf ≤ (record.fields["valid_to"]?.bind Value.asU64).getD (2 ^ 64 - 1))

/-- `query_has_evidence`. -/
def HybridQuery.hasEvidence {S : Type} (query : HybridQuery S) : Bool :=
  (query.text.any fun text => !Text.isBlank text) || query.vector.isSome ||
    query.graphSeed.isSome || query.temporalAsOf.isSome

/-- `usize::saturating_add`. -/
def saturatingAddUsize (a b : ℕ) : ℕ := min (a + b) usizeMax

/-- The records that a query ranks: the visible ones of the hot store and those of the segments,
after policy and scalar conditions. -/
structure QueryInput where
  schema : TableSchema
  visible : List StoredRecord
  sealedRecords : List SegmentRecord

/-- The hot record with an id. -/
def QueryInput.stored? (input : QueryInput) (id : String) : Option StoredRecord :=
  List.findLast? (fun record => record.header.recordId = id) input.visible

/-- The segment record with an id. -/
def QueryInput.sealed? (input : QueryInput) (id : String) : Option SegmentRecord :=
  List.findLast? (fun record => record.recordId = id) input.sealedRecords

/-! ### Visibility -/

variable {S : Type} (Q : QueryFormat S) (index : IndexFiles S)

/-- `POLICY_FIELD_NAME`. -/
def policyFieldName : String := "__tracedb_policy"

/-- `policy_from_fields`. -/
def policyFromFields (fields : Fields) (tenantId : String) : Policy :=
  (fields[policyFieldName]?.bind Q.policyFromValue).getD (.tenant tenantId)

/-- `stored_record_visible`. -/
def storedRecordVisible (actor : ActorContext) (record : StoredRecord) : Bool :=
  (policyFromFields Q record.fields record.header.tenantId).visible actor

/-- `segment_record_visible`. -/
def segmentRecordVisible (actor : ActorContext) (record : SegmentRecord) : Bool :=
  (policyFromFields Q record.fields record.tenantId).visible actor

/-- `cursor_scope_for_query`. -/
def cursorScopeForQuery (actor : ActorContext) (query : HybridQuery S) (limit : ℕ) :
    CursorScope where
  kind := "query"
  tenantId := query.tenantId
  databaseId := actor.databaseId
  branchId := actor.branchId
  actorDigest := cursorActorDigest Q.toCursorFormat actor
  queryDigest := Q.stableBodyHash (utf8 (Q.queryText { query with cursor := none }))
  limit := limit
  orderKey := "ranked"

/-! ### Vectors -/

/-- `value_as_f32_vec`, on the items of an array. -/
def itemsAsF32 (items : List Value) : Option (List S) :=
  items.mapM fun item =>
    match item with
    | .number n => some (Q.numberAsF32 n)
    | _ => none

/-- `cosine_similarity`. -/
def F32.cosineSimilarity (ops : F32 S) (query vector : List S) : Option S :=
  let norm := fun values : List S =>
    ops.sqrt ((values.map fun value => ops.mul value value).foldl ops.add (ops.ofRat 0))
  if query.length ≠ vector.length || query.isEmpty then none
  else
    let dot := (query.zipWith ops.mul vector).foldl ops.add (ops.ofRat 0)
    if ops.partialCmp (norm query) (ops.ofRat 0) = some .eq ||
        ops.partialCmp (norm vector) (ops.ofRat 0) = some .eq then none
    else some (ops.div dot (ops.mul (norm query) (norm vector)))

/-- `vector_score`: the score and the penalty for a stale embedding. -/
def vectorScore (schema : TableSchema) (record : StoredRecord) (vectorField : Option String)
    (query : List S) (freshness : FreshnessMode) : Option (S × S) := do
  let vector ← selectedVectorColumn schema vectorField
  let state ← record.features[vector.name]?
  let penalty ← match state.status, freshness with
    | .ready, _ => some (Q.ofRat 0)
    | .dirty, .allowDirty => some (Q.ofRat (1 / 20))
    | _, _ => none
  let value ← (record.fields[vector.name]?.bind Value.asArray).bind (itemsAsF32 Q)
  let score ← Q.cosineSimilarity query value
  some (score, penalty)

/-- `segment_vector_score`. -/
def segmentVectorScore (schema : TableSchema) (record : SegmentRecord) (vectorField : Option String)
    (query : List S) : Option S := do
  let vector ← selectedVectorColumn schema vectorField
  let value ← record.vectors[vector.name]?.bind (itemsAsF32 Q)
  Q.cosineSimilarity query value

/-- No score at all, and a final score. -/
def ScoreComponents.final (score : S) : ScoreComponents S := ⟨none, none, none, none, score⟩

/-- `planner_candidate` with a relational score. -/
def relationalCandidate (score : S) (record : StoredRecord) : Candidate S :=
  ⟨record.header.recordId, record.header.versionId,
    { ScoreComponents.final score with relational := some score }⟩

/-- `segment_candidate` with a vector score. -/
def segmentVectorCandidate (record : SegmentRecord) (score : S) : Candidate S :=
  ⟨record.recordId, record.versionId, { ScoreComponents.final score with vector := some score }⟩

/-- The vector candidate of a hot record. -/
def storedVectorCandidate (record : StoredRecord) (scored : S × S) : Candidate S :=
  ⟨record.header.recordId, record.header.versionId,
    { ScoreComponents.final (Q.sub scored.1 scored.2) with
      vector := some scored.1
      freshnessPenalty := if Q.gt scored.2 (Q.ofRat 0) then some scored.2 else none }⟩

/-- The order of vector candidates. -/
def vectorCandidateOrder (left right : Candidate S) : Ordering :=
  ((Q.scoreOrder left.scoreComponents.finalScore right.scoreComponents.finalScore).then
    (compare left.recordId right.recordId)).then (compare left.versionId right.versionId)

/-- The exact vector candidates of segment records. -/
def exactVectorCandidates (schema : TableSchema) (sealedRecords : List SegmentRecord)
    (vectorField : Option String) (query : List S) : List (Candidate S) :=
  sealedRecords.filterMap fun record =>
    (segmentVectorScore Q schema record vectorField query).map (segmentVectorCandidate record)

/-- What the loop of `sealed_vector_candidates_from_index_artifacts` carries. -/
structure IndexHits (S : Type) where
  usedArtifact : Bool
  usedExactFallback : Bool
  candidates : List (Candidate S)

namespace Db

variable (db : Db)

/-- One hit of an index: it counts when it is an eligible version that was not found before. -/
def addIndexHit (sealedRecords : List SegmentRecord) (candidates : List (Candidate S))
    (hit : VectorScore S) : List (Candidate S) :=
  match List.findLast? (fun record : SegmentRecord =>
      record.recordId = hit.recordId ∧ record.versionId = hit.versionId) sealedRecords with
  | none => candidates
  | some record =>
    if candidates.any fun found =>
        found.recordId = hit.recordId ∧ found.versionId = hit.versionId then candidates
    else candidates ++ [segmentVectorCandidate record hit.score]

/-- `sealed_vector_candidates_from_index_artifacts`. -/
def sealedVectorCandidatesFromIndexArtifacts (schema : TableSchema)
    (sealedRecords : List SegmentRecord) (vectorField : Option String)
    (query : List S) (limit : ℕ) :
    Result (Option (List (Candidate S))) :=
  if sealedRecords.isEmpty then .ok (some [])
  else
    match selectedVectorColumn schema vectorField with
    | none => .ok none
    | some vector => do
      let allowed := sealedRecords.map fun record => (record.recordId, record.versionId)
      let eligible := (db.manifest.segments.filter fun segment => segment.state = .published ∧
        (segment.tableSet = [] ∨ schema.name ∈ segment.tableSet)).map (·.segmentId)
      let hits ← (db.manifest.indexes.filter fun i => i.kind = "vector" ∧ i.state = .ready ∧
        i.segmentId ∈ eligible).foldlM (fun (hits : IndexHits S) i => do
          match ← index.readVector i with
          | none => .ok hits
          | some search =>
            let (scores, exact) := search vector.name query limit allowed
            .ok ⟨true, hits.usedExactFallback || exact,
              scores.foldl (addIndexHit sealedRecords) hits.candidates⟩) ⟨false, false, []⟩
      if !hits.usedArtifact then .ok none
      else
        let rest := if hits.usedExactFallback then
            exactVectorCandidates Q schema (sealedRecords.filter fun record =>
              !hits.candidates.any fun found =>
                found.recordId = record.recordId ∧ found.versionId = record.versionId)
              vectorField query
          else []
        .ok (some (sortBy (vectorCandidateOrder Q) (hits.candidates ++ rest)))

/-! ### Access paths -/

/-- The candidates of the lexical path, from the scores of the documents. -/
def lexicalCandidates (input : QueryInput) (scores : List (String × S)) : List (Candidate S) :=
  (sortBy (fun left right => Q.scoreOrder left.2 right.2) scores).filterMap fun scored =>
    let components := { ScoreComponents.final scored.2 with lexical := some scored.2 }
    match input.stored? scored.1 with
    | some record => some ⟨record.header.recordId, record.header.versionId, components⟩
    | none => (input.sealed? scored.1).map fun record =>
        ⟨record.recordId, record.versionId, components⟩

/-- The candidates of the vector path. -/
def vectorCandidates (input : QueryInput) (query : HybridQuery S) (limit : ℕ) :
    Result (List (Candidate S)) :=
  match query.vector with
  | none => .ok []
  | some vector => do
    let stored := input.visible.filterMap fun record =>
      (vectorScore Q input.schema record query.vectorField vector query.freshness).map
        (storedVectorCandidate Q record)
    let indexed ← db.sealedVectorCandidatesFromIndexArtifacts Q index input.schema
      input.sealedRecords query.vectorField vector limit
    .ok (sortBy (vectorCandidateOrder Q) (stored ++ indexed.getD
      (exactVectorCandidates Q input.schema input.sealedRecords query.vectorField vector)))

/-- `query_access_paths`.  The limit is the one for paths without evidence. -/
def queryAccessPaths (input : QueryInput) (query : HybridQuery S) (scores : List (String × S))
    (limit : ℕ) : Result (List (MemoryAccessPath S)) := do
  let fallback := input.visible.take limit
  let vector ← db.vectorCandidates Q index input query limit
  .ok ([⟨.policy, fallback.map (relationalCandidate (Q.ofRat 1))⟩,
      ⟨.relational, fallback.map (relationalCandidate (Q.ofRat (3 / 4)))⟩,
      ⟨.hotOverlay, fallback.map (relationalCandidate (Q.ofRat 1))⟩,
      ⟨.lexical, if query.text.isSome then lexicalCandidates Q input scores else []⟩,
      ⟨.vector, vector⟩] ++
    (match query.graphSeed with
      | none => []
      | some seed => [⟨.graph,
          (input.visible.filter fun record => recordHasGraphSeed record seed).map
          (relationalCandidate (Q.ofRat (3 / 5)))⟩]) ++
    (match query.temporalAsOf with
      | none => []
      | some asOf => [⟨.temporal,
          (input.visible.filter fun record => recordValidAsOf record asOf).map
          (relationalCandidate (Q.ofRat (13 / 20)))⟩]))

end Db

/-- `MemoryAccessPath::open`. -/
def MemoryAccessPath.open (path : MemoryAccessPath S) (query : HybridQuery S)
    (visibility : List String) (budget : ℕ) : List (Candidate S) :=
  let allowed := match path.id with
    | .lexical => query.text.any fun text => !Text.isBlank text
    | .vector => query.vector.isSome
    | _ => true
  (path.candidates.filter fun candidate => allowed && decide (candidate.recordId ∈ visibility)).take
    budget

/-! ### Rows -/

/-- `score_components_from_candidate`. -/
def scoreComponentsFromCandidate (candidate : FusedCandidate S) : ScoreComponents S where
  vector := candidate.vector
  lexical := candidate.lexical
  relational := candidate.relational
  freshnessPenalty := if Q.gt candidate.freshnessPenalty (Q.ofRat 0) then
      some candidate.freshnessPenalty
    else none
  finalScore := candidate.finalScore

/-- `query_row_from_stored`. -/
def queryRowFromStored (record : StoredRecord) (candidate : FusedCandidate S) : QueryRow S where
  recordId := record.header.recordId
  versionId := record.header.versionId
  tenantId := record.header.tenantId
  fields := record.fields
  score := scoreComponentsFromCandidate Q candidate

/-- `query_row_from_segment`. -/
def queryRowFromSegment (record : SegmentRecord) (candidate : FusedCandidate S) : QueryRow S where
  recordId := record.recordId
  versionId := record.versionId
  tenantId := record.tenantId
  fields := record.fields
  score := scoreComponentsFromCandidate Q candidate

namespace Db

variable (db : Db)

/-- The segment records that are not deleted at an epoch. -/
def sealedVisibleRecords (input : QueryInput) (epoch : Epoch) : List SegmentRecord :=
  input.sealedRecords.filter fun record =>
    !db.store.isTombstonedAt record.table record.tenantId record.recordId epoch

/-- The row of a candidate, unless the final guard removes it: the hot record with its id, or else
the segment record. -/
def materialize (input : QueryInput) (epoch : Epoch) (candidate : FusedCandidate S) :
    Option (QueryRow S) :=
  let sealedVisible := db.sealedVisibleRecords input epoch
  if candidate.recordId ∉ input.visible.map (·.header.recordId) ++
    sealedVisible.map (·.recordId) then
    none
  else
    match input.stored? candidate.recordId with
    | some record => some (queryRowFromStored Q record candidate)
    | none => (List.findLast? (fun record : SegmentRecord => record.recordId = candidate.recordId)
        sealedVisible).map fun record => queryRowFromSegment Q record candidate

/-- The ranking of a query under a candidate budget. -/
def rankedCandidates (input : QueryInput) (query : HybridQuery S) (scores : List (String × S))
    (budget : ℕ) : Result (List (FusedCandidate S)) := do
  let visibility := input.visible.map (·.header.recordId) ++ input.sealedRecords.map (·.recordId)
  let paths ← db.queryAccessPaths Q index input query scores
    (if query.hasEvidence then budget else usizeMax)
  .ok (Q.rank query.text.isSome query.vector.isSome
    (paths.map fun path => Q.rankedStream path.id (path.open query visibility budget)))

/-- The cursor of `query_with_timing_internal`, when there is more. -/
def nextQueryCursor (env : CursorEnv) (scope : CursorScope) (hasMore : Bool) (offset : ℕ)
    (snapshotEpoch : Epoch) : Result (Option String) :=
  if hasMore then
    some <$> encodeNextCursor Q.toCursorFormat env scope offset snapshotEpoch
  else .ok none

/-- The page of a query, and the cursor for the next one. -/
def queryPage (env : CursorEnv) (input : QueryInput) (query : HybridQuery S) (cursor : CursorState)
    (scope : CursorScope) (scores : List (String × S)) : Result (QueryOutput S) := do
  let pageEnd := saturatingAddUsize cursor.offset query.topK
  let requestedWindow := saturatingAddUsize pageEnd 1
  let candidateBudget := max (max (min (requestedWindow * 4) usizeMax) requestedWindow) 1
  let fused ← db.rankedCandidates Q index input query scores candidateBudget
  let materialized := (fused.filterMap (db.materialize Q input cursor.snapshotEpoch)).take
    requestedWindow
  let page := (materialized.drop cursor.offset).take query.topK
  let nextCursor ← nextQueryCursor Q env scope (decide (pageEnd < materialized.length))
    (cursor.offset + page.length) cursor.snapshotEpoch
  .ok ⟨page, nextCursor⟩

/-! ### Queries -/

/-- `sealed_segment_records`. -/
def sealedSegmentRecords (table tenantId : String) : Result (List SegmentRecord) :=
  db.manifest.segments.foldlM (fun out segment =>
    if segment.state ≠ .published then .ok out
    else if segment.tableSet ≠ [] ∧ table ∉ segment.tableSet then .ok out
    else if segment.tenantSet ≠ [] ∧ tenantId ∉ segment.tenantSet then .ok out
    else
      match db.disk.segments[segment.segmentId]? with
      | none => .ok out
      | some object => do
        index.validateReady segment.segmentId
        .ok (out ++ object.records.filter fun record =>
          record.table = table ∧ record.tenantId = tenantId)) []

/-- The checks of a query before it reads. -/
def validateQuery (query : HybridQuery S) : Result TableSchema := do
  let schema ← tableOrUnknown db.manifest.schemas query.table
  validateTextQueryField schema query.text query.textField
  validateVectorQueryDimensions schema query.vector query.vectorField
  validateScalarEqPredicates schema query.scalarEq
  .ok schema

/-- The hot records of a query. -/
def queryVisible (query : HybridQuery S) (epoch : Epoch) (actor : ActorContext) :
    List StoredRecord :=
  ((db.store.visibleRecordsAt query.table query.tenantId epoch).filter
    (storedRecordVisible Q actor)).filter fun record =>
      recordMatchesScalarEq record.fields query.scalarEq

/-- The segment records of a query. -/
def querySealed (query : HybridQuery S) (epoch : Epoch) (actor : ActorContext) :
    Result (List SegmentRecord) := do
  let records ← db.sealedSegmentRecords index query.table query.tenantId
  .ok (((records.filter fun record => record.versionId ≤ epoch).filter
    (segmentRecordVisible Q actor)).filter fun record =>
      recordMatchesScalarEq record.fields query.scalarEq)

/-- The key of a query in the cache. -/
def lexicalCacheKey (schema : TableSchema) (query : HybridQuery S) : LexicalCacheKey where
  table := schema.name
  tenantId := query.tenantId
  readEpoch := db.manifest.latestEpoch
  manifestGeneration := db.manifest.manifestGeneration
  scalarEq := Q.scalarEqText query.scalarEq
  textColumns := selectedTextColumns schema query.textField

/-- `score_prepared_lexical_corpus`. -/
def scorePreparedLexicalCorpus (cache : LexicalCorpusCache S) (input : QueryInput)
    (query : HybridQuery S) (text : String) : List (String × S) × LexicalCorpusCache S :=
  let documents := lexicalDocuments input.schema input.visible input.sealedRecords query.textField
  if input.visible.length + input.sealedRecords.length < minLexicalCacheDocuments then
    (Q.scoreCorpus text documents, cache)
  else
    let key := db.lexicalCacheKey Q input.schema query
    match cache.get key with
    | (some corpus, cache) => (Q.scoreQueryWithStats corpus text, cache)
    | (none, cache) =>
      let (corpus, scores) := Q.fromDocumentsWithInitialScore text documents
      (scores, cache.insert key corpus)

/-- The scores of a query's text. -/
def lexicalScores (cache : LexicalCorpusCache S) (input : QueryInput) (query : HybridQuery S) :
    List (String × S) × LexicalCorpusCache S :=
  match query.text with
  | none => ([], cache)
  | some text => db.scorePreparedLexicalCorpus Q cache input query text

/-- `query_with_timing_internal`. -/
def queryInternal (env : CursorEnv) (cache : LexicalCorpusCache S) (actor : ActorContext)
    (query : HybridQuery S) (cursor : CursorState) (scope : CursorScope) :
    Result (QueryOutput S) × LexicalCorpusCache S :=
  match db.validateQuery query with
  | .error e => (.error e, cache)
  | .ok schema =>
    if query.topK = 0 then (.ok ⟨[], none⟩, cache)
    else
      match db.querySealed Q index query cursor.snapshotEpoch actor with
      | .error e => (.error e, cache)
      | .ok sealedRecords =>
        let input := ⟨schema, db.queryVisible Q query cursor.snapshotEpoch actor, sealedRecords⟩
        let (scores, cache) := db.lexicalScores Q cache input query
        (db.queryPage Q index env input query cursor scope scores, cache)

/-- Where a query reads: `validate_actor_tenant` and `resolve_cursor_state`. -/
def queryCursor (env : CursorEnv) (actor : ActorContext) (query : HybridQuery S) :
    Result CursorState := do
  validateActorTenant actor query.tenantId
  resolveCursorState Q.toCursorFormat env (cursorScopeForQuery Q actor query (max query.topK 1))
    query.cursor db.manifest.latestEpoch

/-- `query_as`. -/
def queryAs (env : CursorEnv) (cache : LexicalCorpusCache S) (actor : ActorContext)
    (query : HybridQuery S) : Result (QueryOutput S) × LexicalCorpusCache S :=
  match db.queryCursor Q env actor query with
  | .error e => (.error e, cache)
  | .ok cursor => db.queryInternal Q index env cache actor query cursor
      (cursorScopeForQuery Q actor query (max query.topK 1))

end Db

end TraceDB
