import TraceDB.Engine.Dimensions
import TraceDB.Index.Artifact
import TraceDB.Index.Search
import TraceDB.Query.Soundness

/-!
# Freshness of vector scores

Outside of the mode that allows stale embeddings, a query is to use no vector score of a record
whose embedding is not Ready.  The hot store asks the status of the embedding; the segments have
none, and their records are scored as they are.

* `strict_rows` : the scores of rows are those of records that are Ready, as long as every segment
  record that is scored is Ready in the store.
* `stale_vector_score` : a row with the score of an embedding that is Dirty.
-/

namespace TraceDB

variable {S : Type} (Q : QueryFormat S) (files : ArtifactFiles S) (db : Db)

/-- The record with an id is visible at the epoch, and its embedding is Ready. -/
def ReadyAt (query : HybridQuery S) (epoch : Epoch) (column id : String) : Prop :=
  ∃ record ∈ db.store.visibleRecordsAt query.table query.tenantId epoch,
    record.header.recordId = id ∧
      (record.features[column]?).any (fun state => state.status = .ready) = true

/-- Every row with a vector score is of a record whose embedding is Ready. -/
def StrictRows (env : CursorEnv) (cache : LexicalCorpusCache S) (actor : ActorContext)
    (query : HybridQuery S) : Prop :=
  ∀ output cache', db.queryAs Q (files.indexFiles Q.toF32) env cache actor query =
    (.ok output, cache') →
    ∀ cursor schema column, db.queryCursor Q env actor query = .ok cursor →
      db.validateQuery query = .ok schema →
      selectedVectorColumn schema query.vectorField = some column →
        ∀ row ∈ output.results, row.score.vector.isSome = true →
          ReadyAt db query cursor.snapshotEpoch column.name row.recordId

/-- The segment record has a vector that can be compared with the query, in the segment or in an
index. -/
def SealedScored (schema : TableSchema) (query : HybridQuery S) (vector : List S) (column : String)
    (record : SegmentRecord) : Prop :=
  (segmentVectorScore Q schema record query.vectorField vector).isSome = true ∨
    ∃ i ∈ db.manifest.indexes, ∃ artifact, files.readArtifact i = .ok artifact ∧
      ∃ index, artifact.asVector = some index ∧ ∃ entry,
        lastEntry index.entries column record.recordId record.versionId = some entry ∧
          (Q.cosineSimilarity vector entry.vector).isSome = true

/-- Every segment record that the query considers, shows and can score is Ready in the store. -/
def SealedReady (actor : ActorContext) (query : HybridQuery S) (schema : TableSchema)
    (column : String) (epoch : Epoch) : Prop :=
  ∀ vector sealedRecords, query.vector = some vector →
    db.querySealed Q (files.indexFiles Q.toF32) query epoch actor = .ok sealedRecords →
    ∀ record ∈ sealedRecords, SealedScored Q files db schema query vector column record →
      (record.recordId ∈ (db.queryVisible Q query epoch actor).map (·.header.recordId) ∨
        ∃ live ∈ sealedRecords, live.recordId = record.recordId ∧
          db.store.isTombstonedAt live.table live.tenantId live.recordId epoch = false) →
      ReadyAt db query epoch column record.recordId

/-! ### Candidates of the vector path -/

section Candidates

variable {Q} {files} {db} {index : IndexFiles S} {input : QueryInput} {query : HybridQuery S}

/-- The records of the vector stream of a query. -/
theorem vectorIds_accessPaths {scores : List (String × S)} {limit : ℕ}
    {paths : List (MemoryAccessPath S)}
    (h : db.queryAccessPaths Q index input query scores limit = .ok paths)
    (visibility : List String) (budget : ℕ) :
    ∃ candidates, db.vectorCandidates Q index input query limit = .ok candidates ∧
      F32.pathIds .vector (paths.map fun path =>
          Q.rankedStream path.id (path.open query visibility budget)) =
        ((MemoryAccessPath.mk .vector candidates).open query visibility budget).map
          (·.recordId) := by
  rw [Db.queryAccessPaths, Except.bind_eq_ok_iff] at h
  obtain ⟨candidates, hcandidates, h⟩ := h
  obtain rfl := Except.ok.inj h
  refine ⟨candidates, hcandidates, ?_⟩
  cases query.graphSeed <;> cases query.temporalAsOf <;>
    simp [F32.pathIds, F32.streamIds, F32.rankedStream]

/-- A ranked candidate with a vector score has the id of a candidate of the vector path. -/
theorem candidate_of_vector {scores : List (String × S)} {budget : ℕ}
    {fused : List (FusedCandidate S)}
    (h : db.rankedCandidates Q index input query scores budget = .ok fused)
    {candidate : FusedCandidate S} (hcandidate : candidate ∈ fused)
    (hvector : candidate.vector.isSome = true) :
    ∃ limit candidates, db.vectorCandidates Q index input query limit = .ok candidates ∧
      ∃ scored ∈ candidates, scored.recordId = candidate.recordId := by
  rw [Db.rankedCandidates, Except.bind_eq_ok_iff] at h
  obtain ⟨paths, hpaths, h⟩ := h
  obtain rfl := Except.ok.inj h
  obtain ⟨candidates, hcandidates, hids⟩ := vectorIds_accessPaths hpaths
    (input.visible.map (·.header.recordId) ++ input.sealedRecords.map (·.recordId)) budget
  rw [Q.scored_fuseQueryStreams F32.scoreOf_vector ((Q.rank_perm _ _ _).mem_iff.1 hcandidate),
    hids] at hvector
  obtain ⟨scored, hscored, hid⟩ := List.mem_map.1 hvector
  exact ⟨_, candidates, hcandidates, scored, (mem_open hscored).1, hid⟩

/-- Only an embedding that is Ready has a score. -/
theorem ready_of_vectorScore {schema : TableSchema} {record : StoredRecord} {vector : List S}
    {freshness : FreshnessMode} (hfresh : freshness ≠ .allowDirty) {column : VectorColumnSchema}
    {field : Option String} (hcolumn : selectedVectorColumn schema field = some column)
    (h : (vectorScore Q schema record field vector freshness).isSome = true) :
    (record.features[column.name]?).any (fun state => state.status = .ready) = true := by
  obtain ⟨scored, h⟩ := Option.isSome_iff_exists.1 h
  rw [vectorScore, hcolumn, Option.bind_eq_bind, Option.bind_some] at h
  obtain ⟨state, hstate, h⟩ := Option.bind_eq_some_iff.1 h
  rw [hstate, Option.any_some, decide_eq_true_eq]
  cases hstatus : state.status with
  | ready => rfl
  | _ =>
    cases freshness with
    | allowDirty => exact absurd rfl hfresh
    | _ => simp [hstatus] at h

/-- The candidates of hits are records with a hit. -/
theorem mem_addIndexHits {sealedRecords : List SegmentRecord} {hits : List (VectorScore S)}
    {candidates : List (Candidate S)} {candidate : Candidate S}
    (h : candidate ∈ hits.foldl (Db.addIndexHit sealedRecords) candidates) :
    candidate ∈ candidates ∨ ∃ hit ∈ hits, ∃ record ∈ sealedRecords,
      record.recordId = hit.recordId ∧ record.versionId = hit.versionId ∧
        candidate.recordId = record.recordId := by
  induction hits generalizing candidates with
  | nil => exact .inl h
  | cons hit hits ih =>
    rcases ih h with hmem | ⟨hit', hhit', hrecord⟩
    · rw [Db.addIndexHit] at hmem
      cases hfind : List.findLast? (fun record : SegmentRecord =>
          record.recordId = hit.recordId ∧ record.versionId = hit.versionId) sealedRecords with
      | none =>
        rw [hfind] at hmem
        exact .inl hmem
      | some record =>
        rw [hfind] at hmem
        dsimp only at hmem
        split_ifs at hmem
        · exact .inl hmem
        · rcases List.mem_append.1 hmem with hold | hnew
          · exact .inl hold
          · obtain ⟨hid, hversion⟩ : record.recordId = hit.recordId ∧
                record.versionId = hit.versionId := by simpa using List.prop_of_findLast? hfind
            rw [List.mem_singleton] at hnew
            exact .inr ⟨hit, List.mem_cons_self, record, List.mem_of_findLast? hfind, hid, hversion,
              hnew ▸ rfl⟩
    · exact .inr ⟨hit', List.mem_cons_of_mem _ hhit', hrecord⟩

theorem sealedScored_of_exact {schema : TableSchema} {sealedRecords : List SegmentRecord}
    {vector : List S} {column : String} {candidate : Candidate S}
    (h : candidate ∈ exactVectorCandidates Q schema sealedRecords query.vectorField vector) :
    ∃ record ∈ sealedRecords, SealedScored Q files db schema query vector column record ∧
      candidate.recordId = record.recordId := by
  obtain ⟨record, hrecord, hsome⟩ := List.mem_filterMap.1 h
  obtain ⟨score, hscore, rfl⟩ := Option.map_eq_some_iff.1 hsome
  exact ⟨record, hrecord, .inl (hscore ▸ rfl), rfl⟩

/-- The candidates from segments are records that can be scored. -/
theorem sealedScored_of_indexed {schema : TableSchema} {sealedRecords : List SegmentRecord}
    {vector : List S} {column : VectorColumnSchema}
    (hcolumn : selectedVectorColumn schema query.vectorField = some column) {limit : ℕ}
    {found : Option (List (Candidate S))}
    (h : db.sealedVectorCandidatesFromIndexArtifacts Q
      (files.indexFiles Q.toF32) schema sealedRecords
      query.vectorField vector limit = .ok found) {candidates : List (Candidate S)}
    (hfound : found = some candidates) {candidate : Candidate S}
    (hcandidate : candidate ∈ candidates) :
    ∃ record ∈ sealedRecords, SealedScored Q files db schema query vector column.name record ∧
      candidate.recordId = record.recordId := by
  subst hfound
  rw [Db.sealedVectorCandidatesFromIndexArtifacts, hcolumn] at h
  split_ifs at h with hempty
  · obtain rfl := Option.some.inj (Except.ok.inj h)
    cases hcandidate
  · obtain ⟨hits, hhits, h⟩ := Except.bind_eq_ok_iff.1 h
    by_cases hused : (!hits.usedArtifact) = true
    · rw [if_pos hused] at h
      cases Except.ok.inj h
    · rw [if_neg hused] at h
      have hall : ∀ candidate ∈ hits.candidates, ∃ record ∈ sealedRecords,
          SealedScored Q files db schema query vector column.name record ∧
            candidate.recordId = record.recordId := by
        refine Except.foldlM_invariant hhits (I := fun hits => ∀ candidate ∈ hits.candidates,
          ∃ record ∈ sealedRecords, SealedScored Q files db schema query vector column.name record ∧
            candidate.recordId = record.recordId) (fun _ hmem => by cases hmem) ?_
        intro hits i hits' hi hinv hstep
        obtain ⟨search, hsearch, hstep⟩ := Except.bind_eq_ok_iff.1 hstep
        cases search with
        | none => exact Except.ok.inj hstep ▸ hinv
        | some search =>
          obtain rfl := Except.ok.inj hstep
          intro candidate hmem
          obtain hold | ⟨hit, hhit, record, hrecord, hid, hversion, hsame⟩ := mem_addIndexHits hmem
          · exact hinv candidate hold
          · obtain ⟨artifact, hartifact, hmap⟩ : ∃ artifact, files.readArtifact i = .ok artifact ∧
                artifact.asVector.map (·.search Q.toF32) = some search := by
              cases hread : files.readArtifact i with
              | error e => simp [ArtifactFiles.indexFiles, hread] at hsearch
              | ok artifact => exact ⟨artifact, rfl, by
                  simpa [ArtifactFiles.indexFiles, hread] using hsearch⟩
            obtain ⟨index, hindex, rfl⟩ := Option.map_eq_some_iff.1 hmap
            obtain ⟨entry, hlast, hscore⟩ := (search_sound hhit).2
            exact ⟨record, hrecord, .inr ⟨i, List.mem_of_mem_filter hi, artifact, hartifact, index,
              hindex, entry, hid ▸ hversion ▸ hlast, hscore ▸ rfl⟩, hsame⟩
      obtain rfl := Option.some.inj (Except.ok.inj h)
      rcases List.mem_append.1 ((sortBy_perm _ _).mem_iff.1 hcandidate) with hmem | hrest
      · exact hall candidate hmem
      · split_ifs at hrest
        · obtain ⟨record, hrecord, hscored⟩ := sealedScored_of_exact hrest
          exact ⟨record, List.mem_of_mem_filter hrecord, hscored⟩
        · cases hrest

/-- Where a vector candidate comes from. -/
theorem mem_vectorCandidates {column : VectorColumnSchema}
    (hcolumn : selectedVectorColumn input.schema query.vectorField = some column) {limit : ℕ}
    {candidates : List (Candidate S)}
    (h : db.vectorCandidates Q (files.indexFiles Q.toF32) input query limit = .ok candidates)
    {candidate : Candidate S} (hcandidate : candidate ∈ candidates) :
    ∃ vector, query.vector = some vector ∧
      ((∃ record ∈ input.visible, record.header.recordId = candidate.recordId ∧
          (vectorScore Q input.schema record query.vectorField vector query.freshness).isSome =
            true) ∨
        ∃ record ∈ input.sealedRecords,
          SealedScored Q files db input.schema query vector column.name record ∧
            candidate.recordId = record.recordId) := by
  rw [Db.vectorCandidates] at h
  cases hvector : query.vector with
  | none =>
    rw [hvector] at h
    obtain rfl := Except.ok.inj h
    cases hcandidate
  | some vector =>
    rw [hvector] at h
    obtain ⟨found, hfound, h⟩ := Except.bind_eq_ok_iff.1 h
    obtain rfl := Except.ok.inj h
    refine ⟨vector, rfl, ?_⟩
    rcases List.mem_append.1 ((sortBy_perm _ _).mem_iff.1 hcandidate) with hstored | hsealed
    · obtain ⟨record, hrecord, hsome⟩ := List.mem_filterMap.1 hstored
      obtain ⟨scored, hscored, rfl⟩ := Option.map_eq_some_iff.1 hsome
      exact .inl ⟨record, hrecord, rfl, hscored ▸ rfl⟩
    · cases found with
      | none => exact .inr (sealedScored_of_exact hsealed)
      | some candidates => exact .inr (sealedScored_of_indexed hcolumn hfound rfl hsealed)

end Candidates

/-! ### Rows -/

section Rows

variable {Q} {files} {db}

/-- **Strict and lazy freshness**, in every state of a handle and for every actor and query: when
every segment record that can be scored and shown is Ready in the store, no row has the vector score
of a record that is not. -/
theorem strict_rows {actor : ActorContext} {query : HybridQuery S}
    (hfresh : query.freshness ≠ .allowDirty) (env : CursorEnv) (cache : LexicalCorpusCache S)
    (hready : ∀ cursor schema column, db.queryCursor Q env actor query = .ok cursor →
      db.validateQuery query = .ok schema →
      selectedVectorColumn schema query.vectorField = some column →
        SealedReady Q files db actor query schema column.name cursor.snapshotEpoch) :
    StrictRows Q files db env cache actor query := by
  intro output cache' hquery cursor schema column hcursor hschema hcolumn row hrow hscore
  obtain ⟨cursor', hcursor', hcases⟩ := queryAs_cases hquery
  obtain rfl := Except.ok.inj (hcursor.symm.trans hcursor')
  rcases hcases with hempty | ⟨schema', sealedRecords, scores, hschema', hsealed, hpage⟩
  · rw [hempty] at hrow
    cases hrow
  obtain rfl := Except.ok.inj (hschema.symm.trans hschema')
  simp only [Db.queryPage, Except.bind_eq_ok_iff] at hpage
  obtain ⟨fused, hfused, next, -, hpage⟩ := hpage
  obtain rfl := Except.ok.inj hpage
  obtain ⟨candidate, hcandidate, hmaterialize⟩ := List.mem_filterMap.1
    (List.mem_of_mem_take (List.mem_of_mem_drop (List.mem_of_mem_take hrow)))
  have hvector : candidate.vector.isSome = true := by
    rcases materialize_cases hmaterialize with ⟨record, -, -, rfl⟩ | ⟨-, record, -, -, -, rfl⟩
    · exact hscore
    · exact hscore
  have hid := recordId_of_materialize hmaterialize
  obtain ⟨limit, candidates, hcandidates, scored, hscored, hsame⟩ := candidate_of_vector hfused
    hcandidate hvector
  obtain ⟨vector, hquery, ⟨record, hrecord, hrecordId, hscored⟩ |
      ⟨record, hrecord, hscored, hrecordId⟩⟩ :=
    mem_vectorCandidates hcolumn hcandidates hscored
  · exact ⟨record, List.mem_of_mem_filter (List.mem_of_mem_filter hrecord),
      hrecordId.trans (hsame.trans hid.symm), ready_of_vectorScore hfresh hcolumn hscored⟩
  · -- The guard has found the id among the hot records, or in a segment with no later delete.
    have hrow : row.recordId = record.recordId := hid.trans (hsame.symm.trans hrecordId)
    rw [hrow]
    refine hready cursor schema column hcursor hschema hcolumn vector
      sealedRecords hquery hsealed record
      hrecord hscored ?_
    rcases materialize_cases hmaterialize with ⟨hot, hhot, hhotId, -⟩ |
      ⟨-, live, hmem, hlive, hliveId, -⟩
    · exact .inl (List.mem_map.2 ⟨hot, hhot, hhotId.trans (hsame.symm.trans hrecordId)⟩)
    · exact .inr ⟨live, hmem, hliveId.trans (hsame.symm.trans hrecordId), hlive⟩

end Rows

/-! ### A stale embedding -/

/-- The index files next to the segments of a handle, as a publication builds them. -/
def ArtifactFiles.ofSegments (db : Db) : ArtifactFiles ℚ where
  validateReady _ := .ok ()
  readArtifact i := do
    let object ← readSegmentObject db.disk i.segmentId
    match (buildSegmentIndexArtifacts .rational object.segmentId object.generation 0 Digest.zero
      (object.records.map (indexRecordFromSegment .reference))).find? fun artifact =>
        artifact.indexId = i.indexId with
    | some artifact => .ok artifact
    | none => .error (.io .notFound "No such file or directory (os error 2)")

/-- A strict query for documents by their embedding. -/
def embeddingQuery : HybridQuery ℚ :=
  { casesQuery with table := "docs", vectorField := some "embedding", vector := some [1, 0] }

/-- A document with its embedding, published, and then the calls. -/
def publishedDocDb (later : List Op) : Db :=
  sealedDb [.applySchema (embeddedDocs 2) none, .put embeddedDoc none] later

/-- The body of the document without its embedding. -/
def docBody (body : String) : RecordInput :=
  ⟨"docs", "a", "t", Std.ExtTreeMap.insert ∅ "body" (.string body)⟩

instance (query : HybridQuery S) (epoch : Epoch) (column id : String) :
    Decidable (ReadyAt db query epoch column id) :=
  inferInstanceAs (Decidable (∃ record ∈ db.store.visibleRecordsAt query.table query.tenantId epoch,
    record.header.recordId = id ∧
      (record.features[column]?).any (fun state => state.status = .ready) = true))

/-- The records that a query returns with a vector score. -/
def Db.scoredIds (db : Db) (query : HybridQuery ℚ) : Option (List String) :=
  (db.queryAs .reference ((ArtifactFiles.ofSegments db).indexFiles .rational) .unsigned .empty
    (.tenantUser "t" "u") query).1.toOption.map fun output =>
      (output.results.filter fun row => row.score.vector.isSome).map (·.recordId)

/-- The segment records that a query reads. -/
def Db.sealedIds (db : Db) (query : HybridQuery ℚ) (epoch : Epoch) : Option (List String) :=
  (db.querySealed .reference ((ArtifactFiles.ofSegments db).indexFiles .rational) query epoch
    (.tenantUser "t" "u")).toOption.map fun records => records.map (·.recordId)

/-- The column of a query's vector. -/
def Db.queriedColumn (db : Db) (query : HybridQuery ℚ) : Option String :=
  (db.validateQuery query).toOption.bind fun schema =>
    (selectedVectorColumn schema query.vectorField).map (·.name)

/-- The document as it was published is Ready. -/
theorem strict_rows_published :
    (publishedDocDb []).sealedIds embeddingQuery 2 = some ["a"] ∧
      StrictRows .reference (.ofSegments (publishedDocDb [])) (publishedDocDb []) .unsigned .empty
        (.tenantUser "t" "u") embeddingQuery := by
  obtain ⟨hepoch, hqueried, hids, hready⟩ := sealedDb_shows
    [.applySchema (embeddedDocs 2) none, .put embeddedDoc none] [] (P := fun db =>
    db.queriedEpoch embeddingQuery = some 2 ∧ db.queriedColumn embeddingQuery = some "embedding" ∧
      db.sealedIds embeddingQuery 2 = some ["a"] ∧ ReadyAt db embeddingQuery 2 "embedding" "a")
    (by decide +kernel)
  refine ⟨hids, strict_rows (by decide) .unsigned .empty ?_⟩
  intro cursor schema column hcursor hschema hcolumn vector records _ hrecords record hrecord _ _
  obtain ⟨cursor', hcursor', hread⟩ := exists_of_queriedEpoch hepoch
  obtain rfl := Except.ok.inj (hcursor'.symm.trans hcursor)
  obtain ⟨schema', hschema', hqueried⟩ := Option.bind_eq_some_iff.1 hqueried
  obtain rfl := Except.ok.inj ((Except.eq_ok_of_toOption hschema').symm.trans hschema)
  rw [hcolumn] at hqueried
  have hname : column.name = "embedding" := Option.some.inj hqueried
  rw [hread, hname]
  obtain ⟨records', hok, hall⟩ := Option.map_eq_some_iff.1 hids
  rw [hread] at hrecords
  obtain rfl := Except.ok.inj ((Except.eq_ok_of_toOption hok).symm.trans hrecords)
  have hid : record.recordId ∈ ["a"] := hall ▸ List.mem_map_of_mem hrecord
  rw [List.mem_singleton.1 hid]
  exact hready

/-- **A stale score**: the body of the document is patched after the publication, which leaves its
embedding Dirty, and a strict query returns it with the score of the embedding. -/
theorem stale_vector_score :
    Reachable .reference "db" (publishedDocDb [.patch (docBody "y") none]) ∧
      ¬ StrictRows .reference (.ofSegments (publishedDocDb [.patch (docBody "y") none]))
        (publishedDocDb [.patch (docBody "y") none]) .unsigned .empty (.tenantUser "t" "u")
        embeddingQuery := by
  obtain ⟨hepoch, hqueried, hids, hstale⟩ := sealedDb_shows
    [.applySchema (embeddedDocs 2) none, .put embeddedDoc none] [.patch (docBody "y") none]
    (P := fun db =>
    db.queriedEpoch embeddingQuery = some 3 ∧ db.queriedColumn embeddingQuery = some "embedding" ∧
      db.scoredIds embeddingQuery = some ["a"] ∧ ¬ ReadyAt db embeddingQuery 3 "embedding" "a")
    (by decide +kernel)
  refine ⟨reachable_sealedDb _ _, fun hstrict => hstale ?_⟩
  obtain ⟨cursor, hcursor, hread⟩ := exists_of_queriedEpoch hepoch
  obtain ⟨schema, hschema, hqueried⟩ := Option.bind_eq_some_iff.1 hqueried
  obtain ⟨column, hcolumn, hname⟩ := Option.map_eq_some_iff.1 hqueried
  obtain ⟨output, houtput, hids⟩ := Option.map_eq_some_iff.1 hids
  obtain ⟨row, hrow, hid⟩ := List.mem_map.1 (hids ▸ List.mem_singleton_self "a")
  obtain ⟨hmem, hvector⟩ := List.mem_filter.1 hrow
  have hready := hstrict output _ (Prod.ext (Except.eq_ok_of_toOption houtput) rfl)
    cursor schema column
    hcursor (Except.eq_ok_of_toOption hschema) hcolumn row hmem hvector
  rwa [hread, hname, hid] at hready

end TraceDB
