import TraceDB.Vault.Intact

/-!
# Vacuum

A vacuum removes the files that the manifest does not refer to: objects of segments that a
compaction has replaced, and what broken publications have left.

* `Db.queryAs_congr` : a query depends on the store, on the manifest, and on the artifacts that this
  refers to.
* `Vault.SameButOrphans` : two vaults that differ in files that nothing refers to.
* `vacuum_transparent` : after a vacuum all reads and all later writes give what they give without
  it.
-/

namespace TraceDB

variable {S : Type} {A : ArtifactFormat S}

/-! ### What queries read -/

namespace Db

variable {Q : QueryFormat S} {index other : IndexFiles S} {db db' : Db}

/-- The queries of a handle read the same artifacts as those of another one. -/
structure SameSources (index other : IndexFiles S) (db db' : Db) : Prop where
  manifest : db'.manifest = db.manifest
  store : db'.store = db.store
  segments : ∀ segment ∈ db.manifest.segments,
    db'.disk.segments[segment.segmentId]? = db.disk.segments[segment.segmentId]?
  validateReady : ∀ segmentId, other.validateReady segmentId = index.validateReady segmentId
  readVector : ∀ i ∈ db.manifest.indexes, other.readVector i = index.readVector i

namespace SameSources

theorem sealedSegmentRecords (h : SameSources index other db db') (table tenantId : String) :
    db'.sealedSegmentRecords other table tenantId =
      db.sealedSegmentRecords index table tenantId := by
  rw [Db.sealedSegmentRecords, Db.sealedSegmentRecords, h.manifest]
  refine Except.foldlM_congr _ fun out segment hsegment => ?_
  rw [h.segments segment hsegment, h.validateReady]

theorem sealedVectorCandidates (h : SameSources index other db db') (schema : TableSchema)
    (sealedRecords : List SegmentRecord) (vectorField : Option String)
    (query : List S) (limit : ℕ) :
    db'.sealedVectorCandidatesFromIndexArtifacts Q other schema
      sealedRecords vectorField query limit =
      db.sealedVectorCandidatesFromIndexArtifacts Q index schema
        sealedRecords vectorField query limit := by
  rw [sealedVectorCandidatesFromIndexArtifacts,
    sealedVectorCandidatesFromIndexArtifacts, h.manifest]
  split_ifs
  · rfl
  · split
    · rfl
    · dsimp only
      refine congrArg (· >>= _) (Except.foldlM_congr _ fun hits i hi => ?_)
      rw [h.readVector i (List.mem_filter.1 hi).1]

theorem queryPage (h : SameSources index other db db') (env : CursorEnv) (input : QueryInput)
    (query : HybridQuery S) (cursor : CursorState) (scope : CursorScope)
    (scores : List (String × S)) :
    db'.queryPage Q other env input query cursor scope scores =
      db.queryPage Q index env input query cursor scope scores := by
  have hpaths : ∀ limit, db'.queryAccessPaths Q other input query scores limit =
      db.queryAccessPaths Q index input query scores limit := by
    intro limit
    rw [queryAccessPaths, queryAccessPaths, vectorCandidates, vectorCandidates]
    cases query.vector with
    | none => rfl
    | some vector =>
      dsimp only
      rw [h.sealedVectorCandidates]
  have hmaterialize : db'.materialize Q input cursor.snapshotEpoch =
      db.materialize Q input cursor.snapshotEpoch := by
    funext candidate
    rw [materialize, materialize, sealedVisibleRecords, sealedVisibleRecords, h.store]
  simp only [Db.queryPage, rankedCandidates, hpaths, hmaterialize]

end SameSources

/-- A query depends on the store, on the manifest, and on the artifacts that this refers to. -/
theorem queryAs_congr (h : SameSources index other db db') (env : CursorEnv)
    (cache : LexicalCorpusCache S) (actor : ActorContext) (query : HybridQuery S) :
    db'.queryAs Q other env cache actor query = db.queryAs Q index env cache actor query := by
  have hcursor : db'.queryCursor Q env actor query = db.queryCursor Q env actor query := by
    rw [queryCursor, queryCursor, h.manifest]
  have hvalidate : db'.validateQuery query = db.validateQuery query := by
    rw [validateQuery, validateQuery, h.manifest]
  rw [queryAs, queryAs, hcursor]
  cases db.queryCursor Q env actor query with
  | error e => rfl
  | ok cursor =>
    dsimp only
    rw [queryInternal, queryInternal, hvalidate, querySealed, querySealed, h.sealedSegmentRecords]
    have hvisible : db'.queryVisible Q query cursor.snapshotEpoch actor =
        db.queryVisible Q query cursor.snapshotEpoch actor := by
      rw [queryVisible, queryVisible, h.store]
    have hscores : ∀ input, db'.lexicalScores Q cache input query =
        db.lexicalScores Q cache input query := by
      intro input
      rw [lexicalScores, lexicalScores]
      cases query.text with
      | none => rfl
      | some text =>
        dsimp only
        rw [scorePreparedLexicalCorpus, scorePreparedLexicalCorpus, lexicalCacheKey,
          lexicalCacheKey, h.manifest]
    simp only [hvisible, hscores, h.queryPage]

end Db

/-! ### Files that nothing refers to -/

namespace Synced

variable {F : EngineFormat} {db : Db} {entries : List WalEntry}

/-- A write does not look at the segment objects. -/
theorem run_withSegments (h : Synced F db entries)
    (segments : Std.ExtTreeMap String SegmentObject compare) (op : Op) :
    Db.run F { db with disk := { db.disk with segments := segments } } op =
      ((db.run F op).1, { (db.run F op).2
        with disk := { (db.run F op).2.disk with segments := segments } }) := by
  have hplan : Db.plan F { db with disk := { db.disk with segments := segments } } op =
    db.plan F op := by
    cases op <;> rfl
  rw [(h.withSegments segments).run_eq, h.run_eq, hplan]
  rcases db.plan F op with e | _ | plan
  · rfl
  · rfl
  · rw [Db.outcome, Db.outcome]
    split_ifs <;> rfl

end Synced

namespace Vault

variable {vault after : Vault S}

/-- `query_as`, with the index files of the directory. -/
def query (A : ArtifactFormat S) (vault : Vault S) (env : CursorEnv) (cache : LexicalCorpusCache S)
    (actor : ActorContext) (query : HybridQuery S) :
      Result (QueryOutput S) × LexicalCorpusCache S :=
  vault.db.queryAs A.toQueryFormat ((vault.files A).indexFiles A.toF32) env cache actor query

/-- The vaults differ in files that the manifest does not refer to. -/
structure SameButOrphans (vault after : Vault S) : Prop where
  db : after.db = { vault.db with
    disk := { vault.db.disk with segments := after.db.disk.segments } }
  indexes : after.indexes = vault.indexes
  segments : ∀ segment ∈ vault.db.manifest.segments,
    after.db.disk.segments[segment.segmentId]? = vault.db.disk.segments[segment.segmentId]?
  artifacts : ∀ i ∈ vault.indexes, after.artifacts[i.indexId]? = vault.artifacts[i.indexId]?

namespace SameButOrphans

theorem manifest (h : SameButOrphans vault after) : after.db.manifest = vault.db.manifest :=
  (congrArg Db.manifest h.db).trans rfl

theorem store (h : SameButOrphans vault after) : after.db.store = vault.db.store :=
  (congrArg Db.store h.db).trans rfl

/-- Queries read the same. -/
theorem query (h : SameButOrphans vault after) (hintact : vault.Intact A) (env : CursorEnv)
    (cache : LexicalCorpusCache S) (actor : ActorContext) (query : HybridQuery S) :
    after.query A env cache actor query = vault.query A env cache actor query := by
  have hread : ∀ i ∈ vault.indexes, after.readIndexArtifact A i.indexId =
      vault.readIndexArtifact A i.indexId := by
    intro i hi
    rw [readIndexArtifact, readIndexArtifact, h.artifacts i hi]
  refine Db.queryAs_congr ⟨h.manifest, h.store, h.segments, fun segmentId => ?_, fun i hi => ?_⟩ env
    cache actor query
  · show after.validateReadyIndexesForSegment A segmentId =
      vault.validateReadyIndexesForSegment A segmentId
    rw [validateReadyIndexesForSegment, validateReadyIndexesForSegment, h.indexes]
    refine Except.forM_congr fun i hi => ?_
    rw [validateReadyIndex, validateReadyIndex, hread i (List.mem_filter.1 hi).1]
  · rw [hintact.recorded] at hi
    obtain ⟨entry, hentry, rfl⟩ := List.mem_map.1 hi
    exact congrArg (_ <$> ·) (hread entry hentry)

/-- A write gives the same. -/
theorem run (h : SameButOrphans vault after) {entries : List WalEntry}
    (hsync : Synced A.toEngineFormat vault.db entries) (op : Op) :
    (after.db.run A.toEngineFormat op).1 = (vault.db.run A.toEngineFormat op).1 ∧
      SameButOrphans { vault with db := (vault.db.run A.toEngineFormat op).2 }
        { after with db := (after.db.run A.toEngineFormat op).2 } := by
  have hrun := hsync.run_withSegments after.db.disk.segments op
  rw [← h.db] at hrun
  obtain ⟨hmanifest, hindexes, hsegments⟩ := hsync.refers_run op
  rw [hrun]
  refine ⟨rfl, rfl, h.indexes, fun segment hsegment => ?_, h.artifacts⟩
  rw [hsegments]
  exact h.segments segment (hmanifest ▸ hsegment)

/-- So do all later ones. -/
theorem afterCalls (h : SameButOrphans vault after) {entries : List WalEntry}
    (hsync : Synced A.toEngineFormat vault.db entries) (ops : List Op) :
    SameButOrphans (vault.afterCalls A (ops.map .run)) (after.afterCalls A (ops.map .run)) := by
  induction ops generalizing vault after entries with
  | nil => exact h
  | cons op ops ih =>
    obtain ⟨later, hlater⟩ := hsync.run op
    exact ih (h.run hsync op).2 hlater

end SameButOrphans

/-- The files that are kept are left as they are, and no others. -/
theorem getElem?_filter_files {κ β : Type} [LinearOrder κ] (files : Std.ExtTreeMap κ β compare)
    (keeps : κ → Bool) (k : κ) :
    (files.filter fun k _ => keeps k)[k]? = if keeps k = true then files[k]? else none := by
  rw [Std.ExtTreeMap.getElem?_filter']
  cases files[k]? with
  | none => exact (ite_self none).symm
  | some file => rfl

theorem filter_filter_files {κ β : Type} [LinearOrder κ] (files : Std.ExtTreeMap κ β compare)
    (keeps : κ → Bool) :
    (files.filter fun k _ => keeps k).filter (fun k _ => keeps k) =
      files.filter fun k _ => keeps k := by
  refine Std.ExtTreeMap.ext_getElem? fun k => ?_
  rw [getElem?_filter_files, getElem?_filter_files]
  split_ifs <;> rfl

/-- What a vacuum leaves. -/
theorem vacuum_leaves {entries : List WalEntry} (hsync : Synced A.toEngineFormat vault.db entries) :
    (vault.vacuum A).2.db.manifest = vault.db.manifest ∧
    (vault.vacuum A).2.indexes = vault.indexes ∧
      (vault.vacuum A).2.db.disk.segments = (vault.db.disk.segments.filter fun id _ =>
        decide (id ∈ vault.db.manifest.segments.map (·.segmentId))) ∧
      (vault.vacuum A).2.artifacts = vault.artifacts.filter fun id _ =>
        decide (id ∈ vault.indexes.map (·.indexId)) := by
  rw [vacuum_eq hsync]
  exact ⟨rfl, rfl, rfl, rfl⟩

theorem Sound.sameButOrphans_vacuum (h : vault.Sound A) :
    SameButOrphans vault (vault.vacuum A).2 := by
  obtain ⟨entries, hsync⟩ := h.synced
  rw [vacuum_eq hsync]
  refine ⟨rfl, rfl, fun segment hsegment => ?_, fun i hi => ?_⟩
  · exact (getElem?_filter_files vault.db.disk.segments ..).trans
      (if_pos (decide_eq_true (List.mem_map_of_mem hsegment)))
  · exact (getElem?_filter_files vault.artifacts ..).trans
      (if_pos (decide_eq_true (List.mem_map_of_mem hi)))

/-- A vacuum after a vacuum has nothing to do. -/
theorem Sound.vacuum_again (h : vault.Sound A) :
    (vault.vacuum A).2.vacuum A = (.ok 0, (vault.vacuum A).2) := by
  obtain ⟨entries, hsync⟩ := h.synced
  have hafter : Synced A.toEngineFormat (vault.vacuum A).2.db entries := by
    rw [vacuum_eq hsync]
    exact hsync.withSegments _
  have hsegments : ((vault.vacuum A).2.db.disk.segments.filter fun id _ =>
      decide (id ∈ (vault.vacuum A).2.db.manifest.segments.map (·.segmentId))) =
        (vault.vacuum A).2.db.disk.segments := by
    obtain ⟨hmanifest, -, hsegments, -⟩ := vacuum_leaves hsync
    rw [hmanifest, hsegments]
    exact filter_filter_files _ _
  have hartifacts : ((vault.vacuum A).2.artifacts.filter fun id _ =>
      decide (id ∈ (vault.vacuum A).2.indexes.map (·.indexId))) = (vault.vacuum A).2.artifacts := by
    obtain ⟨-, hindexes, -, hartifacts⟩ := vacuum_leaves hsync
    rw [hindexes, hartifacts]
    exact filter_filter_files _ _
  rw [vacuum, hafter.refresh]
  dsimp only
  rw [hsegments, hartifacts, Nat.sub_self, Nat.sub_self]

end Vault

/-- **Vacuum**: it removes the files that the manifest does not refer to and no others, and a second
one finds none; after it every sequence of writes and queries gives what it gives without it. -/
theorem vacuum_transparent {dir : String} {vault : Vault S} (h : Vault.Reachable A dir vault) :
    let after := (vault.vacuum A).2
    (after.db.manifest = vault.db.manifest ∧ after.indexes = vault.indexes) ∧
    (∀ id, after.db.disk.segments[id]? =
      if id ∈ vault.db.manifest.segments.map (·.segmentId) then vault.db.disk.segments[id]?
      else none) ∧
    (∀ id, after.artifacts[id]? =
      if id ∈ vault.indexes.map (·.indexId) then vault.artifacts[id]? else none) ∧
    after.vacuum A = (.ok 0, after) ∧
    ∀ ops : List Op,
      let without := vault.afterCalls A (ops.map .run)
      let later := after.afterCalls A (ops.map .run)
      (∀ env cache actor query, later.query A env cache actor query =
        without.query A env cache actor query) ∧
      (∀ actor table tenantId id, later.db.getAs actor table tenantId id =
        without.db.getAs actor table tenantId id) ∧
      ∀ op, (later.db.run A.toEngineFormat op).1 = (without.db.run A.toEngineFormat op).1 := by
  have hsound := h.sound
  obtain ⟨entries, hsync⟩ := hsound.synced
  obtain ⟨hmanifest, hindexes, hsegments, hartifacts⟩ := Vault.vacuum_leaves hsync
  refine ⟨⟨hmanifest, hindexes⟩, fun id => ?_, fun id => ?_, hsound.vacuum_again, fun ops => ?_⟩
  · simp only [hsegments, Vault.getElem?_filter_files, decide_eq_true_eq]
  · simp only [hartifacts, Vault.getElem?_filter_files, decide_eq_true_eq]
  · have hsame := hsound.sameButOrphans_vacuum.afterCalls hsync ops
    have hreach := h.afterCalls (ops.map .run)
    obtain ⟨later, hlater⟩ := hreach.sound.synced
    refine ⟨hsame.query hreach.intact, fun actor table tenantId id => ?_,
      fun op => (hsame.run hlater op).1⟩
    rw [hsame.db]
    rfl

/-- A vacuum of the document, before there are segments. -/
theorem document_vacuumed :
    ∃ vault : Vault ℚ, vault.db.segmentRecordsForSnapshot.length = 1 ∧
      (vault.vacuum .reference).2.vacuum .reference = (.ok 0, (vault.vacuum .reference).2) := by
  obtain ⟨vault, hreach, -, -, -, hlength⟩ := Vault.exists_plain
  exact ⟨vault, hlength, (vacuum_transparent hreach).2.2.2.1⟩

end TraceDB
