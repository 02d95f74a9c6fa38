import TraceDB.Engine.Handle

/-!
# Publishing sealed segments

`publish_segment` and `compact` (`tracedb-query`, `tracedb-segment`, `tracedb-index`): the records
visible at the current epoch are written into an immutable segment object, and the next manifest
refers to it.  A compaction also drops the segments that were published before.

The index artifacts next to a segment are recorded in the manifest only; their payloads take part
in nothing that is stated here.
-/

namespace TraceDB

/-- `sorted_unique`. -/
def sortedUnique (values : List String) : List String :=
  (values.mergeSort fun a b => decide (a ≤ b)).eraseDups

/-- `SegmentObject::from_records`. -/
def SegmentObject.fromRecords (segmentId : String) (generation : ℕ) (records : List SegmentRecord) :
    SegmentObject where
  segmentId := segmentId
  generation := generation
  state := .published
  tableSet := sortedUnique (records.map (·.table))
  tenantSet := sortedUnique (records.map (·.tenantId))
  records := records

/-- `SegmentObject::manifest`. -/
def SegmentObject.manifest (object : SegmentObject) : SegmentManifest where
  segmentId := object.segmentId
  generation := object.generation
  state := object.state
  tableSet := object.tableSet
  tenantSet := object.tenantSet

/-- `read_segment_object`. -/
def readSegmentObject (disk : Disk) (segmentId : String) : Result SegmentObject :=
  match disk.segments[segmentId]? with
  | none => .error (.io .notFound "No such file or directory (os error 2)")
  | some object => .ok object

/-- `publish_segment_records`: an object that is already there is taken as it is. -/
def publishSegmentRecords (disk : Disk) (segmentId : String) (generation : ℕ)
    (records : List SegmentRecord) : Result (SegmentObject × Disk) :=
  match disk.segments[segmentId]? with
  | some object => .ok (object, disk)
  | none =>
    if Text.isBlank segmentId then
      .error (.manifestCorruption "segment object id cannot be empty")
    else
      let object := SegmentObject.fromRecords segmentId generation records
      .ok (object, { disk with segments := disk.segments.insert segmentId object })

/-- `build_segment_indexes`: one entry per artifact of `build_segment_index_artifacts`. -/
def buildSegmentIndexes (object : SegmentObject) : List IndexManifest :=
  (["primary", "policy"] ++
    (if object.records.any fun record => !record.text.isEmpty then ["text"] else []) ++
    (if object.records.any fun record => !record.vectors.isEmpty then ["vector"] else [])).map
    fun kind =>
      { indexId := object.segmentId ++ ":" ++ kind ++ ":" ++ toString object.generation
        segmentId := object.segmentId
        generation := object.generation
        kind := kind
        state := .ready }

/-- A visible record as `segment_records_for_snapshot` copies it. -/
def segmentRecordOf (schema : TableSchema) (record : StoredRecord) : SegmentRecord where
  table := record.header.tableId
  recordId := record.header.recordId
  tenantId := record.header.tenantId
  versionId := record.header.versionId
  fields := record.fields
  text := schema.textIndexedColumns.foldl (fun text column =>
    match record.fields[column]? with
    | some (Value.string value) => text.insert column value
    | _ => text) ∅
  vectors := schema.vectorColumns.foldl (fun vectors vector =>
    match record.fields[vector.name]? with
    | some value =>
      if value.vectorDimensionCount.isSome then
        vectors.insert vector.name (value.asArray.getD [])
      else vectors
    | none => vectors) ∅

/-- The error of a publication against another manifest generation. -/
def generationMismatch (expected actual : ℕ) : TraceDbError :=
  .manifestCorruption s!"parent manifest generation mismatch: expected {expected}, got {actual}"

/-- A manifest state as `{:?}` prints it. -/
def SegmentState.debug : SegmentState → String
  | .building => "Building"
  | .built => "Built"
  | .verifying => "Verifying"
  | .verified => "Verified"
  | .publishing => "Publishing"
  | .published => "Published"
  | .superseded => "Superseded"
  | .reclaimable => "Reclaimable"

variable (F : EngineFormat)

namespace Db

variable (db : Db)

/-- `segment_records_for_snapshot`. -/
def segmentRecordsForSnapshot : List SegmentRecord :=
  let snapshot := db.store.snapshot db.manifest.latestEpoch
  db.manifest.schemas.flatMap fun schema =>
    (RecordStore.allVisibleRecords snapshot schema.name).map (segmentRecordOf schema)

/-- The manifest that a publication writes: the segments and indexes it keeps, and the new ones. -/
def manifestWithSegment (manifest : Manifest) (segments : List SegmentManifest)
    (indexes : List IndexManifest) (object : SegmentObject) : Manifest :=
  { manifest with
    segments := segments ++ [object.manifest]
    indexes := indexes ++ buildSegmentIndexes object
    manifestGeneration := manifest.manifestGeneration + 1 }.linkParent

/-- `publish_segment_with_parent_generation`. -/
def publishSegmentWithParentGeneration (segmentId : String) (parentManifestGeneration : ℕ) :
    Result Db := do
  let durable ← readManifest F db.disk
  if parentManifestGeneration ≠ durable.manifestGeneration then
    .error (generationMismatch durable.manifestGeneration parentManifestGeneration)
  else
    match durable.segments.find? fun segment => segment.segmentId = segmentId with
    | some existing =>
      if existing.state ≠ .published then
        .error (.manifestCorruption
          s!"segment {existing.segmentId} already exists in state {existing.state.debug}")
      else do
        let object ← readSegmentObject db.disk segmentId
        if object.generation ≠ existing.generation then
          .error (.manifestCorruption (s!"segment object generation mismatch: " ++
            s!"manifest {existing.generation}, object {object.generation}"))
        else .ok { db with manifest := durable }
    | none => do
      let (object, disk) ← publishSegmentRecords db.disk segmentId (durable.segments.length + 1)
        db.segmentRecordsForSnapshot
      let (manifest, disk) ← writeManifest F disk
        (manifestWithSegment durable durable.segments durable.indexes object)
      .ok { db with manifest := manifest, disk := disk }

/-- `publish_segment`. -/
def publishSegment (segmentId : String) : Result Db :=
  db.publishSegmentWithParentGeneration F segmentId db.manifest.manifestGeneration

/-- `publish_compacted_segment`. -/
def publishCompactedSegment (segmentId : String) (parentManifestGeneration : ℕ) : Result Db := do
  let durable ← readManifest F db.disk
  if parentManifestGeneration ≠ durable.manifestGeneration then
    .error (generationMismatch durable.manifestGeneration parentManifestGeneration)
  else if durable.segments.any fun segment => segment.segmentId = segmentId then
    .error (.manifestCorruption s!"compacted segment {segmentId} already exists")
  else do
    let sources := (durable.segments.filter fun segment => segment.state = .published).map
      (·.segmentId)
    let (object, disk) ← publishSegmentRecords db.disk segmentId (durable.manifestGeneration + 1)
      db.segmentRecordsForSnapshot
    let (manifest, disk) ← writeManifest F disk
      (manifestWithSegment durable
        (durable.segments.filter fun segment => segment.segmentId ∉ sources)
        (durable.indexes.filter fun index => index.segmentId ∉ sources) object)
    .ok { db with manifest := manifest, disk := disk }

/-- `compact`. -/
def compact : Result Db :=
  db.publishCompactedSegment F
    ("compact-" ++ toString db.manifest.latestEpoch ++ "-" ++
      toString (db.manifest.manifestGeneration + 1)) db.manifest.manifestGeneration

end Db

end TraceDB
