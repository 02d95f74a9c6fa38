import TraceDB.Vault.Reading

/-!
# Handles and their artifact files

`publish_segment`, `compact` and `vacuum` (`tracedb-query`) on a handle with the segment objects and
the index artifacts of its directory, as files that are written and read again.  A call that fails
leaves the files that it has written.

Files are named by the ids of their segments and indexes, which are names of files (`SegmentId`): an
id with a path separator would name a file of another directory, or the file of another id.  A file
that is staged for its renaming is left out.
-/

namespace TraceDB

/-- `IndexManifest`, with what it says of its artifact. -/
structure IndexEntry extends IndexManifest where
  parentManifestGeneration : ℕ
  sourceSegmentChecksum : Digest
  payloadChecksum : Digest

/-- The text names a file of its own in a directory. -/
def IsFileName (text : String) : Prop := ∀ c ∈ text.toList, c ≠ '/' ∧ c.toNat ≠ 0

instance (text : String) : Decidable (IsFileName text) :=
  inferInstanceAs (Decidable (∀ c ∈ text.toList, _))

/-- The id of a segment, which names its files. -/
structure SegmentId where
  id : String
  isFileName : IsFileName id

/-- A handle with the artifact files of its directory; the segment objects are in its directory. -/
structure Vault (S : Type) where
  db : Db
  /-- `indexes/ID.tidx`, by index id. -/
  artifacts : Std.ExtTreeMap String (IndexArtifact S) compare
  /-- The indexes of the manifest. -/
  indexes : List IndexEntry

variable {S : Type} (A : ArtifactFormat S)

/-- The object that a file was written from. -/
def SegmentObject.sealed (file : SegmentObject) : Result (SealedObject S) :=
  SealedObject.fromRecords A file.segmentId file.generation
    (file.records.map (indexRecordFromSegment A.toQueryFormat))

/-- The artifacts that `build_segment_indexes` writes. -/
def SealedObject.artifacts (object : SealedObject S) (parentManifestGeneration : ℕ) :
    List (IndexArtifact S) :=
  buildSegmentIndexArtifacts A.toF32 object.segmentId object.generation parentManifestGeneration
    object.objectChecksum object.records

/-- The entry of `build_segment_indexes` for an artifact. -/
def SealedObject.indexEntry (object : SealedObject S) (parentManifestGeneration : ℕ)
    (artifact : IndexArtifact S) : IndexEntry where
  indexId := artifact.indexId
  segmentId := object.segmentId
  generation := object.generation
  kind := artifact.kind
  state := .ready
  parentManifestGeneration := parentManifestGeneration
  sourceSegmentChecksum := object.objectChecksum
  payloadChecksum := artifact.payloadChecksum A

namespace Vault

/-! ### Reading -/

/-- `read_segment_object`. -/
def readSegmentObject (disk : Disk) (segmentId : String) : Result (SealedObject S) :=
  match disk.segments[segmentId]? with
  | none => .error (.io .notFound "No such file or directory (os error 2)")
  | some file => do
    let written ← file.sealed A
    match written.reread A with
    | none => .error .json
    | some object => do
      object.verify A
      .ok object

variable (vault : Vault S)

/-- `read_index_artifact`. -/
def readIndexArtifact (indexId : String) : Result (IndexArtifact S) :=
  match vault.artifacts[indexId]? with
  | none => .error (.io .notFound "No such file or directory (os error 2)")
  | some artifact =>
    match artifact.reread A with
    | none => .error .json
    | some artifact => .ok artifact

/-- One index of `validate_ready_indexes_for_segment`. -/
def validateReadyIndex (index : IndexEntry) : Result Unit :=
  match vault.readIndexArtifact A index.indexId with
  | .error e =>
    .error (.artifactCorruption
      ("index artifact " ++ index.indexId ++ " failed verification: " ++ e.text))
  | .ok artifact =>
    if index.payloadChecksum ≠ Digest.zero ∧ artifact.payloadChecksum A ≠ index.payloadChecksum then
      .error (.artifactCorruption ("index artifact " ++ index.indexId ++
        " payload checksum mismatch: manifest " ++ debugDigest index.payloadChecksum ++
        ", artifact " ++ debugDigest (artifact.payloadChecksum A)))
    else if index.sourceSegmentChecksum ≠ Digest.zero ∧
        artifact.sourceSegmentChecksum ≠ index.sourceSegmentChecksum then
      .error (.artifactCorruption ("index artifact " ++ index.indexId ++
        " source segment checksum mismatch"))
    else .ok ()

/-- `validate_ready_indexes_for_segment`. -/
def validateReadyIndexesForSegment (segmentId : String) : Result Unit :=
  (vault.indexes.filter fun index => index.segmentId = segmentId ∧ index.state = .ready).forM
    (vault.validateReadyIndex A)

/-- The index files that queries of the handle read. -/
def files : ArtifactFiles S where
  validateReady := vault.validateReadyIndexesForSegment A
  readArtifact index := vault.readIndexArtifact A index.indexId

/-! ### Publishing -/

/-- `write_segment_object`, of an object that has been verified. -/
def writeObject (file : SegmentObject) : Vault S :=
  { vault with
    db := { vault.db with
      disk := { vault.db.disk with segments := vault.db.disk.segments.insert file.segmentId file } }
        }

/-- `write_index_artifact`, of several artifacts. -/
def writeArtifacts (artifacts : List (IndexArtifact S)) : Vault S :=
  { vault with
    artifacts := artifacts.foldl (fun files artifact => files.insert artifact.indexId artifact)
      vault.artifacts }

/-- `publish_segment_records_with_encryption`: an object that is already there is read as it is. -/
def publishSegmentRecords (segmentId : String) (generation : ℕ) (records : List SegmentRecord) :
    Result (SealedObject S) × Vault S :=
  match vault.db.disk.segments[segmentId]? with
  | some _ => (readSegmentObject A vault.db.disk segmentId, vault)
  | none =>
    let file := SegmentObject.fromRecords segmentId generation records
    match file.sealed A >>= fun object => object.verify A with
    | .error e => (.error e, vault)
    | .ok () =>
      let vault := vault.writeObject file
      (readSegmentObject A vault.db.disk segmentId, vault)

/-- The end of a publication: the object and its artifacts are written, and a manifest that keeps
some of the segments and refers to the object. -/
def publishObject (segmentId : String) (generation : ℕ) (durable : Manifest)
    (keeps : String → Bool) :
    Result Unit × Vault S :=
  match vault.publishSegmentRecords A segmentId generation vault.db.segmentRecordsForSnapshot with
  | (.error e, vault) => (.error e, vault)
  | (.ok object, vault) =>
    let artifacts := object.artifacts A durable.manifestGeneration
    let entries := artifacts.map (object.indexEntry A durable.manifestGeneration)
    let vault := vault.writeArtifacts artifacts
    let next : Manifest := { durable with
      segments := (durable.segments.filter fun segment => keeps segment.segmentId) ++
        [object.manifest]
      indexes := (durable.indexes.filter fun index => keeps index.segmentId) ++
        entries.map (·.toIndexManifest)
      manifestGeneration := durable.manifestGeneration + 1 }
    match writeManifest A.toEngineFormat vault.db.disk next.linkParent with
    | .error e => (.error e, vault)
    | .ok (manifest, disk) =>
      (.ok (), { vault with
        db := { vault.db with manifest := manifest, disk := disk }
        indexes := (vault.indexes.filter fun index => keeps index.segmentId) ++ entries })

/-- `publish_segment_with_parent_generation`. -/
def publishSegmentWithParentGeneration (segmentId : String) (parentManifestGeneration : ℕ) :
    Result Unit × Vault S :=
  match readManifest A.toEngineFormat vault.db.disk with
  | .error e => (.error e, vault)
  | .ok durable =>
    if parentManifestGeneration ≠ durable.manifestGeneration then
      (.error (generationMismatch durable.manifestGeneration parentManifestGeneration), vault)
    else
      match durable.segments.find? fun segment => segment.segmentId = segmentId with
      | some existing =>
        if existing.state ≠ .published then
          (.error (.manifestCorruption
            s!"segment {existing.segmentId} already exists in state {existing.state.debug}"), vault)
        else
          match readSegmentObject A vault.db.disk segmentId with
          | .error e => (.error e, vault)
          | .ok object =>
            if object.generation ≠ existing.generation then
              (.error (.manifestCorruption (s!"segment object generation mismatch: " ++
                s!"manifest {existing.generation}, object {object.generation}")), vault)
            else (.ok (), { vault with db := { vault.db with manifest := durable } })
      | none => vault.publishObject A segmentId (durable.segments.length + 1) durable fun _ => true

/-- `publish_segment`. -/
def publishSegment (segmentId : String) : Result Unit × Vault S :=
  vault.publishSegmentWithParentGeneration A segmentId vault.db.manifest.manifestGeneration

/-- `publish_compacted_segment`. -/
def publishCompactedSegment (segmentId : String) (parentManifestGeneration : ℕ) :
    Result Unit × Vault S :=
  match readManifest A.toEngineFormat vault.db.disk with
  | .error e => (.error e, vault)
  | .ok durable =>
    if parentManifestGeneration ≠ durable.manifestGeneration then
      (.error (generationMismatch durable.manifestGeneration parentManifestGeneration), vault)
    else if durable.segments.any fun segment => segment.segmentId = segmentId then
      (.error (.manifestCorruption s!"compacted segment {segmentId} already exists"), vault)
    else
      let sources := (durable.segments.filter fun segment => segment.state = .published).map
        (·.segmentId)
      vault.publishObject A segmentId (durable.manifestGeneration + 1)
        durable fun id => id ∉ sources

/-- The segment id of `compact`. -/
def compactId : String :=
  "compact-" ++ toString vault.db.manifest.latestEpoch ++ "-" ++
    toString (vault.db.manifest.manifestGeneration + 1)

/-- `compact`. -/
def compact : Result Unit × Vault S :=
  vault.publishCompactedSegment A vault.compactId vault.db.manifest.manifestGeneration

/-! ### Vacuum -/

/-- `vacuum`: how many files were removed, and what is left. -/
def vacuum : Result ℕ × Vault S :=
  match vault.db.refreshFromDiskIfStale A.toEngineFormat with
  | .error e => (.error e, vault)
  | .ok db =>
    let segments := db.disk.segments.filter fun id _ =>
      decide (id ∈ db.manifest.segments.map (·.segmentId))
    let artifacts := vault.artifacts.filter fun id _ => decide (id ∈ vault.indexes.map (·.indexId))
    (.ok (db.disk.segments.size - segments.size + (vault.artifacts.size - artifacts.size)),
      { vault with
        db := { db with disk := { db.disk with segments := segments } }
        artifacts := artifacts })

end Vault

end TraceDB
