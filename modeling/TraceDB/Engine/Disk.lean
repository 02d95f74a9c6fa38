import TraceDB.Log.Wal
import TraceDB.Store.Basic

/-!
# The database directory

The files of a database directory and the functions that read and write them
(`tracedb-query`): the manifest with its backup, the write-ahead log, checkpoints and sealed
segments.

* `EngineFormat` has the library functions the engine calls besides those of the log.
* `readManifest` falls back to the backup when the primary cannot be read or parsed.
* `writeManifest` copies the backup, writes a temporary file and renames it.

Encryption keys are not modelled: every file is read and written in the clear.
-/

namespace TraceDB

/-! ### The manifest -/

/-- `SegmentState`. -/
inductive SegmentState where
  | building
  | built
  | verifying
  | verified
  | publishing
  | published
  | superseded
  | reclaimable
  deriving DecidableEq, Repr

/-- `SegmentManifest`. -/
structure SegmentManifest where
  segmentId : String
  generation : ℕ
  state : SegmentState
  tableSet : List String
  tenantSet : List String
  deriving DecidableEq

/-- `IndexState`. -/
inductive IndexState where
  | pending
  | building
  | ready
  | stale
  | superseded
  | reclaimable
  | failed
  deriving DecidableEq, Repr

/-- `IndexManifest`, as far as publishing and compaction look at it. -/
structure IndexManifest where
  indexId : String
  segmentId : String
  generation : ℕ
  kind : String
  state : IndexState
  deriving DecidableEq

/-- `ManifestChecksums`. -/
structure ManifestChecksums where
  parentChecksum : Digest
  manifestChecksum : Digest
  deriving DecidableEq

/-- `TraceDbManifest`, the fields the engine changes or reads. -/
structure Manifest where
  manifestGeneration : ℕ
  databaseId : String
  branchId : String
  latestEpoch : Epoch
  durableEpoch : Epoch
  checkpointEpoch : Epoch
  schemas : List TableSchema
  segments : List SegmentManifest
  indexes : List IndexManifest
  checksums : ManifestChecksums
  deriving DecidableEq

/-- `TraceDbManifest::empty`. -/
def Manifest.empty (databaseId : String) : Manifest where
  manifestGeneration := 1
  databaseId := databaseId
  branchId := "main"
  latestEpoch := 0
  durableEpoch := 0
  checkpointEpoch := 0
  schemas := []
  segments := []
  indexes := []
  checksums := ⟨Digest.zero, Digest.zero⟩

/-- `CheckpointPayload`. -/
structure CheckpointPayload where
  formatVersion : ℕ
  epoch : Epoch
  schemas : List TableSchema
  records : List StoredRecord
  idempotencyReceipts : List IdempotencyReceipt
  jobCatalog : JobCatalog
  deriving DecidableEq

/-- `SegmentRecord`. -/
structure SegmentRecord where
  table : String
  recordId : String
  tenantId : String
  versionId : ℕ
  fields : Fields
  text : Std.ExtTreeMap String String compare
  vectors : Std.ExtTreeMap String (List Value) compare
  deriving DecidableEq

/-- `SegmentObject`, as far as it is read back. -/
structure SegmentObject where
  segmentId : String
  generation : ℕ
  state : SegmentState
  tableSet : List String
  tenantSet : List String
  records : List SegmentRecord
  deriving DecidableEq

/-- The library functions the engine depends on. -/
structure EngineFormat extends WalFormat where
  /-- No digest is all zero; the code takes the zero digest for a missing one. -/
  checksumBytes_ne_zero : ∀ bs, checksumBytes bs ≠ Digest.zero
  /-- `serde_json` at `TraceDbManifest`: `to_vec_pretty` and `from_str`. -/
  manifestCodec : JsonCodec Manifest
  /-- A manifest holds strings and whole numbers only. -/
  manifestCodec_readsBack : ∀ manifest, manifestCodec.ReadsBack manifest
  /-- `serde_json::to_vec` at `TraceDbManifest`, which the checksum is taken of. -/
  manifestBytes : Manifest → Bytes
  /-- `serde_json` at `CheckpointPayload`. -/
  checkpointCodec : JsonCodec CheckpointPayload
  /-- `serde_json::to_vec` at `JobCatalog`. -/
  jobCatalogBytes : JobCatalog → Bytes
  /-- `Value::to_string`. -/
  valueToString : Value → String

/-- Every commit and every checkpoint is read back: what the results over all reachable handles take
`serde_json` to do.  `checkpoint_transparent` does not, and `EngineFormat.nested` is not so. -/
class EngineFormat.Lossless (F : EngineFormat) : Prop extends F.toWalFormat.Lossless where
  checkpoint : ∀ payload, F.checkpointCodec.ReadsBack payload

/-! ### The directory -/

/-- The files of a database directory. -/
structure Disk where
  /-- The path of the directory. -/
  dir : String
  /-- `manifest.tdb`. -/
  manifest : Option Bytes
  /-- `manifest.tdb.bak`. -/
  manifestBak : Option Bytes
  /-- `manifest.tdb.tmp`. -/
  manifestTmp : Option Bytes
  /-- `wal/000001.twal`; a missing file is created empty. -/
  wal : Bytes
  /-- `checkpoints/checkpoint-N.tchk`, by epoch. -/
  checkpoints : Std.ExtTreeMap ℕ Bytes compare
  /-- `segments/ID.tseg`, by segment id. -/
  segments : Std.ExtTreeMap String SegmentObject compare
  /-- `jobs/catalog.tjobs`, which nothing reads. -/
  jobs : Option Bytes
  /-- `jobs/catalog.tjobs.tmp`. -/
  jobsTmp : Option Bytes

/-- A directory with no files in it. -/
def Disk.empty (dir : String) : Disk where
  dir := dir
  manifest := none
  manifestBak := none
  manifestTmp := none
  wal := []
  checkpoints := ∅
  segments := ∅
  jobs := none
  jobsTmp := none

/-- A digest as `{:?}` prints it. -/
def debugDigest (d : Digest) : String :=
  "[" ++ String.intercalate ", " (d.bytes.map fun b => toString b.toNat) ++ "]"

variable (F : EngineFormat)

/-- `database_id_from_path`. -/
def databaseIdFromPath (path : String) : String :=
  "db-" ++ String.join (((F.checksumBytes (utf8 path)).bytes.take 4).map hexByte)

/-- `source_hash`. -/
def sourceHash (fields : Fields) (sourceColumns : List String) : ℕ :=
  Bytes.ofLe ((F.checksumBytes (sourceColumns.flatMap fun column =>
    utf8 column ++ [0x3d] ++
      (match fields[column]? with
        | some value => utf8 (F.valueToString value)
        | none => []) ++ [0])).bytes.take 8)

/-! ### Reading and writing the manifest -/

/-- `compute_manifest_checksum`. -/
def computeManifestChecksum (manifest : Manifest) : Digest :=
  F.checksumBytes (F.manifestBytes
    { manifest with checksums := { manifest.checksums with manifestChecksum := Digest.zero } })

/-- What `write_manifest` does to the manifest before it writes it: fill in its checksum. -/
def sealManifest (manifest : Manifest) : Manifest :=
  { manifest with
    checksums := { manifest.checksums with
      manifestChecksum := computeManifestChecksum F manifest } }

/-- `read_manifest_inner`, on the content of the file.  A file that is not UTF-8 fails to parse
too; both errors allow the fallback. -/
def readManifestInner (file : Option Bytes) : Result Manifest :=
  match file with
  | none => .error (.io .notFound "No such file or directory (os error 2)")
  | some body =>
    match F.manifestCodec.decode body with
    | none => .error .json
    | some manifest =>
      let expected := manifest.checksums.manifestChecksum
      if expected = Digest.zero then
        .error (.manifestCorruption "missing manifest checksum")
      else
        let actual := computeManifestChecksum F manifest
        if actual ≠ expected then
          .error (.manifestCorruption
            (s!"manifest checksum mismatch: expected {debugDigest expected}, " ++
              s!"got {debugDigest actual}"))
        else .ok manifest

/-- `manifest_read_error_can_fallback`. -/
def manifestReadErrorCanFallback : TraceDbError → Bool
  | .json => true
  | .io .notFound _ | .io .invalidData _ | .io .unexpectedEof _ => true
  | _ => false

/-- `read_manifest`. -/
def readManifest (disk : Disk) : Result Manifest :=
  match readManifestInner F disk.manifest with
  | .ok manifest => .ok manifest
  | .error e =>
    if manifestReadErrorCanFallback e then
      if disk.manifestBak.isSome then readManifestInner F disk.manifestBak else .error e
    else .error e

/-- `copy_manifest_backup`. -/
def copyManifestBackup (disk : Disk) : Result Disk :=
  match disk.manifest with
  | none => .ok disk
  | some body =>
    match readManifestInner F (some body) with
    | .error e => if manifestReadErrorCanFallback e then .ok disk else .error e
    | .ok _ => .ok { disk with manifestBak := some body }

/-- `write_manifest`: the manifest with its checksum, and the directory afterwards. -/
def writeManifest (disk : Disk) (manifest : Manifest) : Result (Manifest × Disk) := do
  let manifest := sealManifest F manifest
  let body := F.manifestCodec.encode manifest
  let disk ← copyManifestBackup F disk
  -- The temporary file is gone once it has been renamed.
  .ok (manifest, { disk with manifest := some body, manifestTmp := none })

/-! ### Checkpoint files -/

/-- `CHECKPOINT_MAGIC_V3`: `TDBCHK03`. -/
def checkpointMagicV3 : Bytes := [0x54, 0x44, 0x42, 0x43, 0x48, 0x4b, 0x30, 0x33]

/-- `CHECKPOINT_FORMAT_VERSION`. -/
def checkpointFormatVersion : ℕ := 4

/-- The body `write_checkpoint_file` writes. -/
def checkpointBody (payload : CheckpointPayload) : Bytes :=
  let bytes := F.checkpointCodec.encode payload
  checkpointMagicV3 ++ (F.checksumBytes bytes).bytes ++ bytes

/-- `write_checkpoint_file`. -/
def writeCheckpointFile (disk : Disk) (epoch : Epoch) (schemas : List TableSchema)
    (records : List StoredRecord) (receipts : List IdempotencyReceipt) (jobs : JobCatalog) : Disk :=
  { disk with
    checkpoints := disk.checkpoints.insert epoch
      (checkpointBody F ⟨checkpointFormatVersion, epoch, schemas, records, receipts, jobs⟩) }

/-- The text of a checkpoint file, read. -/
def checkpointFromSlice (path : String) (payload : Bytes) : Result CheckpointPayload :=
  match F.checkpointCodec.decode payload with
  | none => .error (.manifestCorruption s!"failed to parse checkpoint file at {path}")
  | some payload =>
    if payload.formatVersion ≠ checkpointFormatVersion then
      .error (.manifestCorruption s!"unsupported checkpoint format version {payload.formatVersion}")
    else .ok payload

/-- `read_checkpoint_file`, for the format the engine writes. -/
def readCheckpointFile (disk : Disk) (epoch : Epoch) : Result CheckpointPayload :=
  let path := disk.dir ++ "/checkpoints/checkpoint-" ++ toString epoch ++ ".tchk"
  match disk.checkpoints[epoch]? with
  | none => .error (.manifestCorruption s!"failed to read checkpoint file at {path}")
  | some body =>
    if !checkpointMagicV3.isPrefixOf body then
      .error (.manifestCorruption s!"checkpoint magic mismatch at {path}")
    else if body.length ≤ checkpointMagicV3.length + 32 then
      .error (.manifestCorruption s!"checkpoint payload missing at {path}")
    else
      let expected := Digest.ofSlice (Bytes.slice body 8 40)
      let payload := body.drop 40
      if expected = Digest.zero then
        .error (.manifestCorruption s!"missing checkpoint checksum at {path}")
      else if F.checksumBytes payload ≠ expected then
        let actual := F.checksumBytes payload
        .error (.manifestCorruption (s!"checkpoint checksum mismatch at {path}: " ++
          s!"expected {debugDigest expected}, got {debugDigest actual}"))
      else do
        let payload ← decryptArtifactIfNeeded payload
        checkpointFromSlice F path payload

/-! ### What was written is read back -/

variable {F}

/-- A manifest that carries its own checksum. -/
def Sealed (F : EngineFormat) (manifest : Manifest) : Prop :=
  manifest.checksums.manifestChecksum = computeManifestChecksum F manifest

theorem sealed_sealManifest (manifest : Manifest) : Sealed F (sealManifest F manifest) := rfl

/-- A manifest is read back. -/
theorem EngineFormat.decode_encode_manifest (F : EngineFormat) (manifest : Manifest) :
    F.manifestCodec.decode (F.manifestCodec.encode manifest) = some manifest :=
  F.manifestCodec_readsBack manifest

/-- A sealed manifest is read back from its file. -/
theorem readManifestInner_encode {manifest : Manifest} (h : Sealed F manifest) :
    readManifestInner F (some (F.manifestCodec.encode manifest)) = .ok manifest := by
  have hne : manifest.checksums.manifestChecksum ≠ Digest.zero := by
    rw [show manifest.checksums.manifestChecksum = _ from h]
    exact F.checksumBytes_ne_zero _
  have heq : ¬ computeManifestChecksum F manifest ≠ manifest.checksums.manifestChecksum :=
    not_not.2 h.symm
  simp only [readManifestInner, F.decode_encode_manifest, hne, heq, if_false]

theorem readManifest_of_manifest {disk : Disk} {manifest : Manifest} (h : Sealed F manifest)
    (hdisk : disk.manifest = some (F.manifestCodec.encode manifest)) :
    readManifest F disk = .ok manifest := by
  simp only [readManifest, hdisk, readManifestInner_encode h]

/-- Writing over a readable manifest moves it to the backup. -/
theorem writeManifest_of_manifest {disk : Disk} {old : Manifest} (h : Sealed F old)
    (hdisk : disk.manifest = some (F.manifestCodec.encode old)) (manifest : Manifest) :
    writeManifest F disk manifest = .ok (sealManifest F manifest,
      { disk with
        manifest := some (F.manifestCodec.encode (sealManifest F manifest))
        manifestBak := some (F.manifestCodec.encode old)
        manifestTmp := none }) := by
  simp only [writeManifest, copyManifestBackup, hdisk, readManifestInner_encode h, Except.ok_bind]

theorem readCheckpointFile_congr {disk disk' : Disk} (hdir : disk'.dir = disk.dir)
    (hcheckpoints : disk'.checkpoints = disk.checkpoints) (epoch : Epoch) :
    readCheckpointFile F disk' epoch = readCheckpointFile F disk epoch := by
  simp only [readCheckpointFile, hdir, hcheckpoints]

/-- A checkpoint file is what its text is read as. -/
theorem readCheckpointFile_body {disk : Disk} {epoch : Epoch} {payload : CheckpointPayload}
    (hdisk : disk.checkpoints[epoch]? = some (checkpointBody F payload)) :
    readCheckpointFile F disk epoch = checkpointFromSlice F
      (disk.dir ++ "/checkpoints/checkpoint-" ++ toString epoch ++ ".tchk")
      (F.checkpointCodec.encode payload) := by
  have hmagic : checkpointMagicV3.length = 8 := by decide
  have hpre : checkpointMagicV3.isPrefixOf (checkpointBody F payload) = true := by
    rw [List.isPrefixOf_iff_prefix, checkpointBody, List.append_assoc]
    exact List.prefix_append _ _
  have hslice : Bytes.slice (checkpointBody F payload) 8 40 =
      (F.checksumBytes (F.checkpointCodec.encode payload)).bytes := by
    rw [checkpointBody, Bytes.slice_append_left (by simp [hmagic]),
      Bytes.slice_append_right (by rw [hmagic]), hmagic, Bytes.slice_self _ (by simp)]
  have hdrop : (checkpointBody F payload).drop 40 = F.checkpointCodec.encode payload := by
    rw [checkpointBody]
    exact List.drop_left' (by simp [hmagic])
  have hlen : ¬ (checkpointBody F payload).length ≤ checkpointMagicV3.length + 32 := by
    have hpos := List.length_pos_iff.2 (F.checkpointCodec.encode_ne_nil payload)
    simp only [checkpointBody, List.length_append, Digest.length_bytes]
    omega
  simp only [readCheckpointFile, hdisk, hpre, Bool.not_true, Bool.false_eq_true, if_false, hlen,
    hslice, Digest.ofSlice_bytes, F.checksumBytes_ne_zero, hdrop, ne_eq, not_true_eq_false,
    decryptArtifactIfNeeded, isEncryptedArtifact_encode, Except.ok_bind]

theorem readCheckpointFile_of_body {disk : Disk} {epoch : Epoch} {payload : CheckpointPayload}
    (hversion : payload.formatVersion = checkpointFormatVersion)
    (hback : F.checkpointCodec.ReadsBack payload)
    (hdisk : disk.checkpoints[epoch]? = some (checkpointBody F payload)) :
    readCheckpointFile F disk epoch = .ok payload := by
  rw [JsonCodec.ReadsBack] at hback
  simp only [readCheckpointFile_body hdisk, checkpointFromSlice, hback, hversion, ne_eq,
    not_true_eq_false, if_false]

/-- A checkpoint whose text is not read is an error. -/
theorem readCheckpointFile_of_unread {disk : Disk} {epoch : Epoch} {payload : CheckpointPayload}
    (hnone : F.checkpointCodec.decode (F.checkpointCodec.encode payload) = none)
    (hdisk : disk.checkpoints[epoch]? = some (checkpointBody F payload)) :
    ∃ e, readCheckpointFile F disk epoch = .error e := by
  rw [readCheckpointFile_body hdisk, checkpointFromSlice, hnone]
  exact ⟨_, rfl⟩

end TraceDB
