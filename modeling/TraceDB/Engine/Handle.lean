import TraceDB.Engine.Disk
import TraceDB.Engine.Schemas

/-!
# The database handle

`TraceDb` (`tracedb-query`): opening a directory, and the write operations of an open handle.

* `Db.open` reads the manifest and the log, loads the checkpoint and replays the commits after it.
* `Db.write` is what all write operations share: refresh, plan, append the commit to the log,
  install the planned changes, publish the next manifest.  Each operation is `Db.write` at its plan.
* `Db.checkpoint` writes a checkpoint file, publishes it in the manifest and empties the log.
* `Op` and `Db.run` : the operations as data, for statements about runs.

Operations return the handle next to their result, since a failing one keeps the handle.
-/

namespace TraceDB

/-- `TraceDb`, together with the directory it is open on. -/
structure Db where
  disk : Disk
  manifest : Manifest
  store : RecordStore
  walTail : WalTail
  walTornTail : Option TornWalTail
  idempotencyReceipts : List IdempotencyReceipt
  jobCatalog : JobCatalog
  lastRecoveryTornTail : Option TornWalTail

namespace Db

/-- The log handle, on the log file of the directory. -/
def wal (db : Db) : Log := ⟨db.walTail, db.walTornTail, db.disk.wal⟩

/-- Puts the log handle back. -/
def setWal (db : Db) (wal : Log) : Db :=
  { db with
    disk := { db.disk with wal := wal.file }
    walTail := wal.tail
    walTornTail := wal.recoveryTornTail }

end Db

variable (F : EngineFormat)

/-! ### Opening -/

/-- What `open` rebuilds in memory. -/
structure Recovered where
  manifest : Manifest
  store : RecordStore
  idempotencyReceipts : List IdempotencyReceipt
  jobCatalog : JobCatalog

/-- The first lines of `open`: a directory without manifest and backup gets an empty manifest. -/
def initializeManifest (disk : Disk) : Result Disk :=
  if disk.manifest.isNone && disk.manifestBak.isNone then do
    let (_, disk) ← writeManifest F disk (.empty (databaseIdFromPath F disk.dir))
    .ok disk
  else .ok disk

/-- The part of `open` that loads the checkpoint the manifest names. -/
def loadCheckpoint (disk : Disk) (manifest : Manifest) : Result Recovered :=
  if manifest.latestEpoch < manifest.checkpointEpoch then
    .error (.manifestCorruption
      s!"checkpoint epoch {manifest.checkpointEpoch} exceeds latest epoch {manifest.latestEpoch}")
  else if 0 < manifest.checkpointEpoch then do
    let checkpoint ← readCheckpointFile F disk manifest.checkpointEpoch
    if checkpoint.epoch ≠ manifest.checkpointEpoch then
      .error (.manifestCorruption
        s!"checkpoint epoch mismatch: manifest {manifest.checkpointEpoch}, file {checkpoint.epoch}")
    else
      let schemas := if manifest.schemas = [] then checkpoint.schemas else manifest.schemas
      .ok ⟨{ manifest with schemas := schemas }, .fromCheckpointRecords checkpoint.records,
        checkpoint.idempotencyReceipts, checkpoint.jobCatalog⟩
  else .ok ⟨manifest, .empty, [], .empty⟩

/-- `job_catalog.apply_event(event).map_err(TraceDbError::InvalidCommand)`. -/
def replayJobEvent (catalog : JobCatalog) (event : JobEvent) : Result JobCatalog :=
  (catalog.applyEvent event).mapError .invalidCommand

/-- The part of `open` that replays commits. -/
def replayCommits (recovered : Recovered) (commits : List CommitRecord) : Result Recovered := do
  let schemas := (commits.flatMap (·.schemaChanges)).foldl upsertSchema recovered.manifest.schemas
  let receipts := recovered.idempotencyReceipts ++ commits.flatMap (·.idempotencyReceipts)
  let jobCatalog ← (commits.flatMap (·.jobEvents)).foldlM replayJobEvent recovered.jobCatalog
  let store ← recovered.store.applyCommits (sourceHash F) schemas commits
  .ok ⟨{ recovered.manifest with schemas := schemas }, store, receipts, jobCatalog⟩

/-- A manifest moved on to an epoch, without its checksums. -/
def Manifest.advance (manifest : Manifest) (epoch : Epoch) : Manifest :=
  { manifest with
    latestEpoch := epoch
    durableEpoch := epoch
    manifestGeneration := manifest.manifestGeneration + 1 }

/-- A manifest that names its predecessor by checksum. -/
def Manifest.linkParent (manifest : Manifest) : Manifest :=
  { manifest with
    checksums := { manifest.checksums with parentChecksum := manifest.checksums.manifestChecksum } }

/-- The end of `open`: when the log is ahead of the manifest, a manifest that has caught up is
written. -/
def catchUpManifest (disk : Disk) (manifest : Manifest) (commits : List CommitRecord) :
    Result (Manifest × Disk) :=
  match commits.getLast? with
  | none => .ok (manifest, disk)
  | some lastCommit =>
    if manifest.latestEpoch < lastCommit.epoch then
      writeManifest F disk (manifest.advance lastCommit.epoch)
    else .ok (manifest, disk)

/-- The commits a manifest does not cover by its checkpoint. -/
def commitsAfterCheckpoint (manifest : Manifest) (commits : List CommitRecord) :
    List CommitRecord :=
  commits.filter fun commit => manifest.checkpointEpoch < commit.epoch

/-- The part of `open` between the scan of the log and the last manifest write. -/
def recover (disk : Disk) (manifest : Manifest) (commits : List CommitRecord) :
    Result Recovered := do
  let recovered ← loadCheckpoint F disk manifest
  replayCommits F recovered commits

/-- `TraceDb::open`. -/
def Db.open (disk : Disk) : Result Db := do
  let disk ← initializeManifest F disk
  let manifest ← readManifest F disk
  let wal ← Log.open F.toWalFormat (some disk.wal)
  let disk := { disk with wal := wal.file }
  let scan ← wal.scanWithMetadata F.toWalFormat
  let commits := commitsAfterCheckpoint manifest (scan.entries.map (·.commit))
  let recovered ← recover F disk manifest commits
  let (manifest, disk) ← catchUpManifest F disk recovered.manifest commits
  .ok
    { disk := disk
      manifest := manifest
      store := recovered.store
      walTail := wal.tail
      walTornTail := wal.recoveryTornTail
      idempotencyReceipts := recovered.idempotencyReceipts
      jobCatalog := recovered.jobCatalog
      lastRecoveryTornTail := scan.tornTail }

/-! ### The frame of a write operation -/

/-- What an operation hands back to its caller. -/
inductive Reply where
  | epoch (epoch : Epoch)
  | job (job : TraceJob)
  | noJob
  deriving DecidableEq

/-- What an operation has decided to do before anything is written. -/
structure PlannedWrite where
  commit : CommitRecord
  delta : RecordStoreDelta
  /-- The catalog after a job event; it is written to the jobs file as well. -/
  jobCatalog : Option JobCatalog
  reply : Reply

/-- The error of a second `open` while the handle holds the engine lock. -/
def engineLocked (dir : String) : TraceDbError :=
  .io .alreadyExists ("Engine directory is already locked by another process. Check " ++ dir ++
    "/engine.lock for the PID.")

namespace Db

variable (db : Db)

/-- The epoch of the next commit. -/
def nextEpoch : Epoch := db.manifest.latestEpoch + 1

/-- `refresh_from_disk_if_stale`.  A stale handle opens the directory again, which its own engine
lock refuses. -/
def refreshFromDiskIfStale : Result Db := do
  let durableManifest ← readManifest F db.disk
  let (walLastEpoch, wal) ← db.wal.lastCommitEpoch F.toWalFormat
  let walIsNewer := walLastEpoch.any fun lastEpoch => db.manifest.latestEpoch < lastEpoch
  let manifestIsNewer :=
    decide (db.manifest.latestEpoch < durableManifest.latestEpoch) ||
      decide (db.manifest.checkpointEpoch < durableManifest.checkpointEpoch) ||
      decide (db.manifest.manifestGeneration < durableManifest.manifestGeneration)
  if walIsNewer || manifestIsNewer then .error (engineLocked db.disk.dir)
  else .ok (db.setWal wal)

/-- `bump_manifest`: the handle has the new epoch even when the manifest cannot be written. -/
def bumpManifest (epoch : Epoch) : Result Unit × Db :=
  let bumped := db.manifest.advance epoch
  match writeManifest F db.disk bumped.linkParent with
  | .error e => (.error e, { db with manifest := bumped })
  | .ok (manifest, disk) => (.ok (), { db with manifest := manifest, disk := disk })

/-- `write_job_catalog_file`. -/
def writeJobCatalogFile (disk : Disk) (catalog : JobCatalog) : Disk :=
  { disk with jobs := some (F.jobCatalogBytes catalog), jobsTmp := none }

/-- The changes of a planned write in memory, once its commit is in the log. -/
def install (plan : PlannedWrite) : Db :=
  { db with
    manifest := { db.manifest with
      schemas := plan.commit.schemaChanges.foldl upsertSchema db.manifest.schemas }
    store := db.store.applyDelta plan.delta
    idempotencyReceipts := db.idempotencyReceipts ++ plan.commit.idempotencyReceipts
    jobCatalog := plan.jobCatalog.getD db.jobCatalog }

/-- A planned write is carried out: commit to the log, changes in memory, next manifest, jobs
file. -/
def commitPlanned (plan : PlannedWrite) : Result Reply × Db :=
  match db.wal.appendCommit F.toWalFormat .ok plan.commit with
  | (.error e, wal) => (.error e, db.setWal wal)
  | (.ok _, wal) =>
    match ((db.setWal wal).install plan).bumpManifest F plan.commit.epoch with
    | (.error e, db) => (.error e, db)
    | (.ok (), db) =>
      match plan.jobCatalog with
      | none => (.ok plan.reply, db)
      | some catalog =>
        (.ok plan.reply, { db with disk := writeJobCatalogFile F db.disk catalog })

/-- The frame of every write operation, with the plan of the operation. -/
def write (plan : Db → Result PlannedWrite) : Result Reply × Db :=
  match db.refreshFromDiskIfStale F with
  | .error e => (.error e, db)
  | .ok db =>
    match plan db with
    | .error e => (.error e, db)
    | .ok planned => db.commitPlanned F planned

end Db

/-! ### Pieces of commits -/

/-- `feature_invalidations_for_mutation`. -/
def featureInvalidationsForMutation (schema : TableSchema) (input : RecordInput) :
    List FeatureInvalidation :=
  (schema.vectorColumns.filter fun vector => !input.fields.contains vector.name &&
    vector.sourceColumns.any fun source => input.fields.contains source).map fun vector =>
      ⟨input.table, input.tenantId, input.id, vector.name, .dirty⟩

/-- `module_events_for_schema`. -/
def moduleEventsForSchema (event : String) (schema : TableSchema) : List ModuleCommitEvent :=
  (if schema.textIndexedColumns = [] then [] else [⟨"tracedb-text", event⟩]) ++
    (if schema.vectorColumns = [] then [] else [⟨"tracedb-vector", event⟩])

/-- `http_ok_json`, on the text of the body. -/
def httpOkJson (body : String) : String :=
  "HTTP/1.1 200 OK\r\ncontent-type: application/json\r\ncontent-length: " ++
    toString body.utf8ByteSize ++ "\r\n\r\n" ++ body

/-- The body `{"epoch":n}`. -/
def epochBody (epoch : Epoch) : String := "\x7b\"epoch\":" ++ toString epoch ++ "\x7d"

/-- The body of a deletion. -/
def deletedBody (epoch : Epoch) : String :=
  "\x7b\"deleted\":true,\"epoch\":" ++ toString epoch ++ "\x7d"

/-- The body of a batch. -/
def batchBody (epoch : Epoch) (recordCount : ℕ) : String :=
  "\x7b\"epoch\":" ++ toString epoch ++ ",\"record_count\":" ++ toString recordCount ++ "\x7d"

/-- `idempotency_receipts_for_response`. -/
def idempotencyReceiptsForResponse (receipt : Option IdempotencyReceipt) (body : String) :
    List IdempotencyReceipt :=
  (receipt.map fun receipt => { receipt with response := httpOkJson body }).toList

namespace Db

variable (db : Db)

/-- `CommitRecord::empty(epoch.get(), epoch).for_database(..)` at the next epoch. -/
def emptyCommit : CommitRecord :=
  (CommitRecord.empty db.nextEpoch db.nextEpoch).forDatabase db.manifest.databaseId
    db.manifest.branchId

/-- The commit that record writes start from: its schema and policy epochs are the current
epoch. -/
def recordCommit : CommitRecord :=
  { db.emptyCommit with
    schemaEpoch := db.manifest.latestEpoch
    policyEpoch := db.manifest.latestEpoch }

/-! ### Plans -/

/-- `validate_schema_compatible`. -/
def validateSchemaCompatible (schema : TableSchema) : Result Unit :=
  match findTable db.manifest.schemas schema.name with
  | none => .ok ()
  | some existing =>
    let rows := RecordStore.allVisibleRecords
      (db.store.snapshot db.manifest.latestEpoch) schema.name
    if rows = [] then .ok ()
    else if schema.primaryIdColumn ≠ existing.primaryIdColumn then
      .error (.invalidSchema (s!"incompatible schema change for table {schema.name}: " ++
        "primary id column cannot change after committed rows exist"))
    else if schema.tenantIdColumn ≠ existing.tenantIdColumn then
      .error (.invalidSchema (s!"incompatible schema change for table {schema.name}: " ++
        "tenant id column cannot change after committed rows exist"))
    else
      existing.vectorColumns.forM fun existingVector =>
        match schema.vectorColumns.find? fun vector => vector.name = existingVector.name with
        | none => .ok ()
        | some newVector =>
          if newVector.dimensions ≠ existingVector.dimensions then
            .error (.invalidSchema
              (s!"incompatible schema change for vector column {existingVector.name}: " ++
                s!"existing committed rows use {existingVector.dimensions} dimensions, " ++
                s!"new schema uses {newVector.dimensions}"))
          else .ok ()

/-- The plan of `apply_schema`. -/
def planSchema (schema : TableSchema) (receipt : Option IdempotencyReceipt) :
    Result PlannedWrite := do
  schema.validate
  db.validateSchemaCompatible schema
  let epoch := db.nextEpoch
  .ok
    { commit := { db.emptyCommit with
        idempotencyReceipts := idempotencyReceiptsForResponse receipt (epochBody epoch)
        schemaChanges := [schema]
        moduleEvents := ⟨"tracedb-kernel", "schema.apply"⟩ ::
          moduleEventsForSchema "schema.apply" schema }
      delta := .empty
      jobCatalog := none
      reply := .epoch epoch }

/-- The plan of `insert` and `patch`, which differ in the name of their module event. -/
def planMerge (event : String) (input : RecordInput) (receipt : Option IdempotencyReceipt) :
    Result PlannedWrite := do
  let schema ← tableOrUnknown db.manifest.schemas input.table
  let epoch := db.nextEpoch
  let delta ← db.store.planMutation (sourceHash F) schema input epoch
  .ok
    { commit := { db.recordCommit with
        mutations := [input]
        featureInvalidations := featureInvalidationsForMutation schema input
        moduleEvents := moduleEventsForSchema event schema
        idempotencyReceipts := idempotencyReceiptsForResponse receipt (epochBody epoch) }
      delta := delta
      jobCatalog := none
      reply := .epoch epoch }

/-- The plan of `put`. -/
def planPut (input : RecordInput) (receipt : Option IdempotencyReceipt) : Result PlannedWrite := do
  let schema ← tableOrUnknown db.manifest.schemas input.table
  let epoch := db.nextEpoch
  let delta ← db.store.planReplacement (sourceHash F) schema input epoch
  .ok
    { commit := { db.recordCommit with
        replacements := [input]
        featureInvalidations := featureInvalidationsForMutation schema input
        moduleEvents := moduleEventsForSchema "record.put" schema
        idempotencyReceipts := idempotencyReceiptsForResponse receipt (epochBody epoch) }
      delta := delta
      jobCatalog := none
      reply := .epoch epoch }

/-- What the loop of `put_batch` collects. -/
structure Batch where
  delta : RecordStoreDelta
  featureInvalidations : List FeatureInvalidation
  moduleEvents : List ModuleCommitEvent

/-- The body of the loop of `put_batch`. -/
def planBatchRecord (batch : Batch) (input : RecordInput) : Result Batch := do
  let schema ← tableOrUnknown db.manifest.schemas input.table
  let delta ← db.store.planReplacementInto (sourceHash F) batch.delta schema input db.nextEpoch
  .ok
    { delta := delta
      featureInvalidations :=
        batch.featureInvalidations ++ featureInvalidationsForMutation schema input
      moduleEvents := (moduleEventsForSchema "record.put" schema).foldl
        (fun events event => if event ∈ events then events else events ++ [event])
        batch.moduleEvents }

/-- The plan of `put_batch`. -/
def planPutBatch (records : List RecordInput) (receipt : Option IdempotencyReceipt) :
    Result PlannedWrite :=
  if records = [] then .error (.invalidCommand "batch put requires at least one record")
  else do
    let epoch := db.nextEpoch
    let batch ← records.foldlM (db.planBatchRecord F) ⟨.empty, [], []⟩
    .ok
      { commit := { db.recordCommit with
          replacements := records
          featureInvalidations := batch.featureInvalidations
          moduleEvents := batch.moduleEvents
          idempotencyReceipts :=
            idempotencyReceiptsForResponse receipt (batchBody epoch records.length) }
        delta := batch.delta
        jobCatalog := none
        reply := .epoch epoch }

/-- The plan of `delete`. -/
def planDelete (deletion : RecordDeletion) (receipt : Option IdempotencyReceipt) :
    Result PlannedWrite := do
  let schema ← tableOrUnknown db.manifest.schemas deletion.table
  let epoch := db.nextEpoch
  let delta ← db.store.planDelete schema deletion epoch
  .ok
    { commit := { db.recordCommit with
        deletions := [deletion]
        moduleEvents := moduleEventsForSchema "record.delete" schema
        idempotencyReceipts := idempotencyReceiptsForResponse receipt (deletedBody epoch) }
      delta := delta
      jobCatalog := none
      reply := .epoch epoch }

/-- The plan of `set_feature_status`, after the check of the tenant. -/
def planFeatureStatus (invalidation : FeatureInvalidation) : Result PlannedWrite := do
  let schema ← tableOrUnknown db.manifest.schemas invalidation.table
  if !schema.vectorColumns.any fun vector => vector.name = invalidation.feature then
    .error (featureNotFound invalidation.table invalidation.recordId invalidation.feature)
  else do
    let epoch := db.nextEpoch
    let delta ← db.store.planFeatureInvalidation invalidation epoch
    .ok
      { commit := { db.recordCommit with
          featureInvalidations := [invalidation]
          moduleEvents := [⟨"tracedb-features", "feature.status.set"⟩] }
        delta := delta
        jobCatalog := none
        reply := .epoch epoch }

/-- The plan of `record_idempotency_receipt`. -/
def planReceipt (receipt : IdempotencyReceipt) : PlannedWrite where
  commit := { db.recordCommit with
    moduleEvents := [⟨"tracedb-kernel", "idempotency.receipt"⟩]
    idempotencyReceipts := [receipt] }
  delta := .empty
  jobCatalog := none
  reply := .epoch db.nextEpoch

/-- The plan of `append_job_event`. -/
def planJobEvent (event : JobEvent) (planned : JobCatalog) (reply : Reply) : PlannedWrite where
  commit := { db.recordCommit with
    moduleEvents := [⟨"tracedb-jobs", "job.event"⟩]
    jobEvents := [event] }
  delta := .empty
  jobCatalog := some planned
  reply := reply

/-! ### The operations -/

/-- `apply_schema_with_idempotency_receipt`. -/
def applySchema (schema : TableSchema) (receipt : Option IdempotencyReceipt) : Result Reply × Db :=
  db.write F fun db => db.planSchema schema receipt

/-- `insert_with_idempotency_receipt`. -/
def insert (input : RecordInput) (receipt : Option IdempotencyReceipt) : Result Reply × Db :=
  db.write F fun db => db.planMerge F "insert.index" input receipt

/-- `put_with_idempotency_receipt`. -/
def put (input : RecordInput) (receipt : Option IdempotencyReceipt) : Result Reply × Db :=
  db.write F fun db => db.planPut F input receipt

/-- `put_batch_with_idempotency_receipt`. -/
def putBatch (records : List RecordInput) (receipt : Option IdempotencyReceipt) :
    Result Reply × Db :=
  db.write F fun db => db.planPutBatch F records receipt

/-- `put_batch_with_write_timing`, without the timing: it looks up all tables before it plans, and
takes no receipt. -/
def putBatchWithWriteTiming (records : List RecordInput) : Result Reply × Db :=
  db.write F fun db =>
    if records = [] then .error (.invalidCommand "batch put requires at least one record")
    else do
      let _ ← records.mapM fun input => tableOrUnknown db.manifest.schemas input.table
      db.planPutBatch F records none

/-- `patch_with_idempotency_receipt`. -/
def patch (input : RecordInput) (receipt : Option IdempotencyReceipt) : Result Reply × Db :=
  db.write F fun db => db.planMerge F "record.patch" input receipt

/-- `delete_with_idempotency_receipt`. -/
def delete (deletion : RecordDeletion) (receipt : Option IdempotencyReceipt) : Result Reply × Db :=
  db.write F fun db => db.planDelete deletion receipt

/-- `set_feature_status`. -/
def setFeatureStatus (invalidation : FeatureInvalidation) : Result Reply × Db :=
  if Text.isBlank invalidation.tenantId then
    (.error (.invalidRecord "tenant id cannot be empty"), db)
  else db.write F fun db => db.planFeatureStatus invalidation

/-- `record_idempotency_receipt`. -/
def recordIdempotencyReceipt (receipt : IdempotencyReceipt) : Result Reply × Db :=
  db.write F fun db => .ok (db.planReceipt receipt)

/-- `append_job_event`, for a catalog that was planned on the handle as it was before. -/
def appendJobEvent (event : JobEvent) (planned : JobCatalog) (reply : Reply) : Result Reply × Db :=
  db.write F fun db => .ok (db.planJobEvent event planned reply)

/-- `enqueue_job`. -/
def enqueueJob (kind : JobKind) (target idempotencyKey : String) : Result Reply × Db :=
  let (planned, job) := db.jobCatalog.enqueue kind target idempotencyKey
  db.appendJobEvent F (.enqueued job) planned (.job job)

/-- `lease_job`. -/
def leaseJob (workerId : String) (kind : JobKind) (nowMs leaseMs : ℕ) : Result Reply × Db :=
  match db.jobCatalog.leaseNextAt workerId kind nowMs leaseMs with
  | (_, none) => (.ok .noJob, db)
  | (planned, some job) =>
    db.appendJobEvent F
      (.leased job.jobId workerId (job.leaseToken.getD "")
        (job.leaseExpiresAtMs.getD (saturatingAddU64 nowMs leaseMs))) planned (.job job)

/-- `heartbeat_job`. -/
def heartbeatJob (jobId leaseToken : String) (nowMs leaseMs : ℕ) : Result Reply × Db :=
  match db.jobCatalog.heartbeat jobId leaseToken nowMs leaseMs with
  | .error e => (.error (.invalidCommand e), db)
  | .ok (planned, job) =>
    db.appendJobEvent F
      (.heartbeat jobId leaseToken
        (job.leaseExpiresAtMs.getD (saturatingAddU64 nowMs leaseMs))) planned (.job job)

/-- `complete_job`. -/
def completeJob (jobId leaseToken : String) : Result Reply × Db :=
  match db.jobCatalog.complete jobId (some leaseToken) with
  | .error e => (.error (.invalidCommand e), db)
  | .ok (planned, job) => db.appendJobEvent F (.completed jobId leaseToken) planned (.job job)

/-- `fail_job`. -/
def failJob (jobId : String) (leaseToken : Option String) (error : String) (permanent : Bool)
    (nowMs : ℕ) : Result Reply × Db :=
  match db.jobCatalog.fail jobId leaseToken error permanent nowMs with
  | .error e => (.error (.invalidCommand e), db)
  | .ok (planned, job) =>
    db.appendJobEvent F (.failed jobId leaseToken error permanent nowMs) planned (.job job)

/-- `checkpoint`, up to and including the publication of the manifest: the epoch and the published
manifest, and the directory.  One that fails leaves the file of the checkpoint. -/
def publishCheckpoint : Result (Epoch × Manifest) × Disk :=
  let epoch := db.manifest.latestEpoch
  let disk := writeCheckpointFile F db.disk epoch db.manifest.schemas
    (db.store.checkpointRecords epoch) db.idempotencyReceipts db.jobCatalog
  match readManifest F disk with
  | .error e => (.error e, disk)
  | .ok manifest =>
    if manifest.latestEpoch ≠ epoch then
      (.error (.manifestCorruption
        (s!"checkpoint handle is stale: handle epoch {epoch}, " ++
          s!"manifest epoch {manifest.latestEpoch}")),
        disk)
    else
      let next : Manifest := { manifest with
        checkpointEpoch := epoch
        manifestGeneration := manifest.manifestGeneration + 1 }
      match writeManifest F disk next.linkParent with
      | .error e => (.error e, disk)
      | .ok (manifest, disk) => (.ok (epoch, manifest), disk)

/-- `checkpoint`. -/
def checkpoint : Result Epoch × Db :=
  match db.publishCheckpoint F with
  | (.error e, disk) => (.error e, { db with disk := disk })
  | (.ok (epoch, manifest), disk) =>
    -- `truncate_active_wal`, and a new log handle on the empty file.
    match Log.open F.toWalFormat (some []) with
    | .error e => (.error e, { db with disk := { disk with wal := [] } })
    | .ok wal =>
      (.ok epoch, { db.setWal wal with manifest := manifest, disk := { disk with
        wal := wal.file } })

end Db

/-! ### Runs -/

/-- The write operations of a handle. -/
inductive Op where
  | applySchema (schema : TableSchema) (receipt : Option IdempotencyReceipt)
  | insert (input : RecordInput) (receipt : Option IdempotencyReceipt)
  | put (input : RecordInput) (receipt : Option IdempotencyReceipt)
  | putBatch (records : List RecordInput) (receipt : Option IdempotencyReceipt)
  | patch (input : RecordInput) (receipt : Option IdempotencyReceipt)
  | delete (deletion : RecordDeletion) (receipt : Option IdempotencyReceipt)
  | setFeatureStatus (invalidation : FeatureInvalidation)
  | recordIdempotencyReceipt (receipt : IdempotencyReceipt)
  | enqueueJob (kind : JobKind) (target idempotencyKey : String)
  | leaseJob (workerId : String) (kind : JobKind) (nowMs leaseMs : ℕ)
  | heartbeatJob (jobId leaseToken : String) (nowMs leaseMs : ℕ)
  | completeJob (jobId leaseToken : String)
  | failJob (jobId : String) (leaseToken : Option String) (error : String) (permanent : Bool)
      (nowMs : ℕ)

namespace Db

/-- One operation on a handle. -/
def run (db : Db) : Op → Result Reply × Db
  | .applySchema schema receipt => db.applySchema F schema receipt
  | .insert input receipt => db.insert F input receipt
  | .put input receipt => db.put F input receipt
  | .putBatch records receipt => db.putBatch F records receipt
  | .patch input receipt => db.patch F input receipt
  | .delete deletion receipt => db.delete F deletion receipt
  | .setFeatureStatus invalidation => db.setFeatureStatus F invalidation
  | .recordIdempotencyReceipt receipt => db.recordIdempotencyReceipt F receipt
  | .enqueueJob kind target key => db.enqueueJob F kind target key
  | .leaseJob workerId kind nowMs leaseMs => db.leaseJob F workerId kind nowMs leaseMs
  | .heartbeatJob jobId token nowMs leaseMs => db.heartbeatJob F jobId token nowMs leaseMs
  | .completeJob jobId token => db.completeJob F jobId token
  | .failJob jobId token error permanent nowMs => db.failJob F jobId token error permanent nowMs

/-- A run of operations on one handle; a failing operation does not stop it. -/
def runAll (db : Db) (ops : List Op) : Db := ops.foldl (fun db op => (db.run F op).2) db

end Db

end TraceDB
