import TraceDB.Core.Text
import TraceDB.Engine.Handle

/-!
# Reads of a handle

`get`, `scan`, `feature_state` and the tombstone test at the latest epoch (`tracedb-query`), and
`SameReads`, which says that two handles answer all of them alike.  `Db.view` is the whole of what a
handle shows.
-/

namespace TraceDB

/-- `RecordOutput`. -/
structure RecordOutput where
  table : String
  id : String
  tenantId : String
  versionId : ℕ
  fields : Fields
  deriving DecidableEq

/-- `record_output`. -/
def recordOutput (record : StoredRecord) : RecordOutput where
  table := record.header.tableId
  id := record.header.recordId
  tenantId := record.header.tenantId
  versionId := record.header.versionId
  fields := record.fields

/-- `RecordScanRequest`. -/
structure RecordScanRequest where
  table : String
  tenantId : String
  limit : ℕ
  cursor : Option String

/-- `RecordScanOutput`. -/
structure RecordScanOutput where
  records : List RecordOutput
  nextCursor : Option String
  returnedCount : ℕ
  deriving DecidableEq

/-- `parse_legacy_cursor_offset`. -/
def parseLegacyCursorOffset (cursor : Option String) : Result ℕ :=
  match cursor with
  | none => .ok 0
  | some value =>
    if Text.isBlank value then .error (.invalidCommand "cursor must be a non-empty offset")
    else
      match parseUsize value with
      | none => .error (.invalidCommand s!"invalid cursor offset: {value}")
      | some offset => .ok offset

namespace Db

variable (db : Db)

/-- `get`. -/
def get (table tenantId id : String) : Result (Option RecordOutput) := do
  let _ ← tableOrUnknown db.manifest.schemas table
  .ok ((db.store.getRecord table tenantId id db.manifest.latestEpoch).map recordOutput)

/-- `scan`. -/
def scan (request : RecordScanRequest) : Result RecordScanOutput := do
  let _ ← tableOrUnknown db.manifest.schemas request.table
  let limit := max request.limit 1
  let cursorOffset ← parseLegacyCursorOffset request.cursor
  let records := (db.store.visibleRecordsAt request.table request.tenantId
    db.manifest.latestEpoch).mergeSort fun left right =>
      decide (left.header.recordId ≤ right.header.recordId)
  let page := ((records.drop cursorOffset).take (min (limit + 1) usizeMax)).map recordOutput
  let records := page.take limit
  .ok
    { records := records
      nextCursor :=
        if limit < page.length then some (toString (cursorOffset + records.length)) else none
      returnedCount := records.length }

/-- `feature_state`. -/
def featureState (table tenantId recordId feature : String) : Result DerivedFeatureState :=
  match db.store.featureState table tenantId recordId feature db.manifest.latestEpoch with
  | none => .error (featureNotFound table recordId feature)
  | some state => .ok state

/-- `is_tombstoned_at` of the store, at the latest epoch. -/
def isTombstoned (table tenantId recordId : String) : Bool :=
  db.store.isTombstonedAt table tenantId recordId db.manifest.latestEpoch

end Db

/-- A record as readers see it: identity, fields and feature states. -/
structure VisibleRecord where
  table : String
  tenantId : String
  id : String
  fields : Fields
  features : Features
  deriving DecidableEq

/-- The part of a stored record that readers see. -/
def StoredRecord.visible (record : StoredRecord) : VisibleRecord where
  table := record.header.tableId
  tenantId := record.header.tenantId
  id := record.header.recordId
  fields := record.fields
  features := record.features

/-- What a handle shows at its latest epoch. -/
structure View where
  latestEpoch : Epoch
  schemas : List TableSchema
  records : List VisibleRecord
  isTombstoned : String → String → String → Bool
  idempotencyReceipts : List IdempotencyReceipt
  jobCatalog : JobCatalog

/-- The view of a handle. -/
def Db.view (db : Db) : View where
  latestEpoch := db.manifest.latestEpoch
  schemas := db.manifest.schemas
  records := (db.store.snapshot db.manifest.latestEpoch).map StoredRecord.visible
  isTombstoned := db.isTombstoned
  idempotencyReceipts := db.idempotencyReceipts
  jobCatalog := db.jobCatalog

/-- Two handles answer alike. -/
structure SameReads (a b : Db) : Prop where
  latestEpoch : a.manifest.latestEpoch = b.manifest.latestEpoch
  schemas : a.manifest.schemas = b.manifest.schemas
  get : ∀ table tenantId id, a.get table tenantId id = b.get table tenantId id
  scan : ∀ request, a.scan request = b.scan request
  featureState : ∀ table tenantId recordId feature,
    a.featureState table tenantId recordId feature = b.featureState table tenantId recordId feature
  isTombstoned : ∀ table tenantId recordId,
    a.isTombstoned table tenantId recordId = b.isTombstoned table tenantId recordId
  idempotencyReceipts : a.idempotencyReceipts = b.idempotencyReceipts
  jobCatalog : a.jobCatalog = b.jobCatalog

/-- The answers to a sequence of operations on a handle. -/
def Db.replies (F : EngineFormat) (db : Db) : List Op → List (Result Reply)
  | [] => []
  | op :: ops => (db.run F op).1 :: Db.replies F (db.run F op).2 ops

end TraceDB
