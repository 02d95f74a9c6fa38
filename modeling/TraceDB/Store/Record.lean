import TraceDB.Core.Record
import TraceDB.Data.Last

/-!
# Stored records and their version lists

One key of the store holds a list of record versions, oldest first (`tracedb-store`).  This file has
the validation of a write, the features a write computes, and the four ways a write changes a
version list: replacement, mutation (merge), deletion and feature invalidation.  Both the planning
and the applying side of the store are built from these.

`sourceHash` is the hash of a record's source columns; it is a parameter here and given by the
engine.
-/

namespace TraceDB

/-- `RecordHeader`. -/
structure RecordHeader where
  recordId : String
  tableId : String
  tenantId : String
  schemaVersion : ℕ
  beginEpoch : Epoch
  endEpoch : Option Epoch
  versionId : ℕ
  tombstone : Option String
  deriving DecidableEq

/-- A sorted map of features by name. -/
abbrev Features := Std.ExtTreeMap String DerivedFeatureState compare

/-- `StoredRecord`. -/
structure StoredRecord where
  header : RecordHeader
  fields : Fields
  features : Features
  deriving DecidableEq

/-- The versions of one key, oldest first. -/
abbrev Versions := List StoredRecord

namespace StoredRecord

variable (record : StoredRecord)

/-- `record.header.end_epoch.is_none()`. -/
def isCurrent : Bool := record.header.endEpoch.isNone

/-- `record.header.end_epoch.is_none() && record.header.tombstone.is_none()`. -/
def isLive : Bool := record.isCurrent && record.header.tombstone.isNone

/-- `begin_epoch <= epoch && end_epoch.map(|end| end > epoch).unwrap_or(true)`. -/
def spans (epoch : Epoch) : Bool :=
  decide (record.header.beginEpoch ≤ epoch) &&
    (match record.header.endEpoch with
      | none => true
      | some e => decide (epoch < e))

/-- The test of `visible_record_at`. -/
def isVisible (epoch : Epoch) : Bool := record.spans epoch && record.header.tombstone.isNone

/-- `header.end_epoch = Some(epoch)`. -/
def endAt (epoch : Epoch) : StoredRecord :=
  { record with header := { record.header with endEpoch := some epoch } }

end StoredRecord

/-! ### Validation -/

/-- `validate_record_identity`. -/
def validateRecordIdentity (schema : TableSchema) (mutation : RecordInput)
    (fields : Option Fields) : Result Unit :=
  if mutation.id = "" then .error (.invalidRecord "record id cannot be empty")
  else if mutation.tenantId = "" then .error (.invalidRecord "tenant id cannot be empty")
  else
    let fields := fields.getD mutation.fields
    if fields[schema.primaryIdColumn]?.any fun value => value.asStr ≠ some mutation.id then
      .error (.invalidRecord s!"primary id field {schema.primaryIdColumn} must match record id")
    else if fields[schema.tenantIdColumn]?.any fun value => value.asStr ≠
      some mutation.tenantId then
      .error (.invalidRecord s!"tenant field {schema.tenantIdColumn} must match tenant id")
    else .ok ()

/-- The loop of `validate_vector_dimensions`. -/
def validateVectorColumnsOf (mutation : RecordInput) : List VectorColumnSchema → Result Unit
  | [] => .ok ()
  | vector :: vectors =>
    match mutation.fields[vector.name]? with
    | none => validateVectorColumnsOf mutation vectors
    | some value =>
      let actual := value.vectorDimensionCount.getD 0
      if actual ≠ vector.dimensions then
        .error (.invalidVectorDimensions vector.name vector.dimensions actual)
      else validateVectorColumnsOf mutation vectors

/-- `validate_vector_dimensions`. -/
def validateVectorDimensions (schema : TableSchema) (mutation : RecordInput) : Result Unit :=
  validateVectorColumnsOf mutation schema.vectorColumns

/-- `validate_deletion_identity`. -/
def validateDeletionIdentity (schema : TableSchema) (deletion : RecordDeletion) : Result Unit :=
  if deletion.table ≠ schema.name then
    .error (.invalidRecord s!"record table {deletion.table} does not match schema {schema.name}")
  else if Text.isBlank deletion.id then .error (.invalidRecord "record id cannot be empty")
  else if Text.isBlank deletion.tenantId then .error (.invalidRecord "tenant id cannot be empty")
  else .ok ()

/-- The text of `NotFound` for a record. -/
def recordNotFound (table tenantId recordId : String) : TraceDbError :=
  .notFound s!"{table}:{tenantId}:{recordId}"

/-- The text of `NotFound` for a feature. -/
def featureNotFound (table recordId feature : String) : TraceDbError :=
  .notFound s!"feature {table}.{recordId}.{feature}"

/-! ### Features of a write -/

variable (sourceHash : Fields → List String → ℕ)

/-- The state `build_features` gives to one vector column, with the features so far. -/
def featureFor (mutation : RecordInput) (mergedFields : Fields) (epoch : Epoch)
    (features : Features) (vector : VectorColumnSchema) : DerivedFeatureState :=
  let sourceChanged := vector.sourceColumns.any fun source => mutation.fields.contains source
  if mutation.fields.contains vector.name then
    .ready vector.sourceColumns (sourceHash mergedFields vector.sourceColumns) epoch
  else if sourceChanged then
    let newSourceHash := sourceHash mergedFields vector.sourceColumns
    match features[vector.name]? with
    | some state => state.dirtyFrom newSourceHash epoch
    | none =>
      { DerivedFeatureState.missing vector.sourceColumns epoch with
        sourceHash := newSourceHash, status := .dirty }
  else
    match features[vector.name]? with
    | some state => state
    | none =>
      if (mergedFields[vector.name]?.bind Value.vectorDimensionCount).isSome then
        .ready vector.sourceColumns (sourceHash mergedFields vector.sourceColumns) epoch
      else .missing vector.sourceColumns epoch

/-- `build_features`. -/
def buildFeatures (schema : TableSchema) (mutation : RecordInput) (mergedFields : Fields)
    (previous : Option StoredRecord) (epoch : Epoch) : Features :=
  schema.vectorColumns.foldl
    (fun features vector =>
      features.insert vector.name
        (featureFor sourceHash mutation mergedFields epoch features vector))
    ((previous.map (·.features)).getD ∅)

/-- The header of a new version. -/
def newHeader (table tenantId id : String) (epoch : Epoch) : RecordHeader where
  recordId := id
  tableId := table
  tenantId := tenantId
  schemaVersion := 1
  beginEpoch := epoch
  endEpoch := none
  versionId := epoch
  tombstone := none

/-! ### Writes to a version list -/

/-- The loop that ends the current version. -/
def closeCurrent (epoch : Epoch) (versions : Versions) : Versions :=
  versions.modifyLastWhere StoredRecord.isCurrent (·.endAt epoch)

/-- `build_replacement_record`, without the key. -/
def buildReplacementRecord (schema : TableSchema) (input : RecordInput) (epoch : Epoch) :
    Result StoredRecord := do
  validateRecordIdentity schema input none
  validateVectorDimensions schema input
  if input.tenantId = "" then .error (.invalidRecord "tenant id cannot be empty")
  else do
    let fields := (input.fields.insert schema.primaryIdColumn (.string input.id)).insert
      schema.tenantIdColumn (.string input.tenantId)
    validateRecordIdentity schema input (some fields)
    .ok ⟨newHeader input.table input.tenantId input.id epoch, fields,
      buildFeatures sourceHash schema input fields none epoch⟩

/-- A replacement, on the versions of its key. -/
def replaceVersions (schema : TableSchema) (input : RecordInput) (epoch : Epoch)
    (versions : Versions) : Result Versions := do
  let record ← buildReplacementRecord sourceHash schema input epoch
  .ok (closeCurrent epoch versions ++ [record])

/-- `merged_fields`: the fields of the previous version with those of the mutation over them, and
the identity columns filled in where they are missing. -/
def mergedFields (schema : TableSchema) (mutation : RecordInput) (previous : Option StoredRecord) :
    Fields :=
  let merged := mutation.fields.toList.foldl (fun fields e => fields.insert e.1 e.2)
    ((previous.map (·.fields)).getD ∅)
  let merged := if merged.contains schema.primaryIdColumn then merged
    else merged.insert schema.primaryIdColumn (.string mutation.id)
  if merged.contains schema.tenantIdColumn then merged
  else merged.insert schema.tenantIdColumn (.string mutation.tenantId)

/-- The new version of a mutation, from the version it merges into. -/
def buildMutationRecord (schema : TableSchema) (mutation : RecordInput)
    (previous : Option StoredRecord) (epoch : Epoch) : Result StoredRecord := do
  validateRecordIdentity schema mutation none
  validateVectorDimensions schema mutation
  if mutation.tenantId = "" then .error (.invalidRecord "tenant id cannot be empty")
  else do
    let fields := mergedFields schema mutation previous
    validateRecordIdentity schema mutation (some fields)
    .ok ⟨newHeader mutation.table mutation.tenantId mutation.id epoch, fields,
      buildFeatures sourceHash schema mutation fields previous epoch⟩

/-- A mutation, on the versions of its key. -/
def mutateVersions (schema : TableSchema) (mutation : RecordInput) (epoch : Epoch)
    (versions : Versions) : Result Versions := do
  let previous := versions.findLast? StoredRecord.isLive
  let record ← buildMutationRecord sourceHash schema mutation previous epoch
  .ok (closeCurrent epoch versions ++ [record])

/-- The tombstone version of a deletion. -/
def tombstoneRecord (deletion : RecordDeletion) (previous : StoredRecord) (epoch : Epoch) :
    StoredRecord :=
  ⟨{ newHeader deletion.table deletion.tenantId deletion.id epoch with
      schemaVersion := previous.header.schemaVersion
      tombstone := some
        (if Text.isBlank deletion.tombstone then "user_delete" else deletion.tombstone) },
    previous.fields, previous.features⟩

/-- A deletion, on the versions of its key (`[]` when there are none). -/
def deleteVersions (schema : TableSchema) (deletion : RecordDeletion) (epoch : Epoch)
    (versions : Versions) : Result Versions := do
  validateDeletionIdentity schema deletion
  match versions.findLast? StoredRecord.isLive with
  | none => .error (recordNotFound deletion.table deletion.tenantId deletion.id)
  | some previous =>
    .ok (versions.modifyLastWhere StoredRecord.isLive (·.endAt epoch) ++
      [tombstoneRecord deletion previous epoch])

/-- Sets the status of one feature of a record. -/
def StoredRecord.setFeature (feature : String) (status : FeatureStatus) (epoch : Epoch)
    (record : StoredRecord) : StoredRecord :=
  match record.features[feature]? with
  | none => record
  | some state =>
    { record with
      features := record.features.insert feature
        { state with status := status, validForEpoch := epoch } }

/-- A feature invalidation, on the versions of its key (`[]` when there are none). -/
def invalidateVersions (invalidation : FeatureInvalidation) (epoch : Epoch) (versions : Versions) :
    Result Versions :=
  match versions.findLast? StoredRecord.isLive with
  | none => .error (recordNotFound invalidation.table invalidation.tenantId invalidation.recordId)
  | some record =>
    if record.features.contains invalidation.feature then
      .ok (versions.modifyLastWhere StoredRecord.isLive
        (·.setFeature invalidation.feature invalidation.status epoch))
    else .error (featureNotFound invalidation.table invalidation.recordId invalidation.feature)

end TraceDB
