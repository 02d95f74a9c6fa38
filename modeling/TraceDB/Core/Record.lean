import TraceDB.Core.Schema
import TraceDB.Data.Bytes

/-!
# Records, features and receipts

The records that travel through commits (`tracedb-core`): inputs, deletions, feature invalidations
and idempotency receipts, and the state of a derived feature.
-/

namespace TraceDB

/-- `Epoch`: the commit counter. -/
abbrev Epoch := ℕ

/-- `FeatureStatus`. -/
inductive FeatureStatus where
  | ready
  | dirty
  | pending
  | failed
  | missing
  deriving DecidableEq, Repr

/-- `DerivedFeatureState`. -/
structure DerivedFeatureState where
  sourceColumns : List String
  sourceHash : ℕ
  modelId : Option String
  modelVersion : Option String
  createdEpoch : Epoch
  validForEpoch : Epoch
  status : FeatureStatus
  deriving DecidableEq

namespace DerivedFeatureState

/-- `DerivedFeatureState::ready`. -/
def ready (sourceColumns : List String) (sourceHash : ℕ) (epoch : Epoch) : DerivedFeatureState where
  sourceColumns := sourceColumns
  sourceHash := sourceHash
  modelId := none
  modelVersion := none
  createdEpoch := epoch
  validForEpoch := epoch
  status := .ready

/-- `DerivedFeatureState::missing`. -/
def missing (sourceColumns : List String) (epoch : Epoch) : DerivedFeatureState where
  sourceColumns := sourceColumns
  sourceHash := 0
  modelId := none
  modelVersion := none
  createdEpoch := epoch
  validForEpoch := epoch
  status := .missing

/-- `DerivedFeatureState::dirty_from`. -/
def dirtyFrom (previous : DerivedFeatureState) (sourceHash : ℕ) (epoch : Epoch) :
    DerivedFeatureState :=
  { previous with sourceHash := sourceHash, validForEpoch := epoch, status := .dirty }

end DerivedFeatureState

/-- `RecordInput`. -/
structure RecordInput where
  table : String
  id : String
  tenantId : String
  fields : Fields
  deriving DecidableEq

/-- `RecordDeletion`. -/
structure RecordDeletion where
  table : String
  id : String
  tenantId : String
  tombstone : String
  deriving DecidableEq

/-- `FeatureInvalidation`. -/
structure FeatureInvalidation where
  table : String
  tenantId : String
  recordId : String
  feature : String
  status : FeatureStatus
  deriving DecidableEq

/-- `ModuleCommitEvent`. -/
structure ModuleCommitEvent where
  moduleId : String
  event : String
  deriving DecidableEq

/-- `IdempotencyReceipt`. -/
structure IdempotencyReceipt where
  method : String
  path : String
  key : String
  bodyHash : String
  actorTenantId : String
  databaseId : String
  branchId : String
  tokenIdentity : String
  response : String
  deriving DecidableEq

end TraceDB
