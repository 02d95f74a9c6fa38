import TraceDB.Core.Record
import TraceDB.Jobs.Catalog

/-!
# Commits

`CommitRecord` is the unit of the write-ahead log: everything one write operation of the engine
decided, with the schema changes, record writes, deletions, invalidations, receipts and job events
that recovery replays.
-/

namespace TraceDB

/-- `CommitRecord`. -/
structure CommitRecord where
  databaseId : String
  branchId : String
  transactionId : ℕ
  epoch : Epoch
  parentEpoch : Epoch
  previousCommitHash : Digest
  idempotencyKey : Option String
  schemaEpoch : Epoch
  policyEpoch : Epoch
  schemaChanges : List TableSchema
  replacements : List RecordInput
  mutations : List RecordInput
  deletions : List RecordDeletion
  featureInvalidations : List FeatureInvalidation
  moduleEvents : List ModuleCommitEvent
  idempotencyReceipts : List IdempotencyReceipt
  jobEvents : List JobEvent
  commitMarker : String
  deriving DecidableEq

namespace CommitRecord

/-- `CommitRecord::empty`. -/
def empty (transactionId : ℕ) (epoch : Epoch) : CommitRecord where
  databaseId := "local"
  branchId := "main"
  transactionId := transactionId
  epoch := epoch
  parentEpoch := epoch - 1
  previousCommitHash := Digest.zero
  idempotencyKey := none
  schemaEpoch := epoch
  policyEpoch := epoch
  schemaChanges := []
  replacements := []
  mutations := []
  deletions := []
  featureInvalidations := []
  moduleEvents := []
  idempotencyReceipts := []
  jobEvents := []
  commitMarker := "COMMITTED"

/-- `CommitRecord::for_database`. -/
def forDatabase (commit : CommitRecord) (databaseId branchId : String) : CommitRecord :=
  { commit with databaseId := databaseId, branchId := branchId }

/-- `prepare_commit_for_frame`: the frame fills in the hash of the commit before it. -/
def prepareForFrame (commit : CommitRecord) (previousChecksum : Digest) : CommitRecord :=
  { commit with previousCommitHash := previousChecksum }

/-- The commits the engine builds: marked as committed, at an epoch after their parent's. -/
structure Engine (commit : CommitRecord) : Prop where
  marker : commit.commitMarker = "COMMITTED"
  epoch_pos : 0 < commit.epoch
  parent_lt : commit.parentEpoch < commit.epoch

/-- A commit without the hash that its frame fills in. -/
def content (commit : CommitRecord) : CommitRecord := commit.prepareForFrame Digest.zero

variable {commit : CommitRecord}

@[simp] theorem prepareForFrame_epoch (d : Digest) :
    (commit.prepareForFrame d).epoch = commit.epoch := rfl

@[simp] theorem prepareForFrame_previousCommitHash (d : Digest) :
    (commit.prepareForFrame d).previousCommitHash = d := rfl

@[simp] theorem content_prepareForFrame (d : Digest) :
    (commit.prepareForFrame d).content = commit.content := rfl

theorem Engine.prepareForFrame (h : commit.Engine) (d : Digest) :
    (commit.prepareForFrame d).Engine :=
  ⟨h.marker, h.epoch_pos, h.parent_lt⟩

end CommitRecord

end TraceDB
