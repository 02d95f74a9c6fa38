import TraceDB.Data.Traverse
import TraceDB.Index.Artifact

/-!
# Reading back what was written

Segment objects and index artifacts are files of JSON text.  `serde_json` reads a number as one that
is near to it, a float that is not finite is written as `null`, which is read as no float, and a
value is read only within the recursion limit.  A file is modelled by the value that it was written
from, and reading it is `reread`.

The binary envelope around the text and the encryption of files are left out.
-/

namespace TraceDB

/-- `SegmentObject`, with the vectors of its records.  Its format version, its state history and the
fields that are computed from the others are left out. -/
structure SealedObject (S : Type) where
  segmentId : String
  generation : ℕ
  state : SegmentState
  tableSet : List String
  tenantSet : List String
  records : List (IndexRecord S)
  payloadChecksum : Digest
  objectChecksum : Digest

/-- The libraries that artifact files rest on. -/
structure ArtifactFormat (S : Type) extends QueryFormat S, EngineFormat where
  /-- A finite `f64`, written by `serde_json` and read again. -/
  rereadF64 : UInt64 → Option UInt64
  /-- A finite `f32`, written by `serde_json` and read again. -/
  rereadF32 : S → Option S
  /-- `bincode::serialize` of segment records. -/
  recordsBytes : List (IndexRecord S) → Bytes
  /-- `serde_json::to_vec` of a segment object. -/
  objectBytes : SealedObject S → Bytes
  /-- `serialize_index_artifact_payload`. -/
  artifactBytes : IndexArtifact S → Bytes
  /-- The commits and checkpoints of the engine are read back. -/
  lossless : toEngineFormat.Lossless

instance ArtifactFormat.instLossless {S : Type} (A : ArtifactFormat S) :
    A.toEngineFormat.Lossless :=
  A.lossless

variable {S : Type} (A : ArtifactFormat S)

/-! ### Values -/

/-- A JSON number, written and read again. -/
def rereadNumber : Number → Option Number
  | .float bits => (A.rereadF64 bits).map .float
  | n => some n

/-- An `f32`, written and read again. -/
def rereadFloat (x : S) : Option S := if A.isFinite x then A.rereadF32 x else none

mutual

/-- A JSON value, written and read again without a recursion limit. -/
def rereadValue : Value → Option Value
  | .number n => (rereadNumber A n).map .number
  | .array items => (rereadItems items).map .array
  | .object fields => (rereadFields fields).map .object
  | v => some v

/-- The items of an array, written and read again. -/
def rereadItems : List Value → Option (List Value)
  | [] => some []
  | v :: vs => do
    let v ← rereadValue v
    let vs ← rereadItems vs
    some (v :: vs)

/-- The entries of an object, written and read again. -/
def rereadFields : List (String × Value) → Option (List (String × Value))
  | [] => some []
  | (name, v) :: fields => do
    let v ← rereadValue v
    let fields ← rereadFields fields
    some ((name, v) :: fields)

end

/-- A value, written inside of a number of arrays and objects and read again. -/
def readBackValue (outer : ℕ) (v : Value) : Option Value :=
  if v.nesting + outer ≤ jsonNestingLimit then rereadValue A v else none

/-! ### Segment objects -/

/-- Around a value of a segment record there are its fields, the record, the records and the
object. -/
def segmentOuter : ℕ := 4

/-- A segment record, written and read again. -/
def IndexRecord.reread (record : IndexRecord S) : Option (IndexRecord S) := do
  let fields ← SortedMap.traverse (readBackValue A segmentOuter) record.fields
  let vectors ← SortedMap.traverse (fun vector => vector.mapM (rereadFloat A)) record.vectors
  some { record with fields := fields, vectors := vectors }

namespace SealedObject

/-- An object, written and read again. -/
def reread (object : SealedObject S) : Option (SealedObject S) := do
  let records ← object.records.mapM (·.reread A)
  some { object with records := records }

/-- `compute_segment_object_checksum`. -/
def computeChecksum (object : SealedObject S) : Result Digest :=
  match ({ object with objectChecksum := Digest.zero }).reread A with
  | none => .error .json
  | some again => .ok (A.checksumBytes (A.objectBytes again))

/-- `SegmentObject::from_records`. -/
def fromRecords (segmentId : String) (generation : ℕ) (records : List (IndexRecord S)) :
    Result (SealedObject S) := do
  let object : SealedObject S :=
    { segmentId := segmentId
      generation := generation
      state := .published
      tableSet := sortedUnique (records.map (·.table))
      tenantSet := sortedUnique (records.map (·.tenantId))
      records := records
      payloadChecksum := A.checksumBytes (A.recordsBytes records)
      objectChecksum := Digest.zero }
  let checksum ← object.computeChecksum A
  .ok { object with objectChecksum := checksum }

/-- `verify_segment_object`, for the format that is written. -/
def verify (object : SealedObject S) : Result Unit :=
  if Text.isBlank object.segmentId then
    .error (.manifestCorruption "segment object id cannot be empty")
  else if object.payloadChecksum = Digest.zero then
    .error (.manifestCorruption s!"segment object {object.segmentId} has empty payload checksum")
  else do
    let actual ← object.computeChecksum A
    if actual ≠ object.objectChecksum then
      .error (.manifestCorruption ("segment object checksum mismatch: expected " ++
        debugDigest object.objectChecksum ++ ", got " ++ debugDigest actual))
    else .ok ()

/-- `SegmentObject::manifest`. -/
def manifest (object : SealedObject S) : SegmentManifest where
  segmentId := object.segmentId
  generation := object.generation
  state := object.state
  tableSet := object.tableSet
  tenantSet := object.tenantSet

end SealedObject

/-! ### Index artifacts -/

/-- Around a value of a bitmap record there are its fields, the record, the records, the bitmap, the
payload and the artifact. -/
def bitmapOuter : ℕ := 6

/-- A bitmap record, written and read again. -/
def BitmapRecord.reread (record : BitmapRecord) : Option BitmapRecord := do
  let fields ← SortedMap.traverse (readBackValue A bitmapOuter) record.fields
  some { record with fields := fields }

/-- A bitmap index, written and read again. -/
def BitmapIndexArtifact.reread (bitmap : BitmapIndexArtifact) : Option BitmapIndexArtifact := do
  let records ← bitmap.records.mapM (·.reread A)
  some { bitmap with records := records }

/-- A text index, written and read again. -/
def TextIndexArtifact.reread (text : TextIndexArtifact S) : Option (TextIndexArtifact S) := do
  let avgLen ← rereadFloat A text.avgLen
  some { text with avgLen := avgLen }

/-- An entry of a vector index, written and read again. -/
def VectorIndexEntry.reread (entry : VectorIndexEntry S) : Option (VectorIndexEntry S) := do
  let vector ← entry.vector.mapM (rereadFloat A)
  some { entry with vector := vector }

/-- A vector index, written and read again. -/
def VectorIndexArtifact.reread (index : VectorIndexArtifact S) :
    Option (VectorIndexArtifact S) := do
  let entries ← index.entries.mapM (·.reread A)
  some { index with entries := entries }

/-- The payload of an artifact, written and read again. -/
def IndexPayload.reread : IndexPayload S → Option (IndexPayload S)
  | .primary bitmap => (bitmap.reread A).map .primary
  | .policy bitmap => (bitmap.reread A).map .policy
  | .text index => (index.reread A).map .text
  | .vector index => (index.reread A).map .vector

namespace IndexArtifact

/-- An artifact, written and read again. -/
def reread (artifact : IndexArtifact S) : Option (IndexArtifact S) := do
  let payload ← artifact.payload.reread A
  some { artifact with payload := payload }

/-- `payload_checksum`. -/
def payloadChecksum (artifact : IndexArtifact S) :
    Digest := A.checksumBytes (A.artifactBytes artifact)

end IndexArtifact

end TraceDB
