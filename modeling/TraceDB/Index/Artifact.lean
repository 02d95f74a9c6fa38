import TraceDB.Index.Vector

/-!
# Index artifacts

`build_segment_index_artifacts` (`tracedb-index`): a segment gets a primary and a policy index, and
a text and a vector index where its records have texts and vectors.

* `ArtifactFiles` : the index files that queries read, by their artifacts.
-/

namespace TraceDB

/-! ### Payloads -/

/-- `BitmapRecord`. -/
structure BitmapRecord where
  recordId : String
  tenantId : String
  fields : Fields

/-- `BitmapIndexArtifact`. -/
structure BitmapIndexArtifact where
  indexId : String
  segmentId : String
  generation : ℕ
  manifestGeneration : ℕ
  sourceSegmentChecksum : Digest
  records : List BitmapRecord
  tenantRecords : Std.ExtTreeMap String (List String) compare

/-- `TextIndexDocument`. -/
structure TextIndexDocument where
  recordId : String
  fields : Std.ExtTreeMap String String compare
  lengths : Std.ExtTreeMap String ℕ compare

/-- `TextIndexPosting`. -/
structure TextIndexPosting where
  recordId : String
  termFrequency : ℕ
  docLen : ℕ

/-- `TextIndexArtifact`. -/
structure TextIndexArtifact (S : Type) where
  indexId : String
  segmentId : String
  generation : ℕ
  manifestGeneration : ℕ
  sourceSegmentChecksum : Digest
  docCount : ℕ
  avgLen : S
  documents : List TextIndexDocument
  postings : Std.ExtTreeMap String (List TextIndexPosting) compare

/-- `IndexPayload`. -/
inductive IndexPayload (S : Type) where
  | primary (bitmap : BitmapIndexArtifact)
  | policy (bitmap : BitmapIndexArtifact)
  | text (text : TextIndexArtifact S)
  | vector (vector : VectorIndexArtifact S)

/-- `IndexArtifact`. -/
structure IndexArtifact (S : Type) where
  indexId : String
  segmentId : String
  segmentGeneration : ℕ
  manifestGeneration : ℕ
  kind : String
  stateHistory : List String
  policyAware : Bool
  sourceSegmentChecksum : Digest
  recordCount : ℕ
  payload : IndexPayload S

/-- `as_vector`. -/
def IndexArtifact.asVector {S : Type} (artifact : IndexArtifact S) :
    Option (VectorIndexArtifact S) :=
  match artifact.payload with
  | .vector vector => some vector
  | _ => none

/-- `ready_state_history`. -/
def readyStateHistory : List String := ["PENDING", "BUILDING", "READY"]

/-! ### Building -/

variable {S : Type} (ops : F32 S)

/-- `build_bitmap_index`. -/
def buildBitmapIndex (segmentId : String) (generation manifestGeneration : ℕ)
    (sourceSegmentChecksum : Digest) (records : List (IndexRecord S)) : BitmapIndexArtifact where
  indexId := segmentId ++ ":policy:" ++ toString generation
  segmentId := segmentId
  generation := generation
  manifestGeneration := manifestGeneration
  sourceSegmentChecksum := sourceSegmentChecksum
  records := records.map fun record => ⟨record.recordId, record.tenantId, record.fields⟩
  tenantRecords := (records.foldl (fun (ids : Std.ExtTreeMap String (List String) compare) record =>
    ids.insert record.tenantId (ids[record.tenantId]?.getD [] ++ [record.recordId])) ∅).map
      fun _ ids => sortBy compare ids

/-- `posting_key`. -/
def postingKey (field term : String) : String := field ++ "\x00" ++ term

/-- How often each term occurs. -/
def termFrequencies (tokens : List String) : Std.ExtTreeMap String ℕ compare :=
  tokens.foldl (fun tf token => tf.insert token (tf[token]?.getD 0 + 1)) ∅

/-- The postings of a record, added to those before it. -/
def addPostings (postings : Std.ExtTreeMap String (List TextIndexPosting) compare)
    (record : IndexRecord S) : Std.ExtTreeMap String (List TextIndexPosting) compare :=
  record.text.toList.foldl (fun postings (field, body) =>
    let tokens := tokenize body
    (termFrequencies tokens).toList.foldl (fun postings (term, termFrequency) =>
      let key := postingKey field term
      postings.insert key
        (postings[key]?.getD [] ++ [⟨record.recordId, termFrequency, tokens.length⟩])) postings)
    postings

/-- The number of tokens of all records. -/
def totalTokens (records : List (IndexRecord S)) : ℕ :=
  (records.flatMap fun record => record.text.toList.map fun text => (tokenize text.2).length).sum

/-- `avg_len` of `build_text_index`. -/
def averageLength (records : List (IndexRecord S)) : S :=
  if records.length = 0 then ops.ofRat 0
  else ops.div (ops.ofNat (totalTokens records)) (ops.ofNat records.length)

/-- `build_text_index`. -/
def buildTextIndex (segmentId : String) (generation manifestGeneration : ℕ)
    (sourceSegmentChecksum : Digest) (records : List (IndexRecord S)) : TextIndexArtifact S where
  indexId := segmentId ++ ":text:" ++ toString generation
  segmentId := segmentId
  generation := generation
  manifestGeneration := manifestGeneration
  sourceSegmentChecksum := sourceSegmentChecksum
  docCount := records.length
  avgLen := averageLength ops records
  documents := records.map fun record =>
    ⟨record.recordId, record.text, record.text.map fun _ body => (tokenize body).length⟩
  postings := records.foldl addPostings ∅

/-- `index_id`. -/
def indexIdOf (segmentId kind : String) (generation : ℕ) : String :=
  segmentId ++ ":" ++ kind ++ ":" ++ toString generation

/-- One artifact of `build_segment_index_artifacts`. -/
def indexArtifactOf (segmentId : String) (generation manifestGeneration : ℕ)
    (sourceSegmentChecksum : Digest) (records : List (IndexRecord S)) (kind : String)
    (payload : IndexPayload S) : IndexArtifact S where
  indexId := indexIdOf segmentId kind generation
  segmentId := segmentId
  segmentGeneration := generation
  manifestGeneration := manifestGeneration
  kind := kind
  stateHistory := readyStateHistory
  policyAware := true
  sourceSegmentChecksum := sourceSegmentChecksum
  recordCount := records.length
  payload := payload

/-- `build_segment_index_artifacts`. -/
def buildSegmentIndexArtifacts (segmentId : String) (generation manifestGeneration : ℕ)
    (sourceSegmentChecksum : Digest) (records : List (IndexRecord S)) : List (IndexArtifact S) :=
  let bitmap := buildBitmapIndex segmentId generation manifestGeneration
    sourceSegmentChecksum records
  let artifact := indexArtifactOf segmentId generation manifestGeneration
    sourceSegmentChecksum records
  [artifact "primary" (.primary bitmap), artifact "policy" (.policy bitmap)] ++
    (if records.any fun record => !record.text.isEmpty then
      [artifact "text" (.text (buildTextIndex ops segmentId generation manifestGeneration
        sourceSegmentChecksum records))] else []) ++
    (if records.any fun record => !record.vectors.isEmpty then
      [artifact "vector" (.vector (buildVectorIndex ops segmentId generation manifestGeneration
        sourceSegmentChecksum records))] else [])

/-- `index_record_from_segment`, on a segment record whose vectors are the JSON numbers that they
are taken from. -/
def indexRecordFromSegment (Q : QueryFormat S) (record : SegmentRecord) : IndexRecord S where
  table := record.table
  recordId := record.recordId
  tenantId := record.tenantId
  versionId := record.versionId
  fields := record.fields
  text := record.text
  vectors := record.vectors.map fun _ items => (itemsAsF32 Q items).getD []

/-! ### Files -/

/-- The index files that queries read. -/
structure ArtifactFiles (S : Type) where
  /-- `validate_ready_indexes_for_segment`. -/
  validateReady : String → Result Unit
  /-- `read_index_artifact`. -/
  readArtifact : IndexManifest → Result (IndexArtifact S)

/-- The index files, by what queries do with them. -/
def ArtifactFiles.indexFiles (files : ArtifactFiles S) : IndexFiles S where
  validateReady := files.validateReady
  readVector index :=
    (fun artifact => artifact.asVector.map (·.search ops)) <$> files.readArtifact index

end TraceDB
