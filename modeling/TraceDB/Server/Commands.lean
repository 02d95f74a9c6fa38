import TraceDB.Core.Text
import TraceDB.Query.Hybrid
import TraceDB.Server.Request

/-!
# Commands

The record, query, TraceQL and GraphQL routes of `handle_request_text` lead to the same commands.  A
TraceQL text is a command with a JSON payload, or else a query; a GraphQL text has one root field,
which names the command, with its JSON in the argument `input`.

* `splitTraceqlCommand`, `graphqlRootField`, `graphqlInputString` : how the texts are taken apart.
* `Request.parse` : the command behind a request on one of these routes.

What `serde_json` and the GraphQL parser make of a text is left open (`RouteFormat`), and so are the
two compilers from query texts to queries: everything here holds whatever they return.
-/

namespace TraceDB

/-! ### Texts -/

/-- `starts_with_sqlish_select_payload`. -/
def startsWithSqlishSelectPayload (input : List Char) : Bool :=
  match splitBytes (input.dropWhile Text.isWhitespace) "SELECT".utf8ByteSize with
  | none => false
  | some (before, after) =>
    eqIgnoreAsciiCase before "SELECT".toList && after.head?.all Text.isWhitespace

/-- The commands of TraceQL. -/
inductive TraceqlCommand where
  | schemaApply
  | recordPut
  | recordBatch
  | recordPatch
  | recordDelete
  | recordGet
  | recordScan
  | adminCompact
  | adminSnapshot
  | adminRestore
  | jobsList
  | jobsRun
  | explain
  | query
  deriving DecidableEq

/-- The texts of the commands, in the order in which `split_traceql_command` tries them. -/
def traceqlCommands : List (String × TraceqlCommand) :=
  [("SCHEMA APPLY", .schemaApply), ("RECORD PUT", .recordPut), ("RECORD BATCH", .recordBatch),
    ("RECORD PATCH", .recordPatch), ("RECORD DELETE", .recordDelete), ("RECORD GET", .recordGet),
    ("RECORD SCAN", .recordScan), ("ADMIN COMPACT", .adminCompact),
    ("ADMIN SNAPSHOT", .adminSnapshot), ("ADMIN RESTORE", .adminRestore), ("JOBS LIST", .jobsList),
    ("JOBS RUN", .jobsRun), ("EXPLAIN", .explain), ("QUERY", .query), ("PUT", .recordPut),
    ("BATCH", .recordBatch), ("PATCH", .recordPatch), ("DELETE", .recordDelete),
      ("GET", .recordGet),
    ("SCAN", .recordScan), ("COMPACT", .adminCompact), ("SNAPSHOT", .adminSnapshot),
    ("RESTORE", .adminRestore)]

/-- The loop of `split_traceql_command`. -/
def splitTraceqlCommandAmong (trimmed : String) :
    List (String × TraceqlCommand) → Option (Option (TraceqlCommand × String))
  | [] => some none
  | (text, command) :: rest =>
    if eqIgnoreAsciiCase trimmed.toList text.toList then some (some (command, "\x7b\x7d"))
    else if text.utf8ByteSize < trimmed.utf8ByteSize then
      match splitBytes trimmed.toList text.utf8ByteSize with
      | none => none
      | some (before, after) =>
        if eqIgnoreAsciiCase before text.toList && after.head?.any isAsciiWhitespace then
          let payload := Text.trim (String.ofList after)
          if command = .explain ∧ startsWithSqlishSelectPayload payload.toList = true then
            splitTraceqlCommandAmong trimmed rest
          else some (some (command, payload))
        else splitTraceqlCommandAmong trimmed rest
    else splitTraceqlCommandAmong trimmed rest

/-- `split_traceql_command`: the command and its payload, if the text has one.  It panics, and is
`none`, when a text is cut inside a character. -/
def splitTraceqlCommand (input : String) : Option (Option (TraceqlCommand × String)) :=
  splitTraceqlCommandAmong (Text.trim input) traceqlCommands

/-- `graphql_root_field`. -/
def graphqlRootField (query : String) : Option String :=
  match query.toList.dropWhile (· ≠ '\x7b') with
  | [] => none
  | _ :: body =>
    let field := (body.dropWhile Text.isWhitespace).takeWhile fun c => c.isAlphanum || c = '_'
    if field.isEmpty then none else some (String.ofList field)

/-- The loop of `matching_delimited`, once it has started: the text up to the delimiter that closes
the first one.  The state is the depth, and whether it is inside a string and after a backslash
there. -/
def matchingFrom (opening closing : Char) : ℕ → Bool → Bool → List Char → Option (List Char)
  | _, _, _, [] => none
  | depth, true, escaped, c :: chars =>
    (c :: ·) <$>
      (if escaped then matchingFrom opening closing depth true false chars
      else if c = '\\' then matchingFrom opening closing depth true true chars
      else matchingFrom opening closing depth (c ≠ '"') false chars)
  | depth, false, escaped, c :: chars =>
    if c = '"' then (c :: ·) <$> matchingFrom opening closing depth true escaped chars
    else if c = opening then (c :: ·) <$> matchingFrom opening closing
      (depth + 1) false escaped chars
    else if c = closing then
      if depth - 1 = 0 then some []
      else (c :: ·) <$> matchingFrom opening closing (depth - 1) false escaped chars
    else (c :: ·) <$> matchingFrom opening closing depth false escaped chars

/-- `matching_delimited`. -/
def matchingDelimited (input : List Char) (opening closing : Char) : Option (List Char) :=
  match input.dropWhile (· ≠ opening) with
  | [] => none
  | _ :: chars => matchingFrom opening closing 1 false false chars

/-- The loop of `split_top_level`, with the part that it reads, last character first. -/
def splitTopLevelFrom (separator : Char) :
    ℕ → Bool → Bool → List Char → List Char → List (List Char)
  | _, _, _, part, [] => [part.reverse]
  | depth, true, escaped, part, c :: chars =>
    if escaped then splitTopLevelFrom separator depth true false (c :: part) chars
    else if c = '\\' then splitTopLevelFrom separator depth true true (c :: part) chars
    else splitTopLevelFrom separator depth (c ≠ '"') false (c :: part) chars
  | depth, false, escaped, part, c :: chars =>
    if c = '"' then splitTopLevelFrom separator depth true escaped (c :: part) chars
    else if c = '(' || c = '[' || c = '\x7b' then
      splitTopLevelFrom separator (depth + 1) false escaped (c :: part) chars
    else if c = ')' || c = ']' || c = '\x7d' then
      splitTopLevelFrom separator (depth - 1) false escaped (c :: part) chars
    else if c = separator && depth = 0 then
      part.reverse :: splitTopLevelFrom separator depth false escaped [] chars
    else splitTopLevelFrom separator depth false escaped (c :: part) chars

/-- `split_top_level`. -/
def splitTopLevel (input : List Char) (separator : Char) : List String :=
  (splitTopLevelFrom separator 0 false false [] input).map fun part =>
    Text.trim (String.ofList part)

/-- `graphql_arg_raw`. -/
def graphqlArgRaw (query field argName : String) : Option String := do
  let afterField ← afterFirst field.toList query.toList
  let args ← matchingDelimited afterField '(' ')'
  (splitTopLevel args ',').findSome? fun part =>
    match part.toList.dropWhile (· ≠ ':') with
    | [] => none
    | _ :: value =>
      let name := String.ofList (part.toList.takeWhile (· ≠ ':'))
      if Text.trim name = argName then some (Text.trim (String.ofList value)) else none

/-! ### Commands -/

/-- `RecordGetRequest`. -/
structure RecordGetRequest where
  table : String
  tenantId : String
  id : String

/-- `GraphQlQueryRequest`.  The operation name is not read. -/
structure GraphQlQueryRequest where
  query : String
  variableValues : Value

/-- What a request asks of the engine. -/
inductive Command (S : Type) where
  | applySchema (schema : TableSchema)
  | insert (input : RecordInput)
  | put (input : RecordInput)
  | putBatch (includeWriteTiming : Bool) (records : List RecordInput)
  | patch (input : RecordInput)
  | delete (deletion : RecordDeletion)
  | get (request : RecordGetRequest)
  | scan (request : RecordScanRequest)
  | query (query : HybridQuery S)
  | explain (query : HybridQuery S)
  | compact
  | snapshot (target : String)
  /-- The request for the record to verify is read after the directory is restored. -/
  | restore (source target : String) (verifyRecord : Option (Except String RecordGetRequest))
  | jobsList
  | jobsRun (kind : JobKind) (target idempotencyKey : String)

/-- The library functions of these routes, and the compilers of query texts. -/
structure RouteFormat (S : Type) extends BodyFormat where
  queries : QueryFormat S
  /-- `serde_json::from_str` at `RecordGetRequest`. -/
  getFromStr : String → Except String RecordGetRequest
  /-- `serde_json::from_str` at `RecordScanRequest`. -/
  scanFromStr : String → Except String RecordScanRequest
  /-- `serde_json::from_str` at `HybridQuery`. -/
  queryFromStr : String → Except String (HybridQuery S)
  /-- `serde_json::from_str` at `TraceQlQueryRequest`: its query. -/
  traceqlFromStr : String → Except String String
  /-- `serde_json::from_str` at `GraphQlQueryRequest`. -/
  graphqlFromStr : String → Except String GraphQlQueryRequest
  /-- `serde_json::from_str` at `String`. -/
  stringFromStr : String → Except String String
  /-- `serde_json::from_value` at `TableSchema`. -/
  schemaFromValue : Value → Except String TableSchema
  /-- `serde_json::from_value` at `RecordPutBatchRequest`: its records. -/
  putBatchFromValue : Value → Except String (List RecordInput)
  /-- `serde_json::from_value` at `RecordPatchRequest`. -/
  patchFromValue : Value → Except String RecordInput
  /-- `serde_json::from_value` at `RecordDeleteRequest`. -/
  deleteFromValue : Value → Except String RecordDeletion
  /-- `serde_json::from_value` at `RecordGetRequest`. -/
  getFromValue : Value → Except String RecordGetRequest
  /-- `serde_json::from_value` at `RecordScanRequest`. -/
  scanFromValue : Value → Except String RecordScanRequest
  /-- `serde_json::from_value` at `HybridQuery`. -/
  queryFromValue : Value → Except String (HybridQuery S)
  /-- `graphql_parser::parse_query`. -/
  parseQuery : String → Except String Unit
  /-- `traceql_query_from_str`. -/
  traceqlQueryFromStr : String → Except String (HybridQuery S)
  /-- `graphql_query_from_str`. -/
  graphqlQueryFromStr : String → Except String (HybridQuery S)

/-- `required_str`. -/
def requiredStr (value : Value) (field : String) : Except String String :=
  match (value.get field).bind Value.asStr with
  | none => .error (field ++ " is required")
  | some text => .ok text

/-- `parse_job_kind`. -/
def parseJobKind (value : String) : Option JobKind :=
  match value with
  | "GenerateEmbedding" | "generate_embedding" => some .generateEmbedding
  | "RegenerateEmbedding" | "regenerate_embedding" => some .regenerateEmbedding
  | "BuildTextIndex" | "build_text_index" => some .buildTextIndex
  | "BuildVectorIndex" | "build_vector_index" => some .buildVectorIndex
  | "CompactSegment" | "compact_segment" => some .compactSegment
  | "VacuumArtifacts" | "vacuum_artifacts" => some .vacuumArtifacts
  | "ReindexTable" | "reindex_table" => some .reindexTable
  | "ValidatePolicy" | "validate_policy" => some .validatePolicy
  | "RefreshSummary" | "refresh_summary" => some .refreshSummary
  | "FeatureRefresh" | "feature_refresh" => some .featureRefresh
  | "ExportSubject" | "export_subject" => some .exportSubject
  | "PurgeSubject" | "purge_subject" => some .purgeSubject
  | "BackupDatabase" | "backup_database" => some .backupDatabase
  | "RestoreVerification" | "restore_verification" => some .restoreVerification
  | "VerifyDatabase" | "verify_database" => some .verifyDatabase
  | _ => none

/-- The job of `JOBS RUN` and `jobRun`, with the target that stands in for a missing one. -/
def jobsRunCommand {S : Type} (defaultTarget : String) (value : Value) : Command S :=
  let kind := (((value.get "kind").bind Value.asStr).bind parseJobKind).getD .verifyDatabase
  let target := ((value.get "target").bind Value.asStr).getD defaultTarget
  .jobsRun kind target (((value.get "idempotency_key").bind Value.asStr).getD target)

variable {S : Type} (X : RouteFormat S)

/-- `restore_value_from_payload`, up to the restore. -/
def restoreCommand (payload : String) : Except String (Command S) := do
  let value ← X.valueFromStr payload
  match (value.get "source").bind Value.asStr with
  | none => .error "restore source is required"
  | some source =>
    match (value.get "target").bind Value.asStr with
    | none => .error "restore target is required"
    | some target => .ok (.restore source target ((value.get "verify_record").map X.getFromValue))

/-- `execute_traceql_command`, up to the engine. -/
def traceqlCommand (command : TraceqlCommand) (payload : String) : Except String (Command S) :=
  match command with
  | .schemaApply => .applySchema <$> X.schemaFromStr payload
  | .recordPut => .put <$> X.parseRecordPutBody payload
  | .recordBatch => (fun batch => .putBatch false batch.2) <$> X.putBatchFromStr payload
  | .recordPatch => .patch <$> X.patchFromStr payload
  | .recordDelete => .delete <$> X.deleteFromStr payload
  | .recordGet => .get <$> X.getFromStr payload
  | .recordScan => .scan <$> X.scanFromStr payload
  | .query => .query <$> X.queryFromStr payload
  | .explain => (fun query => .explain { query with explain := true }) <$> X.queryFromStr payload
  | .adminCompact => .ok .compact
  | .adminSnapshot => do
    let value ← X.valueFromStr payload
    .snapshot <$> requiredStr value "target"
  | .adminRestore => restoreCommand X payload
  | .jobsList => .ok .jobsList
  | .jobsRun => jobsRunCommand "traceql-job" <$> X.valueFromStr payload

/-- `graphql_input_string`. -/
def graphqlInputString (request : GraphQlQueryRequest) (field : String) : Except String String :=
  match graphqlArgRaw request.query field "input" with
  | none => .error (field ++ " input argument is required")
  | some raw =>
    match raw.toList with
    | '$' :: name =>
      match request.variableValues.get (String.ofList name) with
      | none => .error ("GraphQL variable $" ++ String.ofList name ++ " is required")
      | some (.string value) => .ok value
      | some other => .ok (X.valueToString other)
    | _ =>
      (X.stringFromStr raw).mapError fun error =>
        field ++ " input must be a GraphQL string: " ++ error

/-- `graphql_input_json`. -/
def graphqlInputJson (request : GraphQlQueryRequest) (field : String) : Except String Value := do
  let input ← graphqlInputString X request field
  (X.valueFromStr input).mapError fun error => "invalid " ++ field ++ " input JSON: " ++ error

/-- `execute_native_graphql`, up to the engine. -/
def graphqlCommand (request : GraphQlQueryRequest) : Except String (Command S) := do
  let _ ← (X.parseQuery request.query).mapError fun error => "invalid GraphQL: " ++ error
  match graphqlRootField request.query with
  | none =>
    .error "invalid GraphQL: exactly one root field is required for TraceDB operations"
  | some field =>
    let input := graphqlInputJson X request field
    match field with
    | "schemaApply" | "applySchema" => .applySchema <$> (input >>= X.schemaFromValue)
    | "put" => .put <$> (graphqlInputString X request field >>= X.parseRecordPutBody)
    | "batch" => .putBatch false <$> (input >>= X.putBatchFromValue)
    | "patch" => .patch <$> (input >>= X.patchFromValue)
    | "delete" => .delete <$> (input >>= X.deleteFromValue)
    | "get" => .get <$> (input >>= X.getFromValue)
    | "scan" => .scan <$> (input >>= X.scanFromValue)
    | "query" => .query <$> (input >>= X.queryFromValue)
    | "explain" =>
      (fun query => .explain { query with explain := true }) <$> (input >>= X.queryFromValue)
    | "compact" => .ok .compact
    | "snapshot" => do
      let value ← input
      match (value.get "target").bind Value.asStr with
      | none => .error "snapshot target is required"
      | some target => .ok (.snapshot target)
    | "restore" => graphqlInputString X request field >>= restoreCommand X
    | "jobs" => .ok .jobsList
    | "jobRun" | "runJob" => jobsRunCommand "graphql-job" <$> input
    | _ => .error ("unsupported TraceDB GraphQL field " ++ field)

/-! ### Requests -/

/-- What becomes of the body of a request. -/
inductive Parsed (S : Type) where
  | command (command : Command S)
  | refused (error : String)
  /-- An answer with `errors` and the status of a good one. -/
  | graphqlErrors (message : String)
  | panics
  /-- The route is none of these. -/
  | elsewhere

/-- A command or the error of a body. -/
def Parsed.ofExcept : Except String (Command S) → Parsed S
  | .error e => .refused e
  | .ok decoded => .command decoded

/-- The body of a request on one of the record, query, TraceQL and GraphQL routes. -/
def Request.parse (q : Request) : Parsed S :=
  if q.method ≠ "POST" then .elsewhere
  else
    match q.path with
    | "/v1/insert" => .ofExcept (.insert <$> X.recordInputFromStr q.body)
    | "/v1/records/put" => .ofExcept (.put <$> X.parseRecordPutBody q.body)
    | "/v1/records/put-batch" =>
      .ofExcept ((fun batch => .putBatch batch.1 batch.2) <$> X.putBatchFromStr q.body)
    | "/v1/records/patch" => .ofExcept (.patch <$> X.patchFromStr q.body)
    | "/v1/records/delete" => .ofExcept (.delete <$> X.deleteFromStr q.body)
    | "/v1/records/get" => .ofExcept (.get <$> X.getFromStr q.body)
    | "/v1/records/scan" => .ofExcept (.scan <$> X.scanFromStr q.body)
    | "/v1/query" => .ofExcept (.query <$> X.queryFromStr q.body)
    | "/v1/explain" =>
      .ofExcept ((fun query => .explain { query with explain := true }) <$> X.queryFromStr q.body)
    | "/v1/traceql" =>
      match X.traceqlFromStr q.body with
      | .error e => .refused e
      | .ok text =>
        match splitTraceqlCommand text with
        | none => .panics
        | some none => .ofExcept (.query <$> X.traceqlQueryFromStr text)
        | some (some (command, payload)) => .ofExcept (traceqlCommand X command payload)
    | "/v1/graphql" =>
      match X.graphqlFromStr q.body with
      | .error e => .refused e
      | .ok request =>
        match graphqlCommand X request with
        | .error e => .graphqlErrors e
        | .ok command => .command command
    | "/v1/graphql/bounded" =>
      match X.graphqlFromStr q.body with
      | .error e => .refused e
      | .ok request => .ofExcept (.query <$> X.graphqlQueryFromStr request.query)
    | _ => .elsewhere

/-- The operation of a command that writes records or a schema. -/
def Command.op (receipt : Option IdempotencyReceipt) : Command S → Option Op
  | .applySchema schema => some (.applySchema schema receipt)
  | .insert input => some (.insert input receipt)
  | .put input => some (.put input receipt)
  | .putBatch _ records => some (.putBatch records receipt)
  | .patch input => some (.patch input receipt)
  | .delete deletion => some (.delete deletion receipt)
  | _ => none

theorem Command.receipts_op {command : Command S} {op : Op} (h : command.op none = some op)
    (epoch : Epoch) : op.receipts epoch = [] := by
  cases command with
  | applySchema _ | insert _ | put _ | putBatch _ _ | patch _ | delete _ =>
    obtain rfl := Option.some.inj h
    rfl
  | get _ | scan _ | query _ | explain _ | compact | snapshot _ | restore _ _ _ | jobsList
  | jobsRun _ _ _ => cases h

/-- The command of a request. -/
def Request.command (q : Request) : Option (Command S) :=
  match q.parse X with
  | .command command => some command
  | _ => none

/-- The functions of the whole server: a text of GraphQL or TraceQL runs the operation of its
command, which carries no receipt. -/
@[reducible] def RouteFormat.toServerFormat : ServerFormat :=
  { X.toBodyFormat with commandOp := fun q => (q.command X).bind (Command.op none) }

/-- What a request asks for on the routes of GraphQL and TraceQL. -/
theorem Request.asks_iff {q : Request} {op : Op}
    (hroute : q.route = .graphql ∨ q.route = .traceql) :
    q.Asks X.toServerFormat op ↔ ∃ command, q.command X = some command ∧
    command.op none = some op := by
  have hnone : q.decode X.toServerFormat = none := by
    rcases hroute with h | h <;> simp [Request.decode, h]
  constructor
  · rintro (⟨body, hdecode⟩ | ⟨records, hdecode, -⟩ | ⟨-, hcommand, -⟩)
    · rw [hnone] at hdecode
      cases hdecode
    · rw [hnone] at hdecode
      cases hdecode
    · exact Option.bind_eq_some_iff.1 hcommand
  · rintro ⟨command, hcommand, hop⟩
    exact .inr (.inr ⟨hroute, Option.bind_eq_some_iff.2 ⟨command, hcommand, hop⟩,
      Command.receipts_op hop⟩)

end TraceDB
