import TraceDB.Core.Policy
import TraceDB.Engine.Receipts

/-!
# Requests and the idempotency cache

The engine server (`tracedb-server`), up to what one request says and what the cache knows about it.

* `Request` is a request after its text has been split: method and path, the `idempotency-key`
  header, the actor and the body.
* `CacheKey` and `IdempotencyCacheState` : the in-memory cache of answers, and how it is filled from
  receipts.
* `Request.decode` : the engine operation behind a mutating route, and the body of its answer.

Requests without the private token of the server are turned away before anything here, and are left
out, as is the reading of headers.
-/

namespace TraceDB

/-! ### Shards -/

/-- `ShardKey`. -/
structure ShardKey where
  databaseId : String
  branchId : String
  deriving DecidableEq

/-- `is_default_shard_key`: the two names of the shard in the data root itself. -/
def ShardKey.isDefault (key : ShardKey) : Bool :=
  (key.databaseId = "local" && key.branchId = "main") ||
    (key.databaseId = "db_local" && key.branchId = "db_local:main")

/-- `safe_shard_component`. -/
def safeShardComponent (value : String) : String :=
  if value = "." || value = ".." then "_invalid"
  else
    let output := String.join ((utf8 value).map fun byte =>
      if isPlainByte byte then String.singleton (Char.ofNat byte.toNat) else "_" ++ hexByte byte)
    if output = "" then "_empty" else output

/-- `shard_path`. -/
def shardPath (rootDir : String) (key : ShardKey) : String :=
  rootDir ++ "/shards/" ++ safeShardComponent key.databaseId ++ "/" ++
    safeShardComponent key.branchId

/-! ### Requests -/

/-- A request, split into its parts. -/
structure Request where
  method : String
  path : String
  /-- The `idempotency-key` header. -/
  idempotencyKey : Option String
  actor : ActorContext
  body : String
  deriving DecidableEq

/-- The routes of `handle_request_text`; the ones that read, and the job queue, are `other`. -/
inductive Route where
  | schemaApply
  | insert
  | recordsPut
  | recordsPutBatch
  | recordsPatch
  | recordsDelete
  | adminCompact
  | adminSnapshot
  | adminRestore
  | graphql
  | traceql
  | other
  deriving DecidableEq

/-- The `match (method, path)` of `handle_request_text`. -/
def Route.of (method path : String) : Route :=
  if method = "POST" then
    match path with
    | "/v1/schema/apply" => .schemaApply
    | "/v1/insert" => .insert
    | "/v1/records/put" => .recordsPut
    | "/v1/records/put-batch" => .recordsPutBatch
    | "/v1/records/patch" => .recordsPatch
    | "/v1/records/delete" => .recordsDelete
    | "/v1/admin/compact" => .adminCompact
    | "/v1/admin/snapshot" => .adminSnapshot
    | "/v1/admin/restore" => .adminRestore
    | "/v1/graphql" => .graphql
    | "/v1/traceql" => .traceql
    | _ => .other
  else .other

/-- `supports_http_idempotency`. -/
def Route.supportsHttpIdempotency : Route → Bool
  | .other => false
  | _ => true

/-- `records_receipt_after_response`. -/
def Route.recordsReceiptAfterResponse : Route → Bool
  | .adminCompact | .adminSnapshot | .adminRestore | .graphql | .traceql => true
  | _ => false

/-- The routes whose operation carries the receipt in its own commit. -/
def Route.isMutation : Route → Bool
  | .schemaApply | .insert | .recordsPut | .recordsPutBatch | .recordsPatch | .recordsDelete => true
  | _ => false

/-! ### The cache -/

/-- `IdempotencyCacheKey`. -/
structure CacheKey where
  method : String
  path : String
  key : String
  actorTenantId : String
  databaseId : String
  branchId : String
  tokenIdentity : String
  deriving DecidableEq

namespace CacheKey

/-- `IdempotencyCacheKey::new`. -/
def new (method path key : String) (actor : ActorContext) : CacheKey where
  method := method
  path := path
  key := key
  actorTenantId := actor.tenantId
  databaseId := actor.databaseId
  branchId := actor.branchId
  tokenIdentity := actor.tokenIdentity

/-- `IdempotencyCacheKey::from_receipt`. -/
def fromReceipt (receipt : IdempotencyReceipt) : CacheKey where
  method := receipt.method
  path := receipt.path
  key := receipt.key
  actorTenantId := receipt.actorTenantId
  databaseId := receipt.databaseId
  branchId := receipt.branchId
  tokenIdentity := receipt.tokenIdentity

/-- `IdempotencyCacheKey::to_receipt`. -/
def toReceipt (key : CacheKey) (bodyHash : String) : IdempotencyReceipt where
  method := key.method
  path := key.path
  key := key.key
  bodyHash := bodyHash
  actorTenantId := key.actorTenantId
  databaseId := key.databaseId
  branchId := key.branchId
  tokenIdentity := key.tokenIdentity
  response := ""

/-- The route of the requests with a key. -/
def route (key : CacheKey) : Route := Route.of key.method key.path

/-- The shard of the requests with a key. -/
def shard (key : CacheKey) : ShardKey := ⟨key.databaseId, key.branchId⟩

/-- The key comes back from the receipt, whatever response was put into it. -/
@[simp] theorem fromReceipt_toReceipt (key : CacheKey) (bodyHash response : String) :
    fromReceipt { key.toReceipt bodyHash with response := response } = key := rfl

end CacheKey

/-- `IdempotencyEntry`. -/
structure IdempotencyEntry where
  bodyHash : String
  response : String
  deriving DecidableEq

/-- `IdempotencyCacheState`. -/
structure IdempotencyCacheState where
  entries : CacheKey → Option IdempotencyEntry

namespace IdempotencyCacheState

/-- `IdempotencyCacheState::get`. -/
def get (cache : IdempotencyCacheState) (key : CacheKey) : Option IdempotencyEntry :=
  cache.entries key

/-- `IdempotencyCacheState::insert`. -/
def insert (cache : IdempotencyCacheState) (key : CacheKey) (entry : IdempotencyEntry) :
    IdempotencyCacheState :=
  ⟨Function.update cache.entries key (some entry)⟩

@[simp] theorem get_insert_self (cache : IdempotencyCacheState) (key : CacheKey)
    (entry : IdempotencyEntry) : (cache.insert key entry).get key = some entry :=
  Function.update_self ..

theorem get_insert_of_ne (cache : IdempotencyCacheState) {key key' : CacheKey} (h : key' ≠ key)
    (entry : IdempotencyEntry) : (cache.insert key entry).get key' = cache.get key' :=
  Function.update_of_ne h ..

/-- What one receipt adds. -/
def insertReceipt (cache : IdempotencyCacheState) (receipt : IdempotencyReceipt) :
    IdempotencyCacheState :=
  cache.insert (.fromReceipt receipt) ⟨receipt.bodyHash, receipt.response⟩

/-- `IdempotencyCacheState::from_receipts`: a later receipt replaces an earlier one. -/
def fromReceipts (receipts : List IdempotencyReceipt) : IdempotencyCacheState :=
  receipts.foldl insertReceipt ⟨fun _ => none⟩

/-- Receipts of other keys do not matter for a key. -/
theorem get_fromReceipts_append_of_ne {receipts more : List IdempotencyReceipt} {key : CacheKey}
    (h : ∀ receipt ∈ more, CacheKey.fromReceipt receipt ≠ key) :
    (fromReceipts (receipts ++ more)).get key = (fromReceipts receipts).get key := by
  induction more using List.reverseRecOn with
  | nil => rw [List.append_nil]
  | append_singleton more receipt ih =>
    have hlast := h receipt (by simp)
    rw [← ih fun r hr => h r (List.mem_append_left _ hr), ← List.append_assoc, fromReceipts,
      List.foldl_concat]
    exact get_insert_of_ne _ (Ne.symm hlast) _

/-- The last receipt of a key counts. -/
theorem get_fromReceipts_snoc (receipts : List IdempotencyReceipt) (receipt : IdempotencyReceipt) :
    (fromReceipts (receipts ++ [receipt])).get (.fromReceipt receipt) =
      some ⟨receipt.bodyHash, receipt.response⟩ := by
  rw [fromReceipts, List.foldl_concat]
  exact get_insert_self ..

end IdempotencyCacheState

/-! ### Responses -/

/-- `http_json_response`, on the text of the body. -/
def httpJsonResponse (status body : String) : String :=
  "HTTP/1.1 " ++ status ++ "\r\ncontent-type: application/json\r\ncontent-length: " ++
    toString body.utf8ByteSize ++ "\r\n\r\n" ++ body

/-- `response.starts_with("HTTP/1.1 200 OK")`. -/
def isOk (response : String) : Bool := Text.startsWith response "HTTP/1.1 200 OK"

theorem isOk_httpOkJson (body : String) : isOk (httpOkJson body) = true := by
  unfold isOk httpOkJson
  exact Text.startsWith_append (Text.startsWith_append (Text.startsWith_append (by decide) _) _) _

/-- A response with another status is told apart by its first line. -/
theorem isOk_httpJsonResponse {status : String}
    (h : Text.startsWith ("HTTP/1.1 " ++ status) "HTTP/1.1 200 OK" = false)
    (h' : Text.startsWith "HTTP/1.1 200 OK" ("HTTP/1.1 " ++ status) = false) (body : String) :
    isOk (httpJsonResponse status body) = false := by
  have hstatus : Text.startsWith (httpJsonResponse status body) ("HTTP/1.1 " ++ status) = true := by
    unfold httpJsonResponse
    refine Text.startsWith_append
      (Text.startsWith_append (Text.startsWith_append (Text.startsWith_append ?_ _) _) _) _
    exact Text.startsWith_iff.2 (List.prefix_refl _)
  rw [Bool.eq_false_iff] at h h' ⊢
  intro hok
  rcases List.prefix_or_prefix_of_prefix (Text.startsWith_iff.1 hok) (Text.startsWith_iff.1 hstatus)
    with hpre | hpre
  · exact h (Text.startsWith_iff.2 hpre)
  · exact h' (Text.startsWith_iff.2 hpre)

/-- `Value::get` with a name. -/
def Value.get : Value → String → Option Value
  | .object fields, name => (fields.find? fun field => field.1 = name).map Prod.snd
  | _, _ => none

/-- The library functions the server depends on besides those of the engine. -/
structure BodyFormat extends EngineFormat where
  /-- `serde_json::from_str` at `TableSchema`. -/
  schemaFromStr : String → Except String TableSchema
  /-- `serde_json::from_str` at `RecordInput`. -/
  recordInputFromStr : String → Except String RecordInput
  /-- `serde_json::from_str` at `Value`. -/
  valueFromStr : String → Except String Value
  /-- `serde_json::from_value` at `RecordPutRequest`: its record. -/
  recordPutFromValue : Value → Except String RecordInput
  /-- `serde_json::from_value` at `RecordInput`. -/
  recordInputFromValue : Value → Except String RecordInput
  /-- `serde_json::from_str` at `RecordPutBatchRequest`: `include_write_timing` and `records`. -/
  putBatchFromStr : String → Except String (Bool × List RecordInput)
  /-- `serde_json::from_str` at `RecordPatchRequest`, as a record input. -/
  patchFromStr : String → Except String RecordInput
  /-- `serde_json::from_str` at `RecordDeleteRequest`, as a deletion. -/
  deleteFromStr : String → Except String RecordDeletion
  /-- `TraceDbError::to_string`. -/
  errorText : TraceDbError → String
  /-- What the engine writes is read back. -/
  lossless : toEngineFormat.Lossless

instance BodyFormat.instLossless (P : BodyFormat) : P.toEngineFormat.Lossless := P.lossless

/-- `parse_record_put_body`. -/
def BodyFormat.parseRecordPutBody (P : BodyFormat) (body : String) : Except String RecordInput := do
  let value ← P.valueFromStr body
  if (value.get "record").isSome then P.recordPutFromValue value
  else P.recordInputFromValue value

/-- These functions, and the operation that a text of GraphQL or TraceQL is parsed to. -/
structure ServerFormat extends BodyFormat where
  /-- The operation of the command of a request, when it has one (`RouteFormat.toServerFormat`). -/
  commandOp : Request → Option Op

variable (P : ServerFormat)

/-- The body of an error answer. -/
def errorBody (message code : String) : String :=
  P.valueToString (.object [("code", .string code), ("error", .string message)])

/-- `bad_request`. -/
def badRequest (message : String) : String :=
  httpJsonResponse "400 Bad Request" (errorBody P message "bad_request")

/-- The answer to a key that comes with another body. -/
def conflict : String :=
  httpJsonResponse "409 Conflict"
    (errorBody P "idempotency key reused with different request body" "idempotency_conflict")

variable {P}

theorem isOk_badRequest (message : String) : isOk (badRequest P message) = false :=
  isOk_httpJsonResponse (by decide) (by decide) _

theorem isOk_conflict : isOk (conflict P) = false :=
  isOk_httpJsonResponse (by decide) (by decide) _

variable (P)

/-! ### What a request asks for -/

/-- What the body of a request on a mutating route asks for. -/
inductive Decoded where
  /-- An operation, and the body of the answer at the epoch of its commit. -/
  | run (op : Op) (body : Epoch → String)
  /-- `put_batch_with_write_timing`. -/
  | timed (records : List RecordInput)

namespace Request

variable (q : Request)

/-- The route of a request. -/
def route : Route := Route.of q.method q.path

/-- The shard of a request. -/
def shard : ShardKey := ⟨q.actor.databaseId, q.actor.branchId⟩

/-- `stable_body_hash`. -/
def bodyHash : String :=
  "sha256:" ++ String.join ((P.checksumBytes (utf8 q.body)).bytes.map hexByte)

/-- The cache key of a request, when it has one. -/
def cacheKey : Option CacheKey :=
  match q.idempotencyKey with
  | none => none
  | some key =>
    if key ≠ "" ∧ q.route.supportsHttpIdempotency = true then
      some (.new q.method q.path key q.actor)
    else none

/-- The receipt that a request hands to its operation. -/
def receipt : Option IdempotencyReceipt := q.cacheKey.map fun key => key.toReceipt (q.bodyHash P)

/-- The operation behind a mutating route; `none` on the other routes. -/
def decode : Option (Except String Decoded) :=
  match q.route with
  | .schemaApply => some <| (P.schemaFromStr q.body).map fun schema =>
      .run (.applySchema schema (q.receipt P)) epochBody
  | .insert => some <| (P.recordInputFromStr q.body).map fun input =>
      .run (.insert input (q.receipt P)) epochBody
  | .recordsPut => some <| (P.parseRecordPutBody q.body).map fun input =>
      .run (.put input (q.receipt P)) epochBody
  | .recordsPutBatch => some <| (P.putBatchFromStr q.body).map fun (includeWriteTiming, records) =>
      if includeWriteTiming then .timed records
      else .run (.putBatch records (q.receipt P)) fun epoch => batchBody epoch records.length
  | .recordsPatch => some <| (P.patchFromStr q.body).map fun input =>
      .run (.patch input (q.receipt P)) epochBody
  | .recordsDelete => some <| (P.deleteFromStr q.body).map fun deletion =>
      .run (.delete deletion (q.receipt P)) deletedBody
  | _ => none

/-- A batch that asks for the timing of its write. -/
def isTimed : Bool :=
  match q.decode P with
  | some (.ok (.timed _)) => true
  | _ => false

/-- The operations that a request asks for: that of its body on a mutating route, and that of its
command on the routes of GraphQL and TraceQL, which carries no receipt. -/
def Asks (op : Op) : Prop :=
  (∃ body, q.decode P = some (.ok (.run op body))) ∨
    (∃ records, q.decode P = some (.ok (.timed records)) ∧ op = .putBatch records none) ∨
    ((q.route = .graphql ∨ q.route = .traceql) ∧ P.commandOp q = some op ∧
      ∀ epoch, op.receipts epoch = [])

/-- The receipts that a request leaves in the commit of its operation when it is answered. -/
def receiptsFor (response : String) : List IdempotencyReceipt :=
  match q.decode P with
  | some (.ok (.run _ _)) =>
    ((q.receipt P).map fun receipt => { receipt with response := response }).toList
  | _ => []

end Request

variable {P}

namespace Request

variable {q : Request}

theorem cacheKey_eq_some {key : CacheKey} (h : q.cacheKey = some key) :
    key.route = q.route ∧ key.shard = q.shard := by
  unfold cacheKey at h
  split at h
  · cases h
  · split_ifs at h
    obtain rfl := Option.some.inj h
    exact ⟨rfl, rfl⟩

/-- The receipt of an operation holds the answer to its request. -/
theorem decode_run {op : Op} {body : Epoch → String} (h : q.decode P = some (.ok (.run op body)))
    (epoch : Epoch) :
    op.receipts epoch = q.receiptsFor P (httpOkJson (body epoch)) ∧ op.repliesEpoch = true := by
  rw [receiptsFor, h]
  cases hroute : q.route with
  | recordsPutBatch =>
    simp only [decode, hroute, Option.some.injEq, Except.map_eq_ok_iff] at h
    obtain ⟨⟨timed, records⟩, -, h⟩ := h
    cases timed with
    | true => cases h
    | false =>
      obtain ⟨rfl, rfl⟩ := Decoded.run.inj h
      exact ⟨rfl, rfl⟩
  | schemaApply | insert | recordsPut | recordsPatch | recordsDelete =>
    simp only [decode, hroute, Option.some.injEq, Except.map_eq_ok_iff] at h
    obtain ⟨_, -, h⟩ := h
    obtain ⟨rfl, rfl⟩ := Decoded.run.inj h
    exact ⟨rfl, rfl⟩
  | adminCompact | adminSnapshot | adminRestore | graphql | traceql | other =>
    simp [decode, hroute] at h

end Request

end TraceDB
