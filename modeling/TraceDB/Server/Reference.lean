import TraceDB.Engine.Reference
import TraceDB.Server.Engines

/-!
# Sample requests

A reference for the library functions of the server on the bodies of two sample requests, which
create a table and put a record into it, and the server on an empty data root.
-/

namespace TraceDB

/-- A table of pages. -/
def pagesSchema : TableSchema := ⟨"pages", "id", "tenant", [], [], []⟩

/-- The body of a request that creates it. -/
def pagesBody : String :=
  "\x7b\"name\":\"pages\",\"primary_id_column\":\"id\",\"tenant_id_column\":\"tenant\"," ++
    "\"scalar_columns\":[],\"text_indexed_columns\":[],\"vector_columns\":[]\x7d"

/-- A page without fields. -/
def emptyPage : RecordInput := ⟨"pages", "a", "t", ∅⟩

/-- The body of a request that puts it. -/
def emptyPageBody : String :=
  "\x7b\"table\":\"pages\",\"id\":\"a\",\"tenant_id\":\"t\",\"fields\":\x7b\x7d\x7d"

/-- The value of this body. -/
def emptyPageValue : Value :=
  .object [("table", .string "pages"), ("id", .string "a"), ("tenant_id", .string "t"),
    ("fields", .object [])]

/-- The error of `serde_json` for a body that is none of the two. -/
def expectedValue : String := "expected value at line 1 column 1"

/-- The reference format of the bodies. -/
def BodyFormat.reference : BodyFormat where
  toEngineFormat := .reference
  schemaFromStr body := if body = pagesBody then .ok pagesSchema else .error expectedValue
  recordInputFromStr body := if body = emptyPageBody then .ok emptyPage else .error expectedValue
  valueFromStr body := if body = emptyPageBody then .ok emptyPageValue else .error expectedValue
  recordPutFromValue _ := .error expectedValue
  recordInputFromValue value :=
    if value = emptyPageValue then .ok emptyPage else .error expectedValue
  putBatchFromStr _ := .error expectedValue
  patchFromStr _ := .error expectedValue
  deleteFromStr _ := .error expectedValue
  errorText := TraceDbError.text
  lossless := EngineFormat.lossless_reference

/-- The reference format of the server, without commands. -/
def ServerFormat.reference : ServerFormat where
  toBodyFormat := .reference
  commandOp _ := none

/-- A request of the tenant `t` with the key `k`. -/
def sampleRequest (path databaseId body : String) (key : Option String) : Request where
  method := "POST"
  path := path
  idempotencyKey := key
  actor := .managedRequest "t" databaseId "main" "anonymous" 0 []
  body := body

/-- Creating the table. -/
def createPages (databaseId : String) (key : Option String) : Request :=
  sampleRequest "/v1/schema/apply" databaseId pagesBody key

theorem createPages_route (databaseId : String) (key : Option String) :
    (createPages databaseId key).route = .schemaApply := by
  simp [createPages, sampleRequest, Request.route, Route.of]

theorem createPages_decode_of {P : ServerFormat}
    (hbody : P.schemaFromStr pagesBody = .ok pagesSchema) (databaseId : String)
    (key : Option String) :
    (createPages databaseId key).decode P = some (.ok (.run (.applySchema pagesSchema
      ((createPages databaseId key).receipt P)) epochBody)) := by
  have hschema : P.schemaFromStr (createPages databaseId key).body = .ok pagesSchema := hbody
  simp only [Request.decode, createPages_route, hschema]
  rfl

theorem createPages_decode (databaseId : String) (key : Option String) :
    (createPages databaseId key).decode .reference = some (.ok (.run (.applySchema pagesSchema
      ((createPages databaseId key).receipt .reference)) epochBody)) :=
  createPages_decode_of (by simp [ServerFormat.reference, BodyFormat.reference]) databaseId key

/-- The key of the request that creates the table. -/
def createKey (databaseId : String) : CacheKey :=
  .new "POST" "/v1/schema/apply" "k" (.managedRequest "t" databaseId "main" "anonymous" 0 [])

theorem createPages_cacheKey (databaseId : String) :
    (createPages databaseId (some "k")).cacheKey = some (createKey databaseId) := by
  have hsupports : (createPages databaseId (some "k")).route.supportsHttpIdempotency = true := by
    rw [createPages_route]
    rfl
  simp only [Request.cacheKey, createPages, sampleRequest] at hsupports ⊢
  exact if_pos ⟨by decide, hsupports⟩

variable {P : ServerFormat}

/-- The server on an empty data root. -/
def Server.initial (P : ServerFormat) (dir : String) : Server where
  root := initialDb P.toEngineFormat dir
  shards _ := none
  dirs path := some (Disk.empty path)
  cache := .fromReceipts []
  flights _ := none

theorem openServerState_empty (dir : String) :
    openServerState P (Disk.empty dir) (fun path => some (Disk.empty path)) =
      .ok (Server.initial P dir) := by
  have hreopen : Db.open P.toEngineFormat (initialDb P.toEngineFormat dir).disk =
      .ok (initialDb P.toEngineFormat dir) := (open_empty dir).symm.trans (open_empty_eq dir)
  simp only [openServerState, open_empty_eq, Except.ok_bind, hreopen]
  rfl

/-- A request on the default shard arrives. -/
theorem Step.arrive_default {s : Server} {i : ℕ} {q : Request} (h : s.flights i = none)
    (hdefault : q.shard.isDefault = true) :
    Step P s (.arrived i q) (s.setFlight i ⟨q, .arrived⟩) := by
  refine .arrive i q h ?_
  rw [Server.forActor, if_pos hdefault]

/-- The request that creates the table of pages, with a key. -/
def createRequest : Request := createPages "local" (some "k")

/-- What it asks the engine to do. -/
def createOp : Op := .applySchema pagesSchema (createRequest.receipt .reference)

theorem createRequest_decode :
    createRequest.decode .reference = some (.ok (.run createOp epochBody)) :=
  createPages_decode "local" (some "k")

/-- Two operations can be planned, one after the other, with small commits. -/
def plansTwo (db : Db) (op₁ op₂ : Op) : Bool :=
  match db.plan .reference op₁ with
  | .ok (some first) =>
    match (db.committed .reference [] first).plan .reference op₂ with
    | .ok (some second) => first.commit.isSmall && second.commit.isSmall
    | _ => false
  | _ => false

theorem plans_of_plansTwo {db : Db} {op₁ op₂ : Op} (h : plansTwo db op₁ op₂ = true) :
    ∃ first second, db.plan .reference op₁ = .ok (some first) ∧
      (db.committed .reference [] first).plan .reference op₂ = .ok (some second) ∧
      Fits EngineFormat.reference.toWalFormat [] first.commit ∧
      Fits EngineFormat.reference.toWalFormat
        [nextEntry EngineFormat.reference.toWalFormat [] first.commit] second.commit := by
  unfold plansTwo at h
  split at h
  · rename_i first hfirst
    split at h
    · rename_i second hsecond
      obtain ⟨hsmall₁, hsmall₂⟩ := Bool.and_eq_true_iff.1 h
      exact ⟨first, second, hfirst, hsecond, fits_of_isSmall hsmall₁ _, fits_of_isSmall hsmall₂ _⟩
    · cases h
  · cases h

/-- The operation can be planned and written twice. -/
theorem plans_of_createOp :
    let db := initialDb .reference "db"
    ∃ first second, db.plan .reference createOp = .ok (some first) ∧
      (db.committed .reference [] first).plan .reference createOp = .ok (some second) ∧
      Fits EngineFormat.reference.toWalFormat [] first.commit ∧
      Fits EngineFormat.reference.toWalFormat
        [nextEntry EngineFormat.reference.toWalFormat [] first.commit] second.commit :=
  plans_of_plansTwo (by decide +kernel)

end TraceDB
