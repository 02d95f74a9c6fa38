import TraceDB.Engine.Tenants
import TraceDB.Query.Visibility
import TraceDB.Server.Commands
import TraceDB.Server.Reference

/-!
# Tenants

Reads check that the tenant they ask for is the actor's (`validate_actor_tenant`).  Writes take the
tenant from the body and check nothing, on every route that leads to them.

* `Db.execute`, `Server.serve` : a request on the record, query, TraceQL and GraphQL routes, from
  the lookup in the idempotency cache to the answer.
* `Server.overwrite` : snapshots and restores take their paths from the body as well.  They may
  write directories of the server, under the handles that are open on them.
* `Isolated` : the records of other tenants are as they were, and none of them is in the answer,
  also when it is an answer of the cache (`Server.CacheOwn`); and the directories hold what their
  handles wrote.
* `request_isolated` : a request that copies nothing over a directory of the server is isolated when
  its command stays within the tenant of its actor or is not carried out; and a write, get, scan or
  restore that is carried out, only then.
* `foreign_put` : a put for another tenant.

The job queue is a state of its own.
-/

namespace TraceDB

variable {S : Type}

/-! ### Execution -/

/-- What a request reads besides the handle of its shard. -/
structure RouteEnv (S : Type) where
  index : IndexFiles S
  cursor : CursorEnv
  cache : LexicalCorpusCache S
  /-- `TraceDb::create_snapshot`. -/
  createSnapshot : String → Result Unit
  /-- `TraceDb::restore_snapshot`: the handle on the copy. -/
  restoreSnapshot : String → String → Result Db
  /-- The directories of the server that `create_snapshot` to a target has written, and what is in
  them when it returns. -/
  snapshotWrites : String → String → Option Disk
  /-- Those that `restore_snapshot` from a source to a target has written. -/
  restoreWrites : String → String → String → Option Disk

/-- What is answered. -/
inductive Answer (S : Type) where
  | reply (reply : Reply)
  | record (record : Option RecordOutput)
  | scan (output : RecordScanOutput)
  | query (output : QueryOutput S)
  /-- The explanation of a query, which has no fields of records. -/
  | explained
  | compacted
  /-- Of a snapshot, TraceQL answers the error as a value. -/
  | snapshot (created : Except String Unit)
  | restored (verification : Option (RecordGetRequest × Option RecordOutput))
  | jobs
  /-- The `data` of a GraphQL answer: the value of its root field. -/
  | graphqlData (field : String) (value : Answer S)
  | graphqlErrors (message : String)

/-- The tenants whose records are in an answer. -/
def Answer.tenants : Answer S → List String
  | .record found => found.toList.map (·.tenantId)
  | .scan output => output.records.map (·.tenantId)
  | .query output => output.results.map (·.tenantId)
  | .restored (some (_, found)) => found.toList.map (·.tenantId)
  | .graphqlData _ value => value.tenants
  | _ => []

variable (X : RouteFormat S) (env : RouteEnv S)

/-- The answer to a result. -/
def answerTo {α : Type} (f : α → Answer S) : Result α → Except String (Answer S)
  | .error e => .error (X.errorText e)
  | .ok a => .ok (f a)

namespace Db

variable (db : Db)

/-- The answer to an operation. -/
def runCommand (op : Op) : Except String (Answer S) × Db :=
  (db.run X.toEngineFormat op).map (answerTo X .reply) id

/-- `restore_value_from_payload` from the restore on. -/
def restoreCommand (source target : String)
    (verifyRecord : Option (Except String RecordGetRequest)) : Except String (Answer S) :=
  match env.restoreSnapshot source target, verifyRecord with
  | .error e, _ => .error (X.errorText e)
  | .ok _, none => .ok (.restored none)
  | .ok _, some (.error e) => .error e
  | .ok restored, some (.ok request) =>
    answerTo X (fun record => .restored (some (request, record)))
      (restored.get request.table request.tenantId request.id)

/-- A command on the handle of a shard, with the receipt that goes into its commit. -/
def execute (actor : ActorContext) (receipt : Option IdempotencyReceipt) :
    Command S → Except String (Answer S) × Db
  | .applySchema schema => db.runCommand X (.applySchema schema receipt)
  | .insert input => db.runCommand X (.insert input receipt)
  | .put input => db.runCommand X (.put input receipt)
  | .putBatch includeWriteTiming records =>
    if includeWriteTiming then
      (db.putBatchWithWriteTiming X.toEngineFormat records).map (answerTo X .reply) id
    else db.runCommand X (.putBatch records receipt)
  | .patch input => db.runCommand X (.patch input receipt)
  | .delete deletion => db.runCommand X (.delete deletion receipt)
  | .get request =>
    (answerTo X .record (db.getAs actor request.table request.tenantId request.id), db)
  | .scan request =>
      (answerTo X .scan (db.scanAs X.queries.toCursorFormat env.cursor actor request), db)
  | .query query =>
    (answerTo X .query (db.queryAs X.queries env.index env.cursor env.cache actor query).1, db)
  | .explain query =>
    (answerTo X (fun _ => .explained)
      (db.queryAs X.queries env.index env.cursor env.cache actor query).1, db)
  | .compact =>
    match db.compact X.toEngineFormat with
    | .error e => (.error (X.errorText e), db)
    | .ok db' => (.ok .compacted, db')
  | .snapshot target => (.ok (.snapshot ((env.createSnapshot target).mapError X.errorText)), db)
  | .restore source target verifyRecord => (restoreCommand X env source target verifyRecord, db)
  | .jobsList | .jobsRun _ _ _ => (.ok .jobs, db)

end Db

/-- The directories of the server that a command writes past their handles. -/
def Command.writes : Command S → String → Option Disk
  | .snapshot target => env.snapshotWrites target
  | .restore source target _ => env.restoreWrites source target
  | _ => fun _ => none

/-- The command writes no directory of the server past its handle. -/
def Command.CopiesElsewhere (command : Command S) : Prop := ∀ path, command.writes env path = none

/-- The handle, when its directory has been written past it. -/
def Db.overwrite (db : Db) (writes : String → Option Disk) : Db :=
  { db with disk := (writes db.disk.dir).getD db.disk }

/-- The server, when directories of it have been written past the handles. -/
def Server.overwrite (s : Server) (writes : String → Option Disk) : Server :=
  { s with
    root := s.root.overwrite writes
    shards := fun key => (s.shards key).map (·.overwrite writes)
    dirs := fun path => (s.dirs path).map (writes path).getD }

/-- How a request ends. -/
inductive Ending (S : Type) where
  | answered (answer : Answer S)
  /-- The answer that the cache has for the key of the request. -/
  | replayed (response : String)
  | failed (error : String)
  | panicked
  | elsewhere

/-- The tenants whose records are in what a request ends with. -/
def Ending.tenants : Ending S → List String
  | .answered answer => answer.tenants
  | _ => []

/-- What a request is answered with when its command returns a value. -/
def Request.answer (q : Request) (value : Answer S) : Answer S :=
  if q.path = "/v1/graphql" then
    match value with
    | .snapshot (.error e) => .graphqlErrors e
    | value =>
      match (X.graphqlFromStr q.body).toOption.bind fun request =>
        graphqlRootField request.query with
      | some field => .graphqlData field value
      | none => value
  else value

theorem Request.tenants_answer (q : Request) (value : Answer S) :
    (q.answer X value).tenants = value.tenants := by
  unfold Request.answer
  split_ifs
  · split
    · rfl
    · split <;> rfl
  · rfl

/-- The receipt that a request hands to its command: those of TraceQL and GraphQL carry none. -/
def Request.commandReceipt (q : Request) : Option IdempotencyReceipt :=
  if q.route.isMutation then q.receipt X.toServerFormat else none

namespace Server

variable (s : Server) (q : Request) (text : Answer S → String)

/-- The end of `handle_request_text`: the receipt of a route that records it after the response, and
the entry in the cache.  The text of an answer is a parameter. -/
def finish (answer : Answer S) : Ending S × Server :=
  match q.cacheKey with
  | none => (.answered answer, s)
  | some key =>
    let response := httpOkJson (text answer)
    let entry := ⟨q.bodyHash X.toServerFormat, response⟩
    if q.route.recordsReceiptAfterResponse then
      match s.db q.shard with
      | none => (.failed "", s)
      | some db =>
        match db.run X.toEngineFormat
            (.recordIdempotencyReceipt (key.receiptAfter X.toServerFormat q response)) with
        | (.error e, db') => (.failed (X.errorText e), s.setDb q.shard db')
        | (.ok _, db') =>
          (.answered answer, { s.setDb q.shard db' with cache := s.cache.insert key entry })
    else (.answered answer, { s with cache := s.cache.insert key entry })

/-- What follows the lookup in the cache: the command on the handle of the shard, and its answer.
GraphQL answers errors with the status of a good answer. -/
def serveMiss : Ending S × Server :=
  match s.db q.shard, q.parse X with
  | none, _ => (.failed "", s)
  | some _, .refused e => (.failed e, s)
  | some _, .panics => (.panicked, s)
  | some _, .elsewhere => (.elsewhere, s)
  | some _, .graphqlErrors message => s.finish X q text (.graphqlErrors message)
  | some db, .command command =>
    match db.execute X env q.actor (q.commandReceipt X) command with
    | (.ok value, db') =>
      ((s.setDb q.shard db').overwrite (command.writes env)).finish X q text (q.answer X value)
    | (.error e, db') =>
      let s := (s.setDb q.shard db').overwrite (command.writes env)
      if q.path = "/v1/graphql" then s.finish X q text (.graphqlErrors e) else (.failed e, s)

/-- `handle_request_text` on these routes, without other requests in between. -/
def serve : Ending S × Server :=
  match s.forActor X.toServerFormat q with
  | .error e => (.failed e, s)
  | .ok s =>
    match s.lookup X.toServerFormat q with
    | some response => (.replayed response, s)
    | none => s.serveMiss X env q text

end Server

/-! ### What stays within a tenant -/

namespace Command

/-- The command ranks records. -/
def IsQuery : Command S → Prop
  | .query _ => True
  | _ => False

/-- The command stays within the tenant of its actor.  A write names records of this tenant and ends
no version of another; a read finds, lists or considers only records of the tenant, and so does the
check of a restored directory. -/
def StaysWithin (actor : ActorContext) (db : Db) : Command S → Prop
  | .get request => ∀ record,
      db.store.getRecord request.table request.tenantId request.id
        db.manifest.latestEpoch = some record →
        record.header.tenantId = actor.tenantId
  | .scan request => ∀ cursor,
      resolveCursorState X.queries.toCursorFormat env.cursor
        (cursorScopeForScan X.queries.toCursorFormat actor request (max request.limit 1))
          request.cursor
        db.manifest.latestEpoch = .ok cursor →
      ∀ record ∈ db.scannedPage request cursor, record.header.tenantId = actor.tenantId
  | .query request => ∀ cursor, db.queryCursor X.queries env.cursor actor request = .ok cursor →
      ∀ record ∈ db.queryVisible X.queries request cursor.snapshotEpoch actor,
        record.header.tenantId = actor.tenantId
  | .restore source target (some (.ok request)) => ∀ restored,
      env.restoreSnapshot source target = .ok restored → ∀ record,
        restored.store.getRecord request.table request.tenantId request.id
          restored.manifest.latestEpoch = some record → record.header.tenantId = actor.tenantId
  | command => ∀ op, command.op none = some op →
      ∀ target ∈ op.targets, db.store.StaysWithin actor.tenantId op.ends target

end Command

/-- A response that was given to requests of a tenant shows no records of others. -/
def OwnResponse (text : Answer S → String) (tenantId response : String) : Prop :=
  ∃ answer, response = httpOkJson (text answer) ∧ ∀ tenant ∈ answer.tenants, tenant = tenantId

/-- The handles of a server keep the records of the other tenants. -/
def Server.RecordsKept (s : Server) (tenantId : String) (s' : Server) : Prop :=
  ∀ key db, s.db key = some db → ∃ db', s'.db key = some db' ∧
    db.store.KeepsOthers tenantId db'.store

/-- What a request leaves alone, from the server before it, with the shard of its actor open. -/
structure Isolated (text : Answer S → String) (tenantId : String) (s : Server)
    (out : Ending S × Server) : Prop where
  /-- The records of other tenants are as they were. -/
  records : s.RecordsKept tenantId out.2
  /-- No record of another tenant is in the answer. -/
  answer : ∀ tenant ∈ out.1.tenants, tenant = tenantId
  /-- Nor was one in the answer that is given again. -/
  replay : ∀ response, out.1 = .replayed response →
    response = conflict X.toServerFormat ∨ OwnResponse text tenantId response
  /-- The handles are those of runs of the engine on their directories, so that these hold the
  records. -/
  directories : out.2.Sound X.toServerFormat
  /-- The directories of the shards that are not open are as they were. -/
  closed : out.2.dirs = s.dirs

namespace Server

/-- The server with the shard of the actor open. -/
def opened (s : Server) (q : Request) : Server := (s.forActor X.toServerFormat q).toOption.getD s

/-- The cache holds, for every tenant, responses without records of others. -/
def CacheOwn (text : Answer S → String) (s : Server) : Prop :=
  ∀ key entry, s.cache.get key = some entry → OwnResponse text key.actorTenantId entry.response

/-- The request comes to a command, on the handle of its shard. -/
structure Reaches (s : Server) (q : Request) (db : Db) (command : Command S) : Prop where
  actor : s.forActor X.toServerFormat q = .ok (s.opened X q)
  miss : (s.opened X q).lookup X.toServerFormat q = none
  db : (s.opened X q).db q.shard = some db
  parse : q.parse X = .command command

/-- The command of a request is carried out: it succeeds, and if all it does is to read, its answer
is given. -/
structure CarriesOut (q : Request) (db : Db) (command : Command S) (ending : Ending S) : Prop where
  succeeds : ∃ answer db', db.execute X env q.actor (q.commandReceipt X) command = (.ok answer, db')
  shown : command.op none = none → ∃ answer, ending = .answered answer

end Server

/-! ### One command -/

variable {X env} {db db' : Db} {dir : String} {actor : ActorContext}
  {receipt : Option IdempotencyReceipt} {command : Command S} {answer : Answer S}

theorem answerTo_eq_ok {α : Type} {f : α → Answer S} {result : Result α} :
    answerTo X f result = .ok answer ↔ ∃ a, result = .ok a ∧ answer = f a := by
  cases result with
  | error e => simp [answerTo]
  | ok a => simp [answerTo, eq_comm]

theorem Db.runCommand_eq {op : Op} {result : Except String (Answer S)}
    (h : db.runCommand X op = (result, db')) :
    ∃ reply, db.run X.toEngineFormat op = (reply, db') ∧ result = answerTo X .reply reply := by
  obtain ⟨hresult, hdb⟩ := Prod.mk.inj h
  exact ⟨_, Prod.ext rfl hdb, hresult.symm⟩

/-- A command that writes runs an operation on the same records, or fails before it. -/
theorem Db.execute_of_op (hreach : Reachable X.toEngineFormat dir db) {op : Op}
    (h : command.op none = some op) :
    (∃ op', op'.Appends ∧ op'.targets = op.targets ∧ op'.ends = op.ends ∧
      db.execute X env actor receipt command = db.runCommand X op') ∨
    ∃ e, db.execute X env actor receipt command = (.error e, db) := by
  cases command with
  | applySchema schema =>
    obtain rfl := Option.some.inj h
    exact .inl ⟨.applySchema schema receipt, trivial, rfl, rfl, rfl⟩
  | insert input =>
    obtain rfl := Option.some.inj h
    exact .inl ⟨.insert input receipt, trivial, rfl, rfl, rfl⟩
  | put input =>
    obtain rfl := Option.some.inj h
    exact .inl ⟨.put input receipt, trivial, rfl, rfl, rfl⟩
  | patch input =>
    obtain rfl := Option.some.inj h
    exact .inl ⟨.patch input receipt, trivial, rfl, rfl, rfl⟩
  | delete deletion =>
    obtain rfl := Option.some.inj h
    exact .inl ⟨.delete deletion receipt, trivial, rfl, rfl, rfl⟩
  | putBatch includeWriteTiming records =>
    obtain rfl := Option.some.inj h
    cases includeWriteTiming with
    | false => exact .inl ⟨.putBatch records receipt, trivial, rfl, rfl, rfl⟩
    | true =>
      obtain ⟨entries, hsync⟩ := hreach.synced
      have heq : db.execute X env actor receipt (.putBatch true records) =
        (db.putBatchWithWriteTiming X.toEngineFormat records).map (answerTo X .reply) id := rfl
      rcases hsync.putBatchWithWriteTiming_cases records with hrun | ⟨e, hfail⟩
      · exact .inl ⟨.putBatch records none, trivial, rfl, rfl, by rw [heq, hrun]; rfl⟩
      · exact .inr ⟨_, by rw [heq, hfail]; rfl⟩
  | _ => cases h

/-- A command without an operation leaves the handle alone or compacts it. -/
theorem Db.execute_of_no_op (h : command.op none = none) {result : Except String (Answer S)}
    (hexecute : db.execute X env actor receipt command = (result, db')) :
    db' = db ∨ command = .compact ∧ db.compact X.toEngineFormat = .ok db' := by
  cases command with
  | applySchema _ | insert _ | put _ | putBatch _ _ | patch _ | delete _ => cases h
  | compact =>
    simp only [Db.execute] at hexecute
    split at hexecute
    · exact .inl (Prod.mk.inj hexecute).2.symm
    · next hcompact =>
      obtain ⟨-, rfl⟩ := Prod.mk.inj hexecute
      exact .inr ⟨rfl, hcompact⟩
  | get _ | scan _ | query _ | explain _ | snapshot _ | restore _ _ _ | jobsList | jobsRun _ _ _ =>
    exact .inl (Prod.mk.inj hexecute).2.symm

/-- A command leads to a handle of a run of the engine, and to the same handle when it fails. -/
theorem Db.execute_spec (hreach : Reachable X.toEngineFormat dir db)
    {result : Except String (Answer S)}
    (h : db.execute X env actor receipt command = (result, db')) :
    Reachable X.toEngineFormat dir db' ∧ ∀ e, result = .error e → db' = db := by
  cases hop : command.op none with
  | none =>
    rcases Db.execute_of_no_op hop h with rfl | ⟨rfl, hcompact⟩
    · exact ⟨hreach, fun _ _ => rfl⟩
    · refine ⟨hreach.compact hcompact, fun e herror => ?_⟩
      subst herror
      rw [Db.execute, hcompact] at h
      cases h
  | some op =>
    rcases @Db.execute_of_op _ X env db dir actor receipt command hreach op hop with
      ⟨op', -, -, -, hrun⟩ | ⟨e, hfail⟩
    · obtain ⟨reply, hrun, rfl⟩ := Db.runCommand_eq (hrun.symm.trans h)
      refine ⟨hreach.of_run hrun, fun e herror => ?_⟩
      obtain ⟨entries, hsync⟩ := hreach.synced
      cases reply with
      | error e' => exact hsync.eq_of_run_error hrun
      | ok reply => cases herror
    · obtain ⟨-, rfl⟩ := Prod.mk.inj (hfail.symm.trans h)
      exact ⟨hreach, fun _ _ => rfl⟩

/-- **A command that writes keeps the other tenants** just when it stays within its own. -/
theorem Db.keepsOthers_execute_iff (hreach : Reachable X.toEngineFormat dir db) {op : Op}
    (hop : command.op none = some op)
    (h : db.execute X env actor receipt command = (.ok answer, db')) (tenantId : String) :
    (db.store.KeepsOthers tenantId db'.store ↔
      ∀ target ∈ op.targets, db.store.StaysWithin tenantId op.ends target) ∧
    answer.tenants = [] := by
  rcases @Db.execute_of_op _ X env db dir actor receipt command hreach op hop with
    ⟨op', happends, htargets, hends, hrun⟩ | ⟨e, hfail⟩
  · obtain ⟨result, hrun, hresult⟩ := Db.runCommand_eq (hrun.symm.trans h)
    obtain ⟨reply, rfl, rfl⟩ := answerTo_eq_ok.1 hresult.symm
    obtain ⟨entries, hsync⟩ := hreach.synced
    rw [hsync.keepsOthers_run_iff happends hrun, htargets, hends]
    exact ⟨Iff.rfl, rfl⟩
  · cases hfail.symm.trans h

/-- A command without an operation keeps all records. -/
theorem Db.keepsOthers_execute (hreach : Reachable X.toEngineFormat dir db)
    (hop : command.op none = none) {result : Except String (Answer S)}
    (h : db.execute X env actor receipt command = (result, db')) (tenantId : String) :
    db.store.KeepsOthers tenantId db'.store := by
  rcases Db.execute_of_no_op hop h with rfl | ⟨-, hcompact⟩
  · exact RecordStore.KeepsOthers.refl _ _
  · obtain ⟨entries, hsync⟩ := hreach.synced
    rcases hsync.publishCompactedSegment_cases hcompact with rfl | ⟨_, _, -, rfl⟩
    · exact RecordStore.KeepsOthers.refl _ _
    · exact RecordStore.KeepsOthers.refl _ _

/-! ### Reads -/

/-- A get that returns finds the record of its key, or none. -/
theorem get_eq_ok {table tenantId id : String} {found : Option RecordOutput}
    (h : db.get table tenantId id = .ok found) :
    found = (db.store.getRecord table tenantId id db.manifest.latestEpoch).map recordOutput := by
  rw [Db.get, Except.bind_eq_ok_iff] at h
  obtain ⟨schema, -, h⟩ := h
  exact (Except.ok.inj h).symm

/-- The tenants in what a get returns. -/
theorem get_tenants_iff {table tenantId id : String} {found : Option RecordOutput}
    (h : db.get table tenantId id = .ok found) (own : String) :
    (∀ tenant ∈ found.toList.map (·.tenantId), tenant = own) ↔
      ∀ record, db.store.getRecord table tenantId id db.manifest.latestEpoch = some record →
        record.header.tenantId = own := by
  rw [get_eq_ok h]
  cases db.store.getRecord table tenantId id db.manifest.latestEpoch with
  | none => simp
  | some record => simp [recordOutput]

/-- **A read shows records of the tenant only** just when it stays within it. -/
theorem Db.execute_tenants_iff (hop : command.op none = none) (hquery : ¬ command.IsQuery)
    (h : db.execute X env actor receipt command = (.ok answer, db')) :
    (∀ tenant ∈ answer.tenants, tenant = actor.tenantId) ↔ command.StaysWithin X env actor db := by
  -- The commands that show no record.
  have hnone : answer.tenants = [] → command.StaysWithin X env actor db →
      ((∀ tenant ∈ answer.tenants, tenant = actor.tenantId) ↔
        command.StaysWithin X env actor db) := by
    intro hempty hstays
    rw [hempty]
    exact iff_of_true (by simp) hstays
  cases command with
  | applySchema _ | insert _ | put _ | putBatch _ _ | patch _ | delete _ => cases hop
  | query request => exact absurd trivial hquery
  | get request =>
    obtain ⟨found, hget, rfl⟩ := answerTo_eq_ok.1 (Prod.mk.inj h).1
    rw [Db.getAs, Except.bind_eq_ok_iff] at hget
    obtain ⟨-, -, hget⟩ := hget
    exact get_tenants_iff hget actor.tenantId
  | scan request =>
    obtain ⟨output, hscan, rfl⟩ := answerTo_eq_ok.1 (Prod.mk.inj h).1
    obtain ⟨cursor, hcursor, hrecords⟩ := scanAs_records hscan
    rw [Answer.tenants, hrecords, List.map_map, List.forall_mem_map]
    constructor
    · intro hown cursor' hcursor' record hrecord
      obtain rfl := Except.ok.inj (hcursor.symm.trans hcursor')
      exact hown record hrecord
    · exact fun hstays record hrecord => hstays cursor hcursor record hrecord
  | restore source target verifyRecord =>
    have hrestore := (Prod.mk.inj h).1
    rcases hrestored : env.restoreSnapshot source target with e | restored
    · simp only [Db.restoreCommand, hrestored] at hrestore
      cases hrestore
    rcases verifyRecord with _ | e | request
    · simp only [Db.restoreCommand, hrestored] at hrestore
      obtain rfl := Except.ok.inj hrestore
      exact hnone rfl fun op hop' => by cases hop'
    · simp only [Db.restoreCommand, hrestored] at hrestore
      cases hrestore
    · simp only [Db.restoreCommand, hrestored] at hrestore
      obtain ⟨found, hget, rfl⟩ := answerTo_eq_ok.1 hrestore
      refine (get_tenants_iff hget actor.tenantId).trans ⟨fun hown again hagain => ?_,
        fun hstays => ?_⟩
      · obtain rfl := Except.ok.inj (hrestored.symm.trans hagain)
        exact hown
      · exact hstays restored hrestored
  | explain request =>
    obtain ⟨output, -, rfl⟩ := answerTo_eq_ok.1 (Prod.mk.inj h).1
    exact hnone rfl fun op hop' => by cases hop'
  | compact =>
    refine hnone ?_ fun op hop' => by cases hop'
    simp only [Db.execute] at h
    split at h
    · cases h
    · obtain ⟨hanswer, -⟩ := Prod.mk.inj h
      obtain rfl := Except.ok.inj hanswer
      rfl
  | snapshot target =>
    obtain rfl := Except.ok.inj (Prod.mk.inj h).1
    exact hnone rfl fun op hop' => by cases hop'
  | jobsList =>
    obtain rfl := Except.ok.inj (Prod.mk.inj h).1
    exact hnone rfl fun op hop' => by cases hop'
  | jobsRun kind target key =>
    obtain rfl := Except.ok.inj (Prod.mk.inj h).1
    exact hnone rfl fun op hop' => by cases hop'

/-- The segment records of a query are of its tenant. -/
theorem tenantId_of_mem_querySealed {Q : QueryFormat S} {index : IndexFiles S}
    {query : HybridQuery S} {epoch : Epoch} {sealedRecords : List SegmentRecord}
    (h : db.querySealed Q index query epoch actor = .ok sealedRecords) {record : SegmentRecord}
    (hrecord : record ∈ sealedRecords) : record.tenantId = query.tenantId := by
  rw [Db.querySealed, Except.bind_eq_ok_iff] at h
  obtain ⟨records, hrecords, h⟩ := h
  obtain rfl := Except.ok.inj h
  have hmem := (List.mem_filter.1 (List.mem_filter.1 (List.mem_filter.1 hrecord).1).1).1
  have hall : ∀ record ∈ records, record.tenantId = query.tenantId := by
    refine Except.foldlM_invariant hrecords (I := fun out => ∀ record ∈ out,
      record.tenantId = query.tenantId) (by simp) fun out segment out' _ hout hstep => ?_
    split_ifs at hstep
    · obtain rfl := Except.ok.inj hstep
      exact hout
    · obtain rfl := Except.ok.inj hstep
      exact hout
    · obtain rfl := Except.ok.inj hstep
      exact hout
    · split at hstep
      · obtain rfl := Except.ok.inj hstep
        exact hout
      · obtain ⟨-, -, hstep⟩ := Except.bind_eq_ok_iff.1 hstep
        obtain rfl := Except.ok.inj hstep
        intro record hrecord
        rcases List.mem_append.1 hrecord with hrecord | hrecord
        · exact hout record hrecord
        · exact (of_decide_eq_true (List.mem_filter.1 hrecord).2).2
  exact hall record hmem

/-- A query shows records of the tenant only when it considers no others. -/
theorem Db.query_tenants {request : HybridQuery S}
    (h : db.execute X env actor receipt (.query request) = (.ok answer, db'))
    (hstays : Command.StaysWithin X env actor db (.query request)) :
    ∀ tenant ∈ answer.tenants, tenant = actor.tenantId := by
  obtain ⟨output, hquery, rfl⟩ := answerTo_eq_ok.1 (Prod.mk.inj h).1
  intro tenant htenant
  obtain ⟨row, hrow, rfl⟩ := List.mem_map.1 htenant
  obtain ⟨cursor, candidate, hcursor, ⟨record, hmem, rfl⟩ | ⟨sealedRecords, hsealed, record,
      hmem, -, rfl⟩⟩ :=
    row_cases (Prod.ext hquery rfl) hrow
  · exact hstays cursor hcursor record hmem
  · rw [Db.queryCursor, Except.bind_eq_ok_iff] at hcursor
    obtain ⟨⟨⟩, hactor, -⟩ := hcursor
    exact (tenantId_of_mem_querySealed hsealed hmem).trans (validateActorTenant_eq_ok.1 hactor).symm

/-- What a command that writes stays within. -/
theorem Command.staysWithin_iff_of_op {op : Op} (hop : command.op none = some op) :
    command.StaysWithin X env actor db ↔
      ∀ target ∈ op.targets, db.store.StaysWithin actor.tenantId op.ends target := by
  have hthis : ∀ {P : Op → Prop}, (∀ op', command.op none = some op' → P op') ↔ P op :=
    ⟨fun h => h op hop, fun h op' hop' => Option.some.inj (hop.symm.trans hop') ▸ h⟩
  cases command with
  | applySchema _ | insert _ | put _ | putBatch _ _ | patch _ | delete _ => exact hthis
  | _ => cases hop

/-- **A command that is carried out is isolated** when it stays within its tenant, and only then
unless it is a query. -/
theorem Db.execute_isolated_iff (hreach : Reachable X.toEngineFormat dir db)
    (h : db.execute X env actor receipt command = (.ok answer, db')) :
    (command.StaysWithin X env actor db → db.store.KeepsOthers actor.tenantId db'.store ∧
      ∀ tenant ∈ answer.tenants, tenant = actor.tenantId) ∧
    (¬ command.IsQuery → db.store.KeepsOthers actor.tenantId db'.store →
      (∀ tenant ∈ answer.tenants, tenant = actor.tenantId) →
      command.StaysWithin X env actor db) := by
  cases hop : command.op none with
  | some op =>
    obtain ⟨hiff, htenants⟩ := Db.keepsOthers_execute_iff hreach hop h actor.tenantId
    rw [Command.staysWithin_iff_of_op hop, htenants]
    exact ⟨fun hstays => ⟨hiff.2 hstays, by simp⟩, fun _ hkeeps _ => hiff.1 hkeeps⟩
  | none =>
    have hkeeps := Db.keepsOthers_execute hreach hop h actor.tenantId
    refine ⟨fun hstays => ⟨hkeeps, ?_⟩,
      fun hquery _ hown => (execute_tenants_iff hop hquery h).1 hown⟩
    by_cases hquery : command.IsQuery
    · cases command with
      | query request => exact Db.query_tenants h hstays
      | _ => exact absurd hquery id
    · exact (execute_tenants_iff hop hquery h).2 hstays

/-! ### Requests -/

namespace Server

variable {s : Server} {q : Request} {text : Answer S → String} {tenantId : String}

theorem RecordsKept.refl (tenantId : String) (s : Server) : s.RecordsKept tenantId s :=
  fun _ db hdb => ⟨db, hdb, .refl tenantId db.store⟩

theorem RecordsKept.trans {s' s'' : Server} (h : s.RecordsKept tenantId s')
    (h' : s'.RecordsKept tenantId s'') : s.RecordsKept tenantId s'' := by
  intro key db hdb
  obtain ⟨db', hdb', hkeeps⟩ := h key db hdb
  obtain ⟨db'', hdb'', hkeeps'⟩ := h' key db' hdb'
  exact ⟨db'', hdb'', hkeeps.trans hkeeps'⟩

/-- A handle is as it was, or it is the one that was put back, by this name of the shard or
another. -/
theorem db_setDb_cases {key key' : ShardKey} (hdb : s.db key = some db) {found : Db}
    (hfound : s.db key' = some found) (next : Db) :
    (s.setDb key next).db key' = some found ∨ found = db ∧
    (s.setDb key next).db key' = some next := by
  unfold Server.db at hdb hfound ⊢
  cases hdefault : key.isDefault with
  | true =>
    rw [setDb_default hdefault]
    rw [if_pos hdefault] at hdb
    split_ifs at hfound ⊢
    · exact .inr ⟨Option.some.inj (hfound.symm.trans hdb), rfl⟩
    · exact .inl hfound
  | false =>
    rw [setDb_other hdefault]
    rw [if_neg (by rw [hdefault]; exact Bool.false_ne_true)] at hdb
    split_ifs at hfound ⊢
    · exact .inl hfound
    · by_cases hkey : key' = key
      · subst hkey
        exact .inr ⟨Option.some.inj (hfound.symm.trans hdb), Function.update_self ..⟩
      · exact .inl ((Function.update_of_ne hkey _ _).trans hfound)

/-- One handle that keeps the other tenants. -/
theorem RecordsKept.setDb {key : ShardKey} (hdb : s.db key = some db)
    (h : db.store.KeepsOthers tenantId db'.store) : s.RecordsKept tenantId (s.setDb key db') := by
  intro key' found hfound
  rcases db_setDb_cases hdb hfound db' with hsame | ⟨rfl, hnew⟩
  · exact ⟨found, hsame, .refl tenantId found.store⟩
  · exact ⟨db', hnew, h⟩

theorem CacheOwn.insert (h : s.CacheOwn text) {key : CacheKey} {entry : IdempotencyEntry}
    (hentry : OwnResponse text key.actorTenantId entry.response) :
    CacheOwn text { s with cache := s.cache.insert key entry } := by
  intro key' entry' hget
  by_cases hkey : key' = key
  · subst hkey
    obtain rfl := Option.some.inj ((IdempotencyCacheState.get_insert_self ..).symm.trans hget)
    exact hentry
  · refine h key' entry' ?_
    rw [← hget]
    exact (IdempotencyCacheState.get_insert_of_ne s.cache hkey entry).symm

theorem CacheOwn.setDb (h : s.CacheOwn text) (key : ShardKey) (db : Db) :
    (s.setDb key db).CacheOwn text := by
  intro key' entry hget
  rw [setDb_cache] at hget
  exact h key' entry hget

/-- The cache is kept by the tenant of the actor. -/
theorem actorTenantId_of_cacheKey {key : CacheKey} (h : q.cacheKey = some key) :
    key.actorTenantId = q.actor.tenantId := by
  unfold Request.cacheKey at h
  split at h
  · cases h
  · split_ifs at h
    obtain rfl := Option.some.inj h
    rfl

@[simp] theorem overwrite_none (s : Server) : s.overwrite (fun _ => none) = s := by
  have hdb : ∀ db : Db, db.overwrite (fun _ => none) = db := fun _ => rfl
  have hdisk : (fun disk : Disk => (none : Option Disk).getD disk) = id := rfl
  simp only [overwrite, hdb, Option.map_id', hdisk, Option.map_id]
  rfl

theorem overwrite_of_copiesElsewhere (h : command.CopiesElsewhere env) (s : Server) :
    s.overwrite (command.writes env) = s := by
  have hnone : command.writes env = fun _ => none := funext h
  rw [hnone, overwrite_none]

/-- **The end of a request** keeps all records: it ends with the answer, which may go to the cache,
or with a failure. -/
theorem finish_spec (hsound : s.Sound X.toServerFormat) (q : Request) (text : Answer S → String)
    (answer : Answer S) (tenantId : String) :
    s.RecordsKept tenantId (s.finish X q text answer).2 ∧
      (s.finish X q text answer).2.Sound X.toServerFormat ∧
      (s.finish X q text answer).2.dirs = s.dirs ∧
      ((s.finish X q text answer).1 = .answered answer ∨
        ∃ e, (s.finish X q text answer).1 = .failed e) ∧
      (s.CacheOwn text → ((s.finish X q text answer).1 = .answered answer →
        ∀ tenant ∈ answer.tenants, tenant = q.actor.tenantId) →
        (s.finish X q text answer).2.CacheOwn text) := by
  unfold finish
  cases hkey : q.cacheKey with
  | none => exact ⟨.refl tenantId s, hsound, rfl, .inl rfl, fun hcache _ => hcache⟩
  | some key =>
    have hentry : (∀ tenant ∈ answer.tenants, tenant = q.actor.tenantId) →
        OwnResponse text key.actorTenantId (httpOkJson (text answer)) := by
      intro hown
      rw [actorTenantId_of_cacheKey hkey]
      exact ⟨answer, rfl, hown⟩
    by_cases hafter : q.route.recordsReceiptAfterResponse = true
    · simp only [hafter, if_true]
      cases hdb : s.db q.shard with
      | none => exact ⟨.refl tenantId s, hsound, rfl, .inr ⟨_, rfl⟩, fun hcache _ => hcache⟩
      | some db =>
        obtain ⟨dir, hreach⟩ := hsound.db hdb
        obtain ⟨entries, hsync⟩ := hreach.synced
        simp only
        rcases hrun : db.run X.toEngineFormat (.recordIdempotencyReceipt
            (key.receiptAfter X.toServerFormat q (httpOkJson (text answer)))) with ⟨e | reply, db'⟩
        · obtain rfl := hsync.eq_of_run_error hrun
          simp only [setDb_self hdb]
          exact ⟨.refl tenantId s, hsound, trivial, .inr ⟨_, rfl⟩, fun hcache _ => hcache⟩
        · have happends : (Op.recordIdempotencyReceipt
              (key.receiptAfter X.toServerFormat q (httpOkJson (text answer)))).Appends := trivial
          have hkept := (hsync.keepsOthers_run_iff happends hrun tenantId).2 (by simp [Op.targets])
          have hsound' : (s.setDb q.shard db').Sound X.toServerFormat :=
            hsound.setDb (hreach.of_run hrun)
          refine ⟨.setDb hdb hkept, ⟨hsound'.root, hsound'.shards, hsound'.dirs⟩,
            setDb_dirs .., .inl rfl, ?_⟩
          intro hcache hown
          have hinsert := @CacheOwn.insert _ _ _ (hcache.setDb q.shard db') key
            ⟨q.bodyHash X.toServerFormat, httpOkJson (text answer)⟩ (hentry (hown rfl))
          rw [setDb_cache] at hinsert
          exact hinsert
    · simp only [hafter]
      exact ⟨.refl tenantId s, ⟨hsound.root, hsound.shards, hsound.dirs⟩, rfl, .inl rfl,
        fun hcache hown => hcache.insert (hentry (hown rfl))⟩

/-- A request that ends after the handles have kept the other tenants. -/
theorem isolated_finish {s' : Server} (hkept : s.RecordsKept q.actor.tenantId s')
    (hsound : s'.Sound X.toServerFormat) (hdirs : s'.dirs = s.dirs) (hcache : s'.CacheOwn text)
    (hown : (s'.finish X q text answer).1 = .answered answer →
      ∀ tenant ∈ answer.tenants, tenant = q.actor.tenantId) :
    Isolated X text q.actor.tenantId s (s'.finish X q text answer) ∧
      (s'.finish X q text answer).2.CacheOwn text := by
  obtain ⟨hkept', hsound', hdirs', hends, hcache'⟩ :=
    finish_spec hsound q text answer q.actor.tenantId
  refine ⟨⟨hkept.trans hkept', ?_, ?_, hsound', hdirs'.trans hdirs⟩, hcache' hcache hown⟩
  · rcases hends with hends | ⟨e, hends⟩
    · rw [hends]
      exact hown hends
    · rw [hends]
      simp [Ending.tenants]
  · intro response hreplay
    rcases hends with hends | ⟨e, hends⟩
    · cases hends.symm.trans hreplay
    · cases hends.symm.trans hreplay

/-- An end that touches nothing. -/
theorem isolated_self (hsound : s.Sound X.toServerFormat) {ending : Ending S}
    (htenants : ending.tenants = []) (hreplay : ∀ response, ending ≠ .replayed response) :
    Isolated X text tenantId s (ending, s) :=
  ⟨.refl tenantId s,
    by rw [htenants]; simp, fun response h => absurd h (hreplay response), hsound, rfl⟩

/-- A command that succeeds goes on to the end of the request. -/
theorem serveMiss_of_execute (hdb : s.db q.shard = some db) (hparse : q.parse X = .command command)
    (hexecute : db.execute X env q.actor (q.commandReceipt X) command = (.ok answer, db')) :
    s.serveMiss X env q text =
      ((s.setDb q.shard db').overwrite (command.writes env)).finish X
        q text (q.answer X answer) := by
  simp only [serveMiss, hdb, hparse, hexecute]

/-- **A request that does not come to a command is isolated.** -/
theorem serveMiss_no_command (hsound : s.Sound X.toServerFormat) (hcache : s.CacheOwn text)
    (hnone : ∀ db command, s.db q.shard = some db → q.parse X ≠ .command command) :
    Isolated X text q.actor.tenantId s (s.serveMiss X env q text) ∧
      (s.serveMiss X env q text).2.CacheOwn text := by
  unfold serveMiss
  cases hdb : s.db q.shard with
  | none => exact ⟨isolated_self hsound rfl fun _ => nofun, hcache⟩
  | some db =>
    cases hparse : q.parse X with
    | refused e => exact ⟨isolated_self hsound rfl fun _ => nofun, hcache⟩
    | panics => exact ⟨isolated_self hsound rfl fun _ => nofun, hcache⟩
    | elsewhere => exact ⟨isolated_self hsound rfl fun _ => nofun, hcache⟩
    | graphqlErrors message =>
      exact isolated_finish (.refl _ s) hsound rfl hcache (by simp [Answer.tenants])
    | command command => exact absurd hparse (hnone db command hdb)

section Command

variable (hsound : s.Sound X.toServerFormat) (hdb : s.db q.shard = some db)
  (hparse : q.parse X = .command command) (helsewhere : command.CopiesElsewhere env)

include hsound hdb hparse helsewhere

/-- **A request whose command stays within its tenant is isolated**, and leaves such a cache; and so
is one whose command is not carried out. -/
theorem serveMiss_isolated (hcache : s.CacheOwn text)
    (hstays : CarriesOut X env q db command (s.serveMiss X env q text).1 →
      command.StaysWithin X env q.actor db) :
    Isolated X text q.actor.tenantId s (s.serveMiss X env q text) ∧
      (s.serveMiss X env q text).2.CacheOwn text := by
  obtain ⟨dir, hreach⟩ := hsound.db hdb
  rcases hexecute : db.execute X env q.actor (q.commandReceipt X) command with ⟨e | answer, db'⟩
  · obtain rfl := (Db.execute_spec hreach hexecute).2 e rfl
    simp only [serveMiss, hdb, hparse, hexecute, setDb_self hdb,
      overwrite_of_copiesElsewhere helsewhere]
    split_ifs
    · exact isolated_finish (.refl _ s) hsound rfl hcache (by simp [Answer.tenants])
    · exact ⟨isolated_self hsound rfl fun _ => nofun, hcache⟩
  · rw [serveMiss_of_execute hdb hparse hexecute, overwrite_of_copiesElsewhere helsewhere]
      at hstays ⊢
    have hcarries : (command.op none = none → ∃ given,
        ((s.setDb q.shard db').finish X q text (q.answer X answer)).1 = .answered given) →
        command.StaysWithin X env q.actor db :=
          fun hshown => hstays ⟨⟨answer, db', hexecute⟩, hshown⟩
    have hkeeps : db.store.KeepsOthers q.actor.tenantId db'.store := by
      cases hop : command.op none with
      | none => exact Db.keepsOthers_execute hreach hop hexecute q.actor.tenantId
      | some op =>
        have hwithin := hcarries fun hnone => by cases hop.symm.trans hnone
        exact ((Db.execute_isolated_iff hreach hexecute).1 hwithin).1
    refine isolated_finish (.setDb hdb hkeeps) (hsound.setDb (Db.execute_spec hreach hexecute).1)
      (setDb_dirs ..) (hcache.setDb q.shard db') fun hends => ?_
    rw [q.tenants_answer X answer]
    exact ((Db.execute_isolated_iff hreach hexecute).1 (hcarries fun _ => ⟨_, hends⟩)).2

/-- **A command that is carried out and isolated stays within its tenant**, unless it is a query. -/
theorem staysWithin_of_isolated (hquery : ¬ command.IsQuery)
    (hcarries : CarriesOut X env q db command (s.serveMiss X env q text).1)
    (hisolated : Isolated X text q.actor.tenantId s (s.serveMiss X env q text)) :
    command.StaysWithin X env q.actor db := by
  obtain ⟨dir, hreach⟩ := hsound.db hdb
  obtain ⟨⟨answer, db', hexecute⟩, hshown⟩ := hcarries
  rw [serveMiss_of_execute hdb hparse hexecute, overwrite_of_copiesElsewhere helsewhere]
    at hshown hisolated
  have hsound' : (s.setDb q.shard db').Sound X.toServerFormat :=
    hsound.setDb (Db.execute_spec hreach hexecute).1
  obtain ⟨hkept, -, -, hends, -⟩ := finish_spec hsound' q text (q.answer X answer) q.actor.tenantId
  refine (Db.execute_isolated_iff hreach hexecute).2 hquery ?_ ?_
  · -- The receipt that follows changes no record, so the command has changed none of the others.
    obtain ⟨last, hlast, hkeeps⟩ := hisolated.records q.shard db hdb
    obtain ⟨last', hlast', hkeeps'⟩ := hkept q.shard db' (db_setDb_self ..)
    obtain rfl := Option.some.inj (hlast.symm.trans hlast')
    exact fun key => (hkeeps' key).symm.trans (hkeeps key)
  · cases hop : command.op none with
    | some op =>
      rw [(Db.keepsOthers_execute_iff hreach hop hexecute q.actor.tenantId).2]
      simp
    | none =>
      have hown := hisolated.answer
      obtain ⟨given, hgiven⟩ := hshown hop
      rcases hends with hends | ⟨e, hends⟩
      · rw [hends] at hown
        rw [← q.tenants_answer X answer]
        exact hown
      · cases hends.symm.trans hgiven

end Command

end Server

/-! ### Every route -/

/-- An answer of the cache. -/
theorem Server.isolated_replayed {s : Server} (hsound : s.Sound X.toServerFormat)
    {text : Answer S → String} (hcache : s.CacheOwn text) {q : Request} {response : String}
    (hlookup : s.lookup X.toServerFormat q = some response) :
    Isolated X text q.actor.tenantId s (Ending.replayed response, s) := by
  refine ⟨.refl _ s, by simp [Ending.tenants], fun again hagain => ?_, hsound, rfl⟩
  obtain rfl := Ending.replayed.inj hagain
  unfold lookup at hlookup
  split at hlookup
  · cases hlookup
  · next key hkey =>
    split at hlookup
    · cases hlookup
    · next entry hentry =>
      obtain rfl := Option.some.inj hlookup
      split_ifs
      · exact .inr (actorTenantId_of_cacheKey hkey ▸ hcache key entry hentry)
      · exact .inl rfl

open Server in
/-- **Requests and the records of other tenants**, on the record, query, TraceQL and GraphQL routes.
A request that comes to no command is isolated.  One that does, and that copies nothing over the
directories of the server, is isolated when its command stays within the tenant of its actor or is
not carried out, and only then, unless it is a query.  All of these leave a server of this kind. -/
theorem request_isolated {s : Server} (hsound : s.Sound X.toServerFormat) {text : Answer S → String}
    (hcache : s.CacheOwn text) (q : Request) :
    ((∀ db command, ¬ s.Reaches X q db command) →
      Isolated X text q.actor.tenantId (s.opened X q) (s.serve X env q text) ∧
        (s.serve X env q text).2.CacheOwn text) ∧
    ∀ db command, s.Reaches X q db command → command.CopiesElsewhere env →
      ((CarriesOut X env q db command (s.serve X env q text).1 →
          command.StaysWithin X env q.actor db) →
        Isolated X text q.actor.tenantId (s.opened X q) (s.serve X env q text) ∧
          (s.serve X env q text).2.CacheOwn text) ∧
      (Isolated X text q.actor.tenantId (s.opened X q) (s.serve X env q text) → ¬ command.IsQuery →
        CarriesOut X env q db command (s.serve X env q text).1 →
          command.StaysWithin X env q.actor db) := by
  cases hactor : s.forActor X.toServerFormat q with
  | error e =>
    have hopened : s.opened X q = s := by simp [opened, hactor, Except.toOption]
    have hserve : s.serve X env q text = (.failed e, s) := by simp only [serve, hactor]
    rw [hopened, hserve]
    refine ⟨fun _ => ⟨isolated_self hsound rfl fun _ => nofun, hcache⟩,
      fun db command hreaches => ?_⟩
    cases hactor.symm.trans hreaches.actor
  | ok s₁ =>
    have hopened : s.opened X q = s₁ := by simp [opened, hactor, Except.toOption]
    have hsound₁ := hsound.forActor hactor
    have hcache₁ : s₁.CacheOwn text := by
      rcases forActor_cases hactor with rfl | ⟨_, _, -, -, -, rfl⟩
      · exact hcache
      · exact hcache
    cases hlookup : s₁.lookup X.toServerFormat q with
    | none =>
      have hserve : s.serve X env q text = s₁.serveMiss X env q text := by
        simp only [serve, hactor, hlookup]
      rw [hserve]
      refine ⟨fun hnone => ?_, fun db command hreaches helsewhere => ?_⟩
      · rw [hopened]
        refine serveMiss_no_command hsound₁ hcache₁ fun db command hdb hparse => ?_
        exact hnone db command ⟨hopened.symm ▸ hactor, hopened.symm ▸ hlookup,
          hopened.symm ▸ hdb, hparse⟩
      · have hdb := hreaches.db
        rw [hopened] at hdb ⊢
        refine ⟨serveMiss_isolated hsound₁ hdb hreaches.parse helsewhere hcache₁, ?_⟩
        exact fun hisolated hquery hcarries =>
          staysWithin_of_isolated hsound₁ hdb hreaches.parse helsewhere hquery hcarries hisolated
    | some response =>
      have hserve : s.serve X env q text = (.replayed response, s₁) := by
        simp only [serve, hactor, hlookup]
      rw [hserve, hopened]
      refine ⟨fun _ => ⟨isolated_replayed hsound₁ hcache₁ hlookup, hcache₁⟩,
        fun db command hreaches => ?_⟩
      have hmiss := hreaches.miss
      rw [hopened, hlookup] at hmiss
      cases hmiss

/-- The body of a request that puts a case of the tenant `t`. -/
def caseBody : String :=
  "\x7b\"table\":\"cases\",\"id\":\"a\",\"tenant_id\":\"t\",\"fields\":\x7b\x7d\x7d"

/-- The value of the body. -/
def caseValue : Value :=
  .object [("table", .string "cases"), ("id", .string "a"), ("tenant_id", .string "t"),
    ("fields", .object [])]

/-- The library functions on this body. -/
def RouteFormat.reference : RouteFormat ℚ where
  toBodyFormat := { BodyFormat.reference with
    valueFromStr := fun body => if body = caseBody then .ok caseValue else .error expectedValue
    recordInputFromValue := fun value =>
      if value = caseValue then .ok (sampleCase "a" []) else .error expectedValue }
  queries := .reference
  getFromStr _ := .error expectedValue
  scanFromStr _ := .error expectedValue
  queryFromStr _ := .error expectedValue
  traceqlFromStr _ := .error expectedValue
  graphqlFromStr _ := .error expectedValue
  stringFromStr _ := .error expectedValue
  schemaFromValue _ := .error expectedValue
  putBatchFromValue _ := .error expectedValue
  patchFromValue _ := .error expectedValue
  deleteFromValue _ := .error expectedValue
  getFromValue _ := .error expectedValue
  scanFromValue _ := .error expectedValue
  queryFromValue _ := .error expectedValue
  parseQuery _ := .error expectedValue
  traceqlQueryFromStr _ := .error expectedValue
  graphqlQueryFromStr _ := .error expectedValue

/-- No indexes, no signing key, nothing cached, and directories that hold no copies. -/
def RouteEnv.reference : RouteEnv ℚ where
  index := .none
  cursor := .unsigned
  cache := .empty
  createSnapshot _ := .ok ()
  restoreSnapshot source _ := .error (.notFound source)
  snapshotWrites _ _ := none
  restoreWrites _ _ _ := none

/-- A server with a case of the tenant `t` on its default shard. -/
def casesServer : Server :=
  { Server.initial .reference "db" with root := casesDb [sampleCase "a" []] }

/-- A user of a tenant puts the case again. -/
def putCaseAs (tenantId : String) : Request where
  method := "POST"
  path := "/v1/records/put"
  idempotencyKey := none
  actor := .managedRequest tenantId "local" "main" "anonymous" 0 []
  body := caseBody

theorem sound_casesServer : casesServer.Sound RouteFormat.reference.toServerFormat where
  root := ⟨"db", reachable_casesDb _⟩
  shards _ _ h := by cases h
  dirs path disk h db hopen := by
    obtain rfl := Option.some.inj h
    exact ⟨path, .opened hopen⟩

theorem parseRecordPutBody_caseBody :
    RouteFormat.reference.parseRecordPutBody caseBody = .ok (sampleCase "a" []) := by
  have hvalue : RouteFormat.reference.valueFromStr caseBody = .ok caseValue := by
    simp [RouteFormat.reference]
  have hinput : RouteFormat.reference.recordInputFromValue caseValue = .ok (sampleCase "a" []) := by
    simp [RouteFormat.reference]
  have hrecord : (caseValue.get "record").isSome = false := by decide
  rw [BodyFormat.parseRecordPutBody, hvalue, Except.ok_bind, hrecord]
  exact hinput

theorem parse_putCaseAs (tenantId : String) :
    (putCaseAs tenantId).parse RouteFormat.reference = .command (.put (sampleCase "a" [])) := by
  simp [Request.parse, putCaseAs, parseRecordPutBody_caseBody, Parsed.ofExcept,
    Functor.map, Except.map]

theorem engine_routeReference : RouteFormat.reference.toEngineFormat = .reference := rfl

/-- The case can be put again. -/
theorem run_putCase :
    ∃ reply db', (casesDb [sampleCase "a" []]).run RouteFormat.reference.toEngineFormat
    (.put (sampleCase "a" []) none) = (.ok reply, db') := by
  have hplan := casesDb_shows [sampleCase "a" []] (P := fun db =>
    ((db.plan .reference (.put (sampleCase "a" []) none)).toOption.join.any
      fun plan => plan.commit.isSmall) = true) (by decide +kernel)
  obtain ⟨plan, hplan, hsmall⟩ := (Option.any_eq_true _ _).1 hplan
  have hreach : Reachable .reference "db" (casesDb [sampleCase "a" []]) := reachable_casesDb _
  obtain ⟨entries, hsync⟩ := hreach.synced
  rw [engine_routeReference]
  exact ⟨_, _, hsync.run_of_fits (Except.eq_ok_of_toOption (Option.join_eq_some_iff.1 hplan))
    (fits_of_isSmall hsmall entries)⟩

theorem reaches_putCaseAs (tenantId : String) :
    casesServer.Reaches RouteFormat.reference (putCaseAs tenantId) (casesDb [sampleCase "a" []])
      (.put (sampleCase "a" [])) :=
  ⟨rfl, rfl, rfl, parse_putCaseAs tenantId⟩

theorem carriesOut_putCaseAs (tenantId : String) (ending : Ending ℚ) :
    Server.CarriesOut RouteFormat.reference .reference (putCaseAs tenantId)
    (casesDb [sampleCase "a" []])
      (.put (sampleCase "a" [])) ending := by
  obtain ⟨reply, db', hrun⟩ := run_putCase
  have hreceipt : (putCaseAs tenantId).commandReceipt RouteFormat.reference = none := by
    have hkey : (putCaseAs tenantId).cacheKey = none := rfl
    simp [Request.commandReceipt, Request.receipt, hkey]
  refine ⟨⟨.reply reply, db', ?_⟩, fun hnone => by cases hnone⟩
  rw [hreceipt, Db.execute, Db.runCommand, hrun, Prod.map_apply, answerTo, id]

/-- A request by the tenant of the case. -/
theorem own_put_isolated :
    Isolated RouteFormat.reference (fun _ => "") "t" (casesServer.opened .reference (putCaseAs "t"))
      (casesServer.serve .reference .reference (putCaseAs "t") fun _ => "") := by
  have hcurrent := casesDb_shows [sampleCase "a" []] (P := fun db =>
    ((db.store.versionsAt (recordKey "cases" "t" "a")).findLast? StoredRecord.isCurrent).all
      (fun record => decide (record.header.tenantId = "t")) = true) (by decide +kernel)
  have hstays : Command.StaysWithin RouteFormat.reference RouteEnv.reference (putCaseAs "t").actor
      (casesDb [sampleCase "a" []]) (.put (sampleCase "a" [])) := by
    intro op hop target htarget
    obtain rfl := Option.some.inj hop
    obtain rfl := List.mem_singleton.1 htarget
    refine ⟨rfl, fun record hfind => ?_⟩
    exact of_decide_eq_true ((Option.all_eq_true _ _).1 hcurrent record hfind)
  exact (((request_isolated sound_casesServer nofun (putCaseAs "t")).2 _ _ (reaches_putCaseAs "t")
    fun _ => rfl).1 fun _ => hstays).1

/-- **A put for another tenant**: the case of `t` is replaced by a request of `u`. -/
theorem foreign_put :
    casesServer.Sound RouteFormat.reference.toServerFormat ∧
      (putCaseAs "u").actor.tenantId = "u" ∧
      (∃ record, casesServer.root.store.getRecord "cases" "t" "a"
        casesServer.root.manifest.latestEpoch = some record ∧ record.header.tenantId = "t") ∧
      ∀ text : Answer ℚ → String, casesServer.CacheOwn text ∧
        ¬ Isolated .reference text "u" (casesServer.opened .reference (putCaseAs "u"))
          (casesServer.serve .reference .reference (putCaseAs "u") text) := by
  refine ⟨sound_casesServer, rfl, ?_, fun text => ⟨nofun, fun hisolated => ?_⟩⟩
  · have hrecord := casesDb_shows [sampleCase "a" []] (P := fun db =>
      ((db.store.getRecord "cases" "t" "a" db.manifest.latestEpoch).any
        fun record => decide (record.header.tenantId = "t")) = true) (by decide +kernel)
    obtain ⟨record, hget, htenant⟩ := (Option.any_eq_true _ _).1 hrecord
    exact ⟨record, hget, of_decide_eq_true htenant⟩
  · have hstays := Server.staysWithin_of_isolated sound_casesServer rfl (parse_putCaseAs "u")
      (fun _ => rfl) id (carriesOut_putCaseAs "u" _) hisolated
    have htarget := (hstays _ rfl _ List.mem_cons_self).1
    exact absurd htarget (by decide)

end TraceDB
