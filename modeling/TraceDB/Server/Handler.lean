import TraceDB.Data.PartialMap
import TraceDB.Data.Runs
import TraceDB.Server.Request

/-!
# The request handler

`handle_request_text` takes several locks, one after the other, and between them other requests go
on. A step of the server is what happens under one of them:

* `arrive` finds the shard of the actor, and opens it if it is not open yet;
* `replay` and `miss` are the two outcomes of the cache lookup;
* `execute` and `fail` are the two outcomes of the engine operation;
* `record` writes the receipt of a route that records it after the response;
* `insert` puts the answer into the cache, and answers.

A request can be dropped while it waits for a lock, and the server can stop at any time, also inside
a write, and be started again.  The labels of the steps are what a client and the engine see of
them.

The answers of the queries, of the job queue, of GraphQL and of TraceQL are left open: such a
request may get any.  The texts of GraphQL and TraceQL run at most the operation of their command,
which carries no receipt.  Snapshots and restores copy directories elsewhere.
-/

namespace TraceDB

/-! ### The state -/

/-- How far a request has got. -/
inductive Phase where
  /-- Its shard is open; the cache has not been looked up. -/
  | arrived
  /-- The cache did not know it. -/
  | missed
  /-- Its operation succeeded, and its receipt is still to be written. -/
  | unrecorded (response : String)
  /-- Its answer is still to be put into the cache. -/
  | ready (response : String)
  deriving DecidableEq

/-- A request on its way. -/
structure Flight where
  request : Request
  phase : Phase
  deriving DecidableEq

/-- The request has looked the cache up, and goes on to its operation or comes from it. -/
def Phase.isPast : Phase → Bool
  | .arrived => false
  | _ => true

/-- The running server: `EngineHandle`, the cache and the requests on their way. -/
structure Server where
  /-- The handle on the data root. -/
  root : Db
  /-- The handles of the other shards that are open. -/
  shards : ShardKey → Option Db
  /-- The directories of the shards that are not open; `none` while a handle holds the lock. -/
  dirs : String → Option Disk
  cache : IdempotencyCacheState
  /-- The requests on their way, by number. -/
  flights : ℕ → Option Flight

namespace Server

/-- The handle of a shard. -/
def db (s : Server) (key : ShardKey) :
    Option Db := if key.isDefault then some s.root else s.shards key

/-- Puts the handle of a shard back. -/
def setDb (s : Server) (key : ShardKey) (db : Db) : Server :=
  if key.isDefault then { s with root := db }
  else { s with shards := Function.update s.shards key (some db) }

/-- A request has got further. -/
def setFlight (s : Server) (i : ℕ) (flight : Flight) : Server :=
  { s with flights := Function.update s.flights i (some flight) }

/-- A request is done. -/
def clear (s : Server) (i : ℕ) : Server := { s with flights := Function.update s.flights i none }

section Fields

variable (s : Server) (key : ShardKey) (db : Db) (i : ℕ) (flight : Flight)

@[simp] theorem setFlight_root : (s.setFlight i flight).root = s.root := rfl

@[simp] theorem setFlight_shards : (s.setFlight i flight).shards = s.shards := rfl

@[simp] theorem setFlight_dirs : (s.setFlight i flight).dirs = s.dirs := rfl

@[simp] theorem setFlight_cache : (s.setFlight i flight).cache = s.cache := rfl

@[simp] theorem setFlight_flights_self : (s.setFlight i flight).flights i = some flight :=
  Function.update_self ..

theorem setFlight_flights_of_ne {i j : ℕ} (h : j ≠ i) :
    (s.setFlight i flight).flights j = s.flights j := Function.update_of_ne h ..

@[simp] theorem clear_root : (s.clear i).root = s.root := rfl

@[simp] theorem clear_shards : (s.clear i).shards = s.shards := rfl

@[simp] theorem clear_dirs : (s.clear i).dirs = s.dirs := rfl

@[simp] theorem clear_cache : (s.clear i).cache = s.cache := rfl

@[simp] theorem clear_flights_self : (s.clear i).flights i = none := Function.update_self ..

theorem clear_flights_of_ne {i j : ℕ} (h : j ≠ i) : (s.clear i).flights j = s.flights j :=
  Function.update_of_ne h ..

@[simp] theorem setDb_flights : (s.setDb key db).flights = s.flights := by
  unfold setDb
  split_ifs <;> rfl

@[simp] theorem setDb_cache : (s.setDb key db).cache = s.cache := by
  unfold setDb
  split_ifs <;> rfl

@[simp] theorem setDb_dirs : (s.setDb key db).dirs = s.dirs := by
  unfold setDb
  split_ifs <;> rfl

theorem setDb_root : (s.setDb key db).root = if key.isDefault then db else s.root := by
  unfold setDb
  split_ifs <;> rfl

variable {s key db}

theorem setDb_default (h : key.isDefault = true) : s.setDb key db = { s with root := db } :=
  if_pos h

theorem setDb_other (h : key.isDefault = false) :
    s.setDb key db = { s with shards := Function.update s.shards key (some db) } :=
  if_neg (by rw [h]; exact Bool.false_ne_true)

/-- The handle of a shard that has just been put back. -/
theorem db_setDb_self (s : Server) (key : ShardKey) (db : Db) :
    (s.setDb key db).db key = some db := by
  unfold Server.db
  cases hdefault : key.isDefault with
  | true => simp [setDb_default hdefault]
  | false => simp [setDb_other hdefault]

/-- Putting back the handle that was taken changes nothing. -/
theorem setDb_self (h : s.db key = some db) : s.setDb key db = s := by
  unfold Server.db at h
  unfold setDb
  split_ifs at h ⊢
  · obtain rfl := Option.some.inj h
    rfl
  · rw [← h, Function.update_eq_self]

end Fields

/-- What a function picks out of the requests on their way. -/
def project {γ : Type} (f : Flight → Option γ) (s : Server) (i : ℕ) :
    Option γ := (s.flights i).bind f

section Project

variable {γ : Type} (f : Flight → Option γ) {s s' : Server} {i : ℕ} {flight : Flight}

theorem project_congr (h : s'.flights = s.flights) : s'.project f = s.project f := by
  funext j
  rw [project, project, h]

theorem project_of_flight (h : s.flights i = some flight) : s.project f i = f flight := by
  rw [project, h]
  rfl

theorem project_setFlight (s : Server) (i : ℕ) (flight : Flight) :
    (s.setFlight i flight).project f = Function.update (s.project f) i (f flight) := by
  funext j
  by_cases hj : j = i
  · subst hj
    rw [Function.update_self, project_of_flight f (s.setFlight_flights_self j flight)]
  · rw [Function.update_of_ne hj, project, s.setFlight_flights_of_ne flight hj]
    rfl

theorem project_clear (s : Server) (i : ℕ) :
    (s.clear i).project f = Function.update (s.project f) i none := by
  funext j
  by_cases hj : j = i
  · subst hj
    rw [Function.update_self, project, s.clear_flights_self]
    rfl
  · rw [Function.update_of_ne hj, project, s.clear_flights_of_ne hj]
    rfl

theorem project_setFlight_self (h : f flight = s.project f i) :
    (s.setFlight i flight).project f = s.project f := by
  rw [project_setFlight, h, Function.update_eq_self]

theorem project_clear_self (h : s.project f i = none) : (s.clear i).project f = s.project f := by
  rw [project_clear, ← h, Function.update_eq_self]

end Project

end Server

/-! ### Sections of a request -/

variable (P : ServerFormat)

/-- The epoch in a reply. -/
def Reply.epochOrZero : Reply → Epoch
  | .epoch n => n
  | _ => 0

/-- The answer to an operation that replies with the epoch of its commit. -/
def answerOf (body : Epoch → String) : Result Reply × Db → Except String String × Db
  | (.ok reply, db) => (.ok (httpOkJson (body reply.epochOrZero)), db)
  | (.error e, db) => (.error (P.errorText e), db)

/-- The body of the answer to a batch with the timing of its write. -/
def timedBatchBody (recordCount : ℕ) (timing : String) (epoch : Epoch) : String :=
  "\x7b\"epoch\":" ++ toString epoch ++ ",\"record_count\":" ++ toString recordCount ++
    ",\"write_timing\":" ++ timing ++ "\x7d"

/-- The engine operation of a request on a mutating route, with the text of the timing in case it is
asked for. -/
def Decoded.apply (decoded : Decoded) (timing : String) (db : Db) : Except String String × Db :=
  match decoded with
  | .run op body => answerOf P body (db.run P.toEngineFormat op)
  | .timed records =>
    answerOf P (timedBatchBody records.length timing)
      (db.putBatchWithWriteTiming P.toEngineFormat records)

/-- What the engine operation of a request can do to the handle of its shard, and the answer. -/
inductive EngineSection (q : Request) (db : Db) : Except String String → Db → Prop
  | malformed {e : String} : q.decode P = some (.error e) → EngineSection q db (.error e) db
  | mutation {decoded : Decoded} (timing : String) : q.decode P = some (.ok decoded) →
      EngineSection q db (decoded.apply P timing db).1 (decoded.apply P timing db).2
  | compact {db' : Db} : q.route = .adminCompact → db.compact P.toEngineFormat = .ok db' →
      EngineSection q db (.ok (httpOkJson "\x7b\"compacted\":true\x7d")) db'
  | compactFails {e : TraceDbError} : q.route = .adminCompact →
      db.compact P.toEngineFormat = .error e → EngineSection q db (.error (P.errorText e)) db
  /-- The shard is only read, or not looked at. -/
  | reads {out : Except String String} : q.route.isMutation = false → q.route ≠ .adminCompact →
      EngineSection q db out db
  /-- GraphQL and TraceQL run the operation of their command, without a receipt. -/
  | runs {db' : Db} {op : Op} {reply : Reply} (body : String) :
      q.route = .graphql ∨ q.route = .traceql → P.commandOp q = some op →
      (∀ epoch, op.receipts epoch = []) → db.run P.toEngineFormat op = (.ok reply, db') →
      EngineSection q db (.ok (httpOkJson body)) db'
  /-- GraphQL and TraceQL can compact, too. -/
  | compacts {db' : Db} (body : String) : q.route = .graphql ∨ q.route = .traceql →
      db.compact P.toEngineFormat = .ok db' → EngineSection q db (.ok (httpOkJson body)) db'

namespace Server

variable (s : Server)

/-- `EngineHandle::for_actor`. -/
def forActor (q : Request) : Except String Server :=
  if q.shard.isDefault then .ok s
  else
    match s.shards q.shard with
    | some _ => .ok s
    | none =>
      let path := shardPath s.root.disk.dir q.shard
      match s.dirs path with
      | none => .error (P.errorText (engineLocked path))
      | some disk =>
        match Db.open P.toEngineFormat disk with
        | .error e => .error (P.errorText e)
        | .ok db =>
          .ok { s with
            shards := Function.update s.shards q.shard (some db)
            dirs := Function.update s.dirs path none }

variable {P s} in
theorem forActor_cases {s' : Server} {q : Request} (h : s.forActor P q = .ok s') :
    s' = s ∨ ∃ disk db, q.shard.isDefault = false ∧
      s.dirs (shardPath s.root.disk.dir q.shard) = some disk ∧
      Db.open P.toEngineFormat disk = .ok db ∧
      s' = { s with
        shards := Function.update s.shards q.shard (some db)
        dirs := Function.update s.dirs (shardPath s.root.disk.dir q.shard) none } := by
  unfold forActor at h
  split_ifs at h with hdefault
  · exact .inl (Except.ok.inj h).symm
  · cases hshard : s.shards q.shard with
    | some db =>
      rw [hshard] at h
      exact .inl (Except.ok.inj h).symm
    | none =>
      rw [hshard] at h
      cases hdisk : s.dirs (shardPath s.root.disk.dir q.shard) with
      | none =>
        simp only [hdisk] at h
        cases h
      | some disk =>
        simp only [hdisk] at h
        cases hopen : Db.open P.toEngineFormat disk with
        | error e =>
          simp only [hopen] at h
          cases h
        | ok db =>
          simp only [hopen] at h
          exact .inr ⟨disk, db, Bool.eq_false_iff.2 hdefault, rfl, hopen, (Except.ok.inj h).symm⟩

/-- The lookup of a request in the cache: what it answers, if it does. -/
def lookup (q : Request) : Option String :=
  match q.cacheKey with
  | none => none
  | some key =>
    match s.cache.get key with
    | none => none
    | some entry => some (if entry.bodyHash = q.bodyHash P then entry.response else conflict P)

section Lookup

variable {P s} {q : Request} {key : CacheKey}

theorem lookup_of_get_none (hkey : q.cacheKey = some key) (h : s.cache.get key = none) :
    s.lookup P q = none := by
  simp only [lookup, hkey, h]

theorem lookup_of_get_some (hkey : q.cacheKey = some key) {entry : IdempotencyEntry}
    (h : s.cache.get key = some entry) :
    s.lookup P q = some (if entry.bodyHash = q.bodyHash P then entry.response else conflict P) := by
  simp only [lookup, hkey, h]

/-- The lookup of a request with a key fails only when the key is not in the cache. -/
theorem get_of_lookup_none (hkey : q.cacheKey = some key) (h : s.lookup P q = none) :
    s.cache.get key = none := by
  cases hget : s.cache.get key with
  | none => rfl
  | some entry =>
    rw [lookup_of_get_some hkey hget] at h
    cases h

/-- A good answer of the cache is the entry of the body. -/
theorem get_of_lookup_ok (hkey : q.cacheKey = some key) {response : String}
    (h : s.lookup P q = some response) (hok : isOk response = true) :
    s.cache.get key = some ⟨q.bodyHash P, response⟩ := by
  cases hget : s.cache.get key with
  | none =>
    rw [lookup_of_get_none hkey hget] at h
    cases h
  | some entry =>
    rw [lookup_of_get_some hkey hget] at h
    split_ifs at h with hhash
    · obtain rfl := Option.some.inj h
      rw [← hhash]
    · obtain rfl := Option.some.inj h
      rw [isOk_conflict] at hok
      cases hok

end Lookup

/-- What becomes of a request whose operation answered: a good answer to a request with a key is
kept, and every other one is given at once. -/
def answered (i : ℕ) (q : Request) (response : String) : Server :=
  if q.cacheKey.isSome && isOk response then
    s.setFlight i ⟨q, if q.route.recordsReceiptAfterResponse then .unrecorded response
      else .ready response⟩
  else s.clear i

variable {s} in
/-- A good answer of a mutating route goes to the cache. -/
theorem answered_mutation {i : ℕ} {q : Request} {response : String} {key : CacheKey}
    (hkey : q.cacheKey = some key) (hok : isOk response = true)
    (hroute : q.route.recordsReceiptAfterResponse = false) :
    s.answered i q response = s.setFlight i ⟨q, .ready response⟩ := by
  simp [answered, hkey, hok, hroute]

variable {s} in
/-- An answer without a key is given at once. -/
theorem answered_keyless {i : ℕ} {q : Request} {response : String} (hkey : q.cacheKey = none) :
    s.answered i q response = s.clear i := by
  simp [answered, hkey]

end Server

/-- The receipt that is recorded after the response. -/
def CacheKey.receiptAfter (key : CacheKey) (q : Request) (response : String) : IdempotencyReceipt :=
  { key.toReceipt (q.bodyHash P) with response := response }

/-- The operations a request can be in the middle of. -/
def Flight.Runs (flight : Flight) (op : Op) : Prop :=
  match flight.phase with
  | .missed => flight.request.Asks P op
  | .unrecorded response => ∃ key, flight.request.cacheKey = some key ∧
      op = .recordIdempotencyReceipt (key.receiptAfter P flight.request response)
  | _ => False

/-- The directory that a shard is left with when the server stops: as it is, or in the middle of the
operation of a request on its way. -/
inductive Halts (s : Server) (db : Db) (here : ShardKey → Prop) : Disk → Prop
  | idle : Halts s db here db.disk
  | inside {i : ℕ} {flight : Flight} {op : Op} {plan : PlannedWrite} {reply : Reply} {done : Db}
      (k n : ℕ) : s.flights i = some flight → here flight.request.shard → flight.Runs P op →
      db.plan P.toEngineFormat op = .ok (some plan) →
      db.run P.toEngineFormat op = (.ok reply, done) →
      Halts s db here (crashAt db.disk (db.writeSteps P.toEngineFormat plan) k n)

/-- The directories of the shards when the server has stopped: each is as it was, or as its handle
left it. -/
def Closes (s : Server) (dirs : String → Option Disk) : Prop :=
  ∀ path, ∃ disk, dirs path = some disk ∧
    (s.dirs path = some disk ∨ ∃ key db, s.shards key = some db ∧
      shardPath s.root.disk.dir key = path ∧ Halts P s db (fun key' => key' = key) disk)

/-- `open_server_state`: the receipts of the data root are read, and then the root is opened. -/
def openServerState (disk : Disk) (dirs : String → Option Disk) : Result Server := do
  let db ← Db.open P.toEngineFormat disk
  let root ← Db.open P.toEngineFormat db.disk
  .ok
    { root := root
      shards := fun _ => none
      dirs := dirs
      cache := .fromReceipts db.idempotencyReceipts
      flights := fun _ => none }

/-! ### Steps -/

/-- What is seen of a step. -/
inductive Label where
  | arrived (i : ℕ) (q : Request)
  | refused (i : ℕ) (q : Request) (response : String)
  | replayed (i : ℕ) (q : Request) (response : String)
  | missed (i : ℕ) (q : Request)
  | executed (i : ℕ) (q : Request) (response : String)
  | failed (i : ℕ) (q : Request) (response : String)
  | recorded (i : ℕ) (q : Request)
  | unrecordable (i : ℕ) (q : Request) (response : String)
  | inserted (i : ℕ) (q : Request) (response : String)
  | dropped (i : ℕ)
  | restarted
  deriving DecidableEq

/-- The answer that a step gives to a client. -/
def Label.answer : Label → Option (Request × String)
  | .refused _ q response | .replayed _ q response | .failed _ q response
  | .unrecordable _ q response | .inserted _ q response => some (q, response)
  | .executed _ q response => if q.cacheKey.isSome && isOk response
      then none else some (q, response)
  | _ => none

/-- The request that a step is about. -/
def Label.flight : Label → Option ℕ
  | .arrived i _ | .refused i _ _ | .replayed i _ _ | .missed i _ | .executed i _ _ | .failed i _ _
  | .recorded i _ | .unrecordable i _ _ | .inserted i _ _ | .dropped i => some i
  | .restarted => none

/-- The steps of the server. -/
inductive Step (s : Server) : Label → Server → Prop
  | arrive {s' : Server} (i : ℕ) (q : Request) : s.flights i = none → s.forActor P q = .ok s' →
      Step s (.arrived i q) (s'.setFlight i ⟨q, .arrived⟩)
  | refuse {e : String} (i : ℕ) (q : Request) : s.flights i = none → s.forActor P q = .error e →
      Step s (.refused i q (badRequest P e)) s
  | replay {i : ℕ} {q : Request} {response : String} : s.flights i = some ⟨q, .arrived⟩ →
      s.lookup P q = some response → Step s (.replayed i q response) (s.clear i)
  | miss {i : ℕ} {q : Request} : s.flights i = some ⟨q, .arrived⟩ → s.lookup P q = none →
      Step s (.missed i q) (s.setFlight i ⟨q, .missed⟩)
  | execute {i : ℕ} {q : Request} {db db' : Db} {response : String} :
      s.flights i = some ⟨q, .missed⟩ → s.db q.shard = some db →
      EngineSection P q db (.ok response) db' →
      Step s (.executed i q response) ((s.setDb q.shard db').answered i q response)
  | fail {i : ℕ} {q : Request} {db db' : Db} {e : String} : s.flights i = some ⟨q, .missed⟩ →
      s.db q.shard = some db → EngineSection P q db (.error e) db' →
      Step s (.failed i q (badRequest P e)) ((s.setDb q.shard db').clear i)
  | record {i : ℕ} {q : Request} {db db' : Db} {response : String} {key : CacheKey}
      {reply : Reply} : s.flights i = some ⟨q, .unrecorded response⟩ → q.cacheKey = some key →
      s.db q.shard = some db →
      db.run P.toEngineFormat (.recordIdempotencyReceipt (key.receiptAfter P q response)) =
        (.ok reply, db') →
      Step s (.recorded i q) ((s.setDb q.shard db').setFlight i ⟨q, .ready response⟩)
  | unrecord {i : ℕ} {q : Request} {db db' : Db} {response : String} {key : CacheKey}
      {e : TraceDbError} : s.flights i = some ⟨q, .unrecorded response⟩ → q.cacheKey = some key →
      s.db q.shard = some db →
      db.run P.toEngineFormat (.recordIdempotencyReceipt (key.receiptAfter P q response)) =
        (.error e, db') →
      Step s (.unrecordable i q (badRequest P (P.errorText e))) ((s.setDb q.shard db').clear i)
  | insert {i : ℕ} {q : Request} {response : String} {key : CacheKey} :
      s.flights i = some ⟨q, .ready response⟩ → q.cacheKey = some key →
      Step s (.inserted i q response)
        ({ s with cache := s.cache.insert key ⟨q.bodyHash P, response⟩ }.clear i)
  /-- A request waits for a lock before each of these phases ends. -/
  | drop {i : ℕ} {flight : Flight} : s.flights i = some flight →
      (∀ response, flight.phase ≠ .ready response) → Step s (.dropped i) (s.clear i)
  | restart {disk : Disk} {dirs : String → Option Disk} {s' : Server} :
      Halts P s s.root (fun key => key.isDefault = true) disk → Closes P s dirs →
      openServerState P disk dirs = .ok s' → Step s .restarted s'

end TraceDB
