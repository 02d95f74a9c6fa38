import TraceDB.Server.Handler

/-!
# The databases behind the server

* `EngineSection.spec` : what the engine operation of a request can do to a database.
* `Server.Sound` : the databases of a running server are those of runs of the engine, and the
  directories it has closed open to such.  Every step keeps it.
* `Step.fail_unchanged` : an operation that fails leaves all databases as they were.
-/

namespace TraceDB

variable {P : ServerFormat}

/-! ### One engine operation -/

theorem Request.decode_eq_none {q : Request} (h : q.route.isMutation = false) :
    q.decode P = none := by
  unfold Request.decode
  cases hroute : q.route <;> simp_all [Route.isMutation]

theorem Request.receiptsFor_of_decode {q : Request} (h : q.decode P = none) (response : String) :
    q.receiptsFor P response = [] := by
  rw [Request.receiptsFor, h]

/-- A database after an operation of a request: nothing has changed, or the answer was good and the
receipts of the request were added. -/
structure Served (P : ServerFormat) (q : Request) (dir : String) (db : Db)
    (out : Except String String) (db' : Db) : Prop where
  reachable : Reachable P.toEngineFormat dir db'
  failed : ∀ e, out = .error e → db' = db
  receipts : ∀ response, out = .ok response →
    db'.idempotencyReceipts = db.idempotencyReceipts ++ q.receiptsFor P response

/-- Without a receipt to leave, it is enough that the receipts have not changed. -/
theorem Served.quiet {q : Request} {dir : String} {db db' : Db} {response : String}
    (hreach : Reachable P.toEngineFormat dir db') (hdecode : q.decode P = none)
    (hreceipts : db'.idempotencyReceipts = db.idempotencyReceipts) :
    Served P q dir db (.ok response) db' where
  reachable := hreach
  failed e herror := by cases herror
  receipts r _ := by rw [hreceipts, Request.receiptsFor_of_decode hdecode, List.append_nil]

theorem Published.receipts {F : EngineFormat} {db db' : Db} (h : Published F db db') :
    db'.idempotencyReceipts = db.idempotencyReceipts := by
  rcases h with rfl | ⟨_, _, _, rfl⟩ <;> rfl

theorem Reachable.receipts_compact {F : EngineFormat} [F.Lossless] {dir : String} {db db' : Db}
    (h : Reachable F dir db) (hcompact : db.compact F = .ok db') :
    db'.idempotencyReceipts = db.idempotencyReceipts := by
  obtain ⟨entries, hsync⟩ := h.synced
  exact (hsync.publishCompactedSegment_cases hcompact).receipts

/-- An operation that replies with its epoch. -/
theorem served_run {q : Request} {dir : String} {db : Db} (h : Reachable P.toEngineFormat dir db)
    {op : Op} {body : Epoch → String}
    (hop : ∀ epoch, op.receipts epoch = q.receiptsFor P (httpOkJson (body epoch)))
    (hepoch : op.repliesEpoch = true) :
    Served P q dir db (answerOf P body (db.run P.toEngineFormat op)).1
      (answerOf P body (db.run P.toEngineFormat op)).2 := by
  obtain ⟨entries, hsync⟩ := h.synced
  rcases hrun : db.run P.toEngineFormat op with ⟨e | reply, db'⟩
  · have hfail := (hsync.run_receipts hrun).1 e rfl
    exact ⟨h.of_run hrun, fun _ _ => hfail, fun response hok => by cases hok⟩
  · obtain ⟨hreceipts, hreply⟩ := (hsync.run_receipts hrun).2 reply rfl
    refine ⟨h.of_run hrun, (fun e herror => by cases herror), fun response hok => ?_⟩
    obtain rfl := Except.ok.inj hok
    rw [hreply hepoch]
    exact hreceipts.trans (by rw [hop]; rfl)

theorem served_timed {q : Request} {dir : String} {db : Db} (h : Reachable P.toEngineFormat dir db)
    {records : List RecordInput} (hdecode : q.decode P = some (.ok (.timed records)))
    (body : Epoch → String) :
    Served P q dir db
      (answerOf P body (db.putBatchWithWriteTiming P.toEngineFormat records)).1
      (answerOf P body (db.putBatchWithWriteTiming P.toEngineFormat records)).2 := by
  obtain ⟨entries, hsync⟩ := h.synced
  rcases hsync.putBatchWithWriteTiming_cases records with heq | ⟨e, heq⟩
  · rw [heq]
    refine served_run h (fun epoch => ?_) rfl
    rw [Request.receiptsFor, hdecode]
    rfl
  · rw [heq]
    exact ⟨h, fun _ _ => rfl, fun response hok => by cases hok⟩

/-- **What the engine operation of a request can do.** -/
theorem EngineSection.spec {q : Request} {dir : String} {db db' : Db} {out : Except String String}
    (h : EngineSection P q db out db') (hreach : Reachable P.toEngineFormat dir db) :
    Served P q dir db out db' := by
  cases h with
  | malformed hdecode => exact ⟨hreach, fun _ _ => rfl, fun response hok => by cases hok⟩
  | @mutation decoded timing hdecode =>
    cases decoded with
    | run op body =>
      exact served_run hreach (fun epoch => (Request.decode_run hdecode epoch).1)
        (Request.decode_run hdecode 0).2
    | timed records => exact served_timed hreach hdecode _
  | compact hroute hcompact =>
    exact .quiet (hreach.compact hcompact) (Request.decode_eq_none (by rw [hroute]; rfl))
      (hreach.receipts_compact hcompact)
  | compactFails hroute hcompact =>
    exact ⟨hreach, fun _ _ => rfl, fun response hok => by cases hok⟩
  | reads hroute hcompact =>
    refine ⟨hreach, fun _ _ => rfl, fun response _ => ?_⟩
    rw [Request.receiptsFor_of_decode (Request.decode_eq_none hroute), List.append_nil]
  | @runs db' op reply body hroute hasked hop hrun =>
    obtain ⟨entries, hsync⟩ := hreach.synced
    have hreceipts := ((hsync.run_receipts hrun).2 reply rfl).1
    rw [hop, List.append_nil] at hreceipts
    have hmutation : q.route.isMutation = false := by rcases hroute with h | h <;> rw [h] <;> rfl
    exact .quiet (hreach.of_run hrun) (Request.decode_eq_none hmutation) hreceipts
  | compacts body hroute hcompact =>
    have hmutation : q.route.isMutation = false := by rcases hroute with h | h <;> rw [h] <;> rfl
    exact .quiet (hreach.compact hcompact) (Request.decode_eq_none hmutation)
      (hreach.receipts_compact hcompact)

/-! ### All databases -/

/-- A directory that opens to a database of a run of the engine. -/
def Reopens (F : EngineFormat) (disk : Disk) : Prop :=
  ∀ db, Db.open F disk = .ok db → ∃ dir, Reachable F dir db

/-- The databases of a server. -/
structure Server.Sound (P : ServerFormat) (s : Server) : Prop where
  root : ∃ dir, Reachable P.toEngineFormat dir s.root
  shards : ∀ key db, s.shards key = some db → ∃ dir, Reachable P.toEngineFormat dir db
  dirs : ∀ path disk, s.dirs path = some disk → Reopens P.toEngineFormat disk

theorem Halts.reopens {s : Server} {db : Db} {here : ShardKey → Prop} {disk : Disk} {dir : String}
    (h : Halts P s db here disk) (hreach : Reachable P.toEngineFormat dir db) :
    Reopens P.toEngineFormat disk := by
  intro db' hopen
  cases h with
  | idle => exact ⟨dir, hreach.reopen hopen⟩
  | inside k n _ _ _ hplan hrun => exact ⟨dir, hreach.crash k n hplan hrun hopen⟩

/-- A server that has just been started. -/
theorem openServerState_eq {disk : Disk} {dirs : String → Option Disk} {s : Server}
    (h : openServerState P disk dirs = .ok s) :
    ∃ db, Db.open P.toEngineFormat disk = .ok db ∧ Db.open P.toEngineFormat db.disk = .ok s.root ∧
      (∀ key, s.shards key = none) ∧ s.dirs = dirs ∧
      s.cache = .fromReceipts db.idempotencyReceipts ∧ ∀ i, s.flights i = none := by
  simp only [openServerState, Except.bind_eq_ok_iff] at h
  obtain ⟨db, hdb, root, hroot, h⟩ := h
  obtain rfl := Except.ok.inj h
  exact ⟨db, hdb, hroot, fun _ => rfl, rfl, rfl, fun _ => rfl⟩

namespace Server.Sound

variable {s s' : Server}

theorem opened {disk : Disk} {dirs : String → Option Disk}
    (h : openServerState P disk dirs = .ok s) (hroot : Reopens P.toEngineFormat disk)
    (hdirs : ∀ path disk, dirs path = some disk → Reopens P.toEngineFormat disk) : s.Sound P := by
  obtain ⟨db, hdb, hopen, hshards, hsame, -, -⟩ := openServerState_eq h
  obtain ⟨dir, hreach⟩ := hroot db hdb
  refine ⟨⟨dir, hreach.reopen hopen⟩, fun key db' hdb' => ?_, ?_⟩
  · rw [hshards] at hdb'
    cases hdb'
  · rw [hsame]
    exact hdirs

/-- The first start on an empty data root. -/
theorem started {dir : String}
    (h : openServerState P (Disk.empty dir) (fun path => some (Disk.empty path)) = .ok s) :
    s.Sound P := by
  have hempty : ∀ path, Reopens P.toEngineFormat (Disk.empty path) :=
    fun path db hopen => ⟨path, .opened hopen⟩
  refine opened h (hempty dir) fun path disk hdisk => ?_
  obtain rfl := Option.some.inj hdisk
  exact hempty path

theorem db (h : s.Sound P) {key : ShardKey} {db : Db} (hdb : s.db key = some db) :
    ∃ dir, Reachable P.toEngineFormat dir db := by
  unfold Server.db at hdb
  split_ifs at hdb
  · obtain rfl := Option.some.inj hdb
    exact h.root
  · exact h.shards key db hdb

theorem setDb (h : s.Sound P) {key : ShardKey} {db : Db} {dir : String}
    (hreach : Reachable P.toEngineFormat dir db) : (s.setDb key db).Sound P := by
  unfold Server.setDb
  split_ifs with hdefault
  · exact ⟨⟨dir, hreach⟩, h.shards, h.dirs⟩
  · refine ⟨h.root, fun key' db' hdb' => ?_, h.dirs⟩
    rcases eq_or_of_update_some hdb' with ⟨-, rfl⟩ | ⟨-, hold⟩
    · exact ⟨dir, hreach⟩
    · exact h.shards key' db' hold

theorem setFlight (h : s.Sound P) (i : ℕ) (flight : Flight) : (s.setFlight i flight).Sound P :=
  ⟨h.root, h.shards, h.dirs⟩

theorem clear (h : s.Sound P) (i : ℕ) : (s.clear i).Sound P := ⟨h.root, h.shards, h.dirs⟩

theorem answered (h : s.Sound P) (i : ℕ) (q : Request) (response : String) :
    (s.answered i q response).Sound P := by
  unfold Server.answered
  split_ifs
  · exact h.setFlight ..
  · exact h.setFlight ..
  · exact h.clear i

theorem forActor (h : s.Sound P) {q : Request} (hactor : s.forActor P q = .ok s') : s'.Sound P := by
  rcases Server.forActor_cases hactor with rfl | ⟨disk, db, -, hdisk, hopen, rfl⟩
  · exact h
  obtain ⟨dir, hreach⟩ := h.dirs _ disk hdisk db hopen
  refine ⟨h.root, fun key db' hdb' => ?_, fun path disk' hdisk' => ?_⟩
  · rcases eq_or_of_update_some hdb' with ⟨-, rfl⟩ | ⟨-, hold⟩
    · exact ⟨dir, hreach⟩
    · exact h.shards key db' hold
  · exact h.dirs path disk' (of_update_none hdisk').2

/-- **Every step keeps the databases sound.** -/
theorem step (h : s.Sound P) {label : Label} (hstep : Step P s label s') : s'.Sound P := by
  cases hstep with
  | arrive i q _ hactor => exact (h.forActor hactor).setFlight ..
  | refuse i q _ _ => exact h
  | replay _ _ => exact h.clear _
  | miss _ _ => exact h.setFlight ..
  | execute _ hdb hsection =>
    obtain ⟨dir, hreach⟩ := h.db hdb
    exact (h.setDb (hsection.spec hreach).reachable).answered ..
  | fail _ hdb hsection =>
    obtain ⟨dir, hreach⟩ := h.db hdb
    exact (h.setDb (hsection.spec hreach).reachable).clear _
  | record _ _ hdb hrun =>
    obtain ⟨dir, hreach⟩ := h.db hdb
    exact (h.setDb (hreach.of_run hrun)).setFlight ..
  | unrecord _ _ hdb hrun =>
    obtain ⟨dir, hreach⟩ := h.db hdb
    exact (h.setDb (hreach.of_run hrun)).clear _
  | insert _ _ => exact ⟨h.root, h.shards, h.dirs⟩
  | drop _ _ => exact h.clear _
  | restart hroot hdirs hopen =>
    obtain ⟨dir, hreach⟩ := h.root
    refine opened hopen (hroot.reopens hreach) fun path disk hdisk => ?_
    obtain ⟨closed, hclosed, hcases⟩ := hdirs path
    obtain rfl := Option.some.inj (hdisk.symm.trans hclosed)
    rcases hcases with hkept | ⟨key, db, hdb, -, hhalts⟩
    · exact h.dirs path disk hkept
    · obtain ⟨dir', hreach'⟩ := h.shards key db hdb
      exact hhalts.reopens hreach'

/-- The databases along a run of the server. -/
theorem runs {allowed : Server → Label → Prop} {start : Server} (hstart : start.Sound P)
    {trace : List Label} (h : Runs (Step P) allowed start trace s) : s.Sound P :=
  h.invariant (I := fun _ s => s.Sound P) hstart fun _ _ _ _ _ hstep hs => hs.step hstep

end Server.Sound

/-- The step of an operation that is planned and fits into the log. -/
theorem Step.execute_run {s : Server} {i : ℕ} {q : Request} {db : Db} {op : Op}
    {body : Epoch → String} {plan : PlannedWrite} {entries : List WalEntry}
    (hi : s.flights i = some ⟨q, .missed⟩) (hdb : s.db q.shard = some db)
    (hdecode : q.decode P = some (.ok (.run op body))) (hsync : Synced P.toEngineFormat db entries)
    (hplan : db.plan P.toEngineFormat op = .ok (some plan))
    (hfit : Fits P.toWalFormat entries plan.commit) :
    Step P s (.executed i q (httpOkJson (body db.nextEpoch)))
      ((s.setDb q.shard (db.committed P.toEngineFormat entries plan)).answered i q
        (httpOkJson (body db.nextEpoch))) := by
  have hreply := (plan_receipts hplan).2 (Request.decode_run hdecode 0).2
  have hrun : db.run P.toEngineFormat op =
      (.ok (.epoch db.nextEpoch), db.committed P.toEngineFormat entries plan) := by
    rw [hsync.run_of_fits hplan hfit, hreply]
  have hsection := @EngineSection.mutation _ _ db _ "" hdecode
  rw [Decoded.apply, hrun] at hsection
  exact .execute hi hdb hsection

/-- **An operation that fails leaves all databases as they were.** -/
theorem Step.fail_unchanged {s s' : Server} (hsound : s.Sound P) {i : ℕ} {q : Request}
    {response : String} (h : Step P s (.failed i q response) s') : s' = s.clear i := by
  cases h with
  | fail _ hdb hsection =>
    obtain ⟨dir, hreach⟩ := hsound.db hdb
    rw [(hsection.spec hreach).failed _ rfl, Server.setDb_self hdb]

end TraceDB
