import TraceDB.Engine.Epochs
import TraceDB.Server.Shards

/-!
# Answered writes last

A mutation is in the log of its shard before its answer is given, and nothing that happens later
takes it out: other requests add to the log, and so does what a stop in the middle of one of them
leaves behind.

* `Flight.Commits` : the commits of a request that is on its way.
* `EngineSection.grows` : the operation of a request only adds such commits to the log of its shard.
* `EngineSection.committed` : a mutation with a good answer has committed what it planned.
* `Server.HasLog` : the log behind a pair, in the handle that holds the directory or in the closed
  directory.  Every step of the server only adds to it, with commits of requests for this directory.
* `answered_writes_last` : so the commit of an answered mutation stays where it was put, along every
  run that follows, restarts included.
-/

namespace TraceDB

variable {P : ServerFormat}

/-! ### Requests -/

theorem answerOf_snd (body : Epoch → String) (outcome : Result Reply × Db) :
    (answerOf P body outcome).2 = outcome.2 := by
  rcases outcome with ⟨_ | _, _⟩ <;> rfl

/-- A commit of an operation that a request can be in the middle of. -/
def Flight.Commits (P : ServerFormat) (flight : Flight) (commit : CommitRecord) : Prop :=
  ∃ op, flight.Runs P op ∧ op.Commits P.toEngineFormat commit

theorem grows_of_runs (flight : Flight) {op : Op} (hruns : flight.Runs P op) (db : Db) :
    Grows P.toEngineFormat (flight.Commits P) db (db.run P.toEngineFormat op).2 :=
  (grows_run db op).mono fun _ hcommits => ⟨op, hruns, hcommits⟩

/-- **The operation of a request** only adds its commits to the log. -/
theorem EngineSection.grows {q : Request} {db db' : Db} {out : Except String String}
    (h : EngineSection P q db out db') :
    Grows P.toEngineFormat (Flight.Commits P ⟨q, .missed⟩) db db' := by
  cases h with
  | malformed _ => exact .refl db
  | @mutation decoded timing hdecode =>
    cases decoded with
    | run op body =>
      rw [Decoded.apply, answerOf_snd]
      exact grows_of_runs ⟨q, .missed⟩ (.inl ⟨body, hdecode⟩) db
    | timed records =>
      intro first covered entries hcounted
      rw [Decoded.apply, answerOf_snd]
      rcases hcounted.putBatchWithWriteTiming_cases records with heq | ⟨e, heq⟩
      · rw [heq]
        exact grows_of_runs ⟨q, .missed⟩ (.inr (.inl ⟨records, hdecode, rfl⟩)) db _ _ _ hcounted
      · rw [heq]
        exact .nothing hcounted
  | compact _ hcompact => exact grows_compact hcompact
  | compactFails _ _ => exact .refl db
  | reads _ _ => exact .refl db
  | @runs db' op reply body hroute hasked hop hrun =>
    have hgrows := grows_of_runs (P := P) ⟨q, .missed⟩ (.inr (.inr ⟨hroute, hasked, hop⟩)) db
    rwa [hrun] at hgrows
  | compacts body _ hcompact => exact grows_compact hcompact

/-- The operation of a request on a mutating route. -/
def Decoded.op : Decoded → Op
  | .run op _ => op
  | .timed records => .putBatch records none

/-- The body of its answer at the epoch of its commit, with the text of the timing in case it is
asked for. -/
def Decoded.body (decoded : Decoded) (timing : String) (epoch : Epoch) : String :=
  match decoded with
  | .run _ body => body epoch
  | .timed records => timedBatchBody records.length timing epoch

theorem Decoded.op_repliesEpoch {q : Request} {decoded : Decoded}
    (h : q.decode P = some (.ok decoded)) :
    decoded.op.repliesEpoch = true := by
  cases decoded with
  | run op body => exact (Request.decode_run h 0).2
  | timed records => rfl

/-- A good answer to an operation that replies with its epoch: what was planned is committed. -/
theorem committed_of_answer {db : Db} {entries : List WalEntry}
    (hsync : Synced P.toEngineFormat db entries) {op : Op} (hepoch : op.repliesEpoch = true)
    {body : Epoch → String} {response : String}
    (hanswer : (answerOf P body (db.run P.toEngineFormat op)).1 = .ok response) :
    ∃ plan, db.plan P.toEngineFormat op = .ok (some plan) ∧ Fits P.toWalFormat entries plan.commit ∧
      (db.run P.toEngineFormat op).2 = db.committed P.toEngineFormat entries plan ∧
      response = httpOkJson (body plan.commit.epoch) := by
  rw [hsync.run_eq] at hanswer ⊢
  rcases hplan : db.plan P.toEngineFormat op with e | _ | plan
  · rw [hplan] at hanswer
    cases hanswer
  · have hlease := (receipts_of_plan_none hplan 0).2
    rw [hepoch] at hlease
    cases hlease
  · rw [hplan] at hanswer
    by_cases hfit : Fits P.toWalFormat entries plan.commit
    · rw [Db.outcome, if_pos hfit] at hanswer
      rw [Db.outcome, if_pos hfit]
      refine ⟨plan, rfl, hfit, rfl, ?_⟩
      rw [(stamped_plan hplan).epoch, ← Except.ok.inj hanswer, (plan_receipts hplan).2 hepoch]
      rfl
    · rw [Db.outcome, if_neg hfit] at hanswer
      cases hanswer

/-- **A mutation with a good answer** has committed what it planned. -/
theorem EngineSection.committed {q : Request} {db db' : Db} {response : String} {decoded : Decoded}
    {entries : List WalEntry} (h : EngineSection P q db (.ok response) db')
    (hdecode : q.decode P = some (.ok decoded)) (hsync : Synced P.toEngineFormat db entries) :
    ∃ plan timing, db.plan P.toEngineFormat decoded.op = .ok (some plan) ∧
      Fits P.toWalFormat entries plan.commit ∧ db' = db.committed P.toEngineFormat entries plan ∧
      response = httpOkJson (decoded.body timing plan.commit.epoch) := by
  -- The other sections belong to routes that do not mutate.
  have hroute : q.route.isMutation = true := by
    by_contra hroute
    rw [Request.decode_eq_none (Bool.eq_false_iff.2 hroute)] at hdecode
    cases hdecode
  have hsame : ∀ {decoded'}, q.decode P = some (.ok decoded') → decoded' = decoded := fun h' =>
    Except.ok.inj (Option.some.inj (h'.symm.trans hdecode))
  have hepoch := Decoded.op_repliesEpoch hdecode
  generalize hout : Except.ok response = out at h
  cases h with
  | malformed _ => cases hout
  | @mutation decoded' timing hdecode' =>
    obtain rfl := hsame hdecode'
    cases decoded' with
    | run op body =>
      obtain ⟨plan, hplan, hfit, hdone, hresponse⟩ := committed_of_answer hsync hepoch hout.symm
      exact ⟨plan, timing, hplan, hfit, (answerOf_snd ..).trans hdone, hresponse⟩
    | timed records =>
      rw [Decoded.apply] at hout ⊢
      rcases hsync.putBatchWithWriteTiming_cases records with heq | ⟨e, heq⟩
      · rw [heq] at hout ⊢
        obtain ⟨plan, hplan, hfit, hdone, hresponse⟩ := committed_of_answer hsync hepoch hout.symm
        exact ⟨plan, timing, hplan, hfit, (answerOf_snd ..).trans hdone, hresponse⟩
      · rw [heq] at hout
        cases hout
  | compact hcompact _ =>
    rw [hcompact] at hroute
    cases hroute
  | compactFails _ _ => cases hout
  | reads hreads _ =>
    rw [hreads] at hroute
    cases hroute
  | runs _ hquery _ _ => rcases hquery with hquery | hquery <;> rw [hquery]
      at hroute <;> cases hroute
  | compacts _ hquery _ => rcases hquery with hquery | hquery <;> rw [hquery]
      at hroute <;> cases hroute

/-- **A stop in the middle of an operation** leaves the log, or the log with one more commit of a
request. -/
theorem Halts.hasLog {s : Server} {db : Db} {here : ShardKey → Prop} {disk : Disk}
    {first covered : Epoch} {entries : List WalEntry} (h : Halts P s db here disk)
    (hcounted : Counted P.toEngineFormat db first covered entries) :
    Adds (fun entry => ∃ i flight, s.flights i = some flight ∧ here flight.request.shard ∧
      flight.Commits P entry.commit) (disk.HasLog P.toEngineFormat first covered) entries := by
  cases h with
  | idle => exact .nothing hcounted.hasLog
  | @inside i flight op plan reply done k n hi hhere hruns hplan hrun =>
    exact (hcounted.crash hplan hrun k n).mono (fun _ hlog => hlog)
      fun entry hcommits => ⟨i, flight, hi, hhere, op, hruns, hcommits⟩

/-! ### The log behind a pair -/

/-- A commit of a request that is on its way to the directory of a pair. -/
def Server.Commits (P : ServerFormat) (rootDir : String) (s : Server) (key : ShardKey)
    (commit : CommitRecord) : Prop :=
  ∃ i flight, s.flights i = some flight ∧
    shardDir rootDir flight.request.shard = shardDir rootDir key ∧ flight.Commits P commit

/-- The log behind a pair, in the handle that holds its directory or in the closed directory.  It
begins with the first epoch, since the server has no checkpoints. -/
inductive Server.HasLog (P : ServerFormat) (rootDir : String) (s : Server) (key : ShardKey)
    (entries : List WalEntry) : Prop
  | root : key.isDefault = true → Counted P.toEngineFormat s.root 0 0 entries →
      s.HasLog P rootDir key entries
  | held {holder : ShardKey} {db : Db} : key.isDefault = false → s.shards holder = some db →
      shardPath rootDir holder = shardPath rootDir key → Counted P.toEngineFormat db 0 0 entries →
      s.HasLog P rootDir key entries
  | closed {disk : Disk} : key.isDefault = false → s.dirs (shardPath rootDir key) = some disk →
      disk.HasLog P.toEngineFormat 0 0 entries → s.HasLog P rootDir key entries

namespace Server.HasLog

variable {rootDir : String} {s s' : Server} {key : ShardKey} {entries : List WalEntry}

theorem of_db {db : Db} (hdb : s.db key = some db)
    (hcounted : Counted P.toEngineFormat db 0 0 entries) :
    s.HasLog P rootDir key entries := by
  unfold Server.db at hdb
  cases hdefault : key.isDefault with
  | true =>
    rw [hdefault, if_pos rfl] at hdb
    obtain rfl := Option.some.inj hdb
    exact .root hdefault hcounted
  | false =>
    rw [hdefault, if_neg Bool.false_ne_true] at hdb
    exact .held hdefault hdb rfl hcounted

theorem congr (h : s.HasLog P rootDir key entries) (hsame : s.SameFiles s') :
    s'.HasLog P rootDir key entries := by
  obtain ⟨hroot, hshards, hdirs⟩ := hsame
  cases h with
  | root hkey hcounted => exact .root hkey (hroot ▸ hcounted)
  | held hkey hdb hpath hcounted =>
    rw [← hshards] at hdb
    exact .held hkey hdb hpath hcounted
  | closed hkey hdisk hlog =>
    rw [← hdirs] at hdisk
    exact .closed hkey hdisk hlog

/-- Opening a shard moves a log from its directory to the handle. -/
theorem forActor (h : s.HasLog P rootDir key entries) (hlocks : s.Locks P rootDir) {q : Request}
    (hactor : s.forActor P q = .ok s') : s'.HasLog P rootDir key entries := by
  rcases Server.forActor_cases hactor with rfl | ⟨disk, db, -, hdisk, hopen, rfl⟩
  · exact h
  rw [hlocks.rootDir_eq] at hdisk
  cases h with
  | root hkey hcounted => exact .root hkey hcounted
  | @held holder db' hkey hdb hpath hcounted =>
    have hne : holder ≠ q.shard := by
      rintro rfl
      rw [hlocks.held _ _ hdb] at hdisk
      cases hdisk
    exact .held hkey ((Function.update_of_ne hne ..).trans hdb) hpath hcounted
  | closed hkey hclosed hlog =>
    by_cases hpath : shardPath rootDir key = shardPath rootDir q.shard
    · rw [hpath, hdisk] at hclosed
      obtain rfl := Option.some.inj hclosed
      exact .held hkey (Function.update_self ..) hpath.symm (hlog.counted hopen)
    · refine .closed hkey ?_ hlog
      simp only [hlocks.rootDir_eq]
      exact (Function.update_of_ne hpath ..).trans hclosed

/-- A handle that gets further takes the log with it. -/
theorem setDb (h : s.HasLog P rootDir key entries) {i : ℕ} {flight : Flight}
    (hi : s.flights i = some flight) {db db' : Db} (hdb : s.db flight.request.shard = some db)
    (hgrows : Grows P.toEngineFormat (flight.Commits P) db db') :
    Adds (fun entry => s.Commits P rootDir key entry.commit)
      ((s.setDb flight.request.shard db').HasLog P rootDir key) entries := by
  unfold Server.db at hdb
  cases hdefault : flight.request.shard.isDefault with
  | true =>
    rw [hdefault, if_pos rfl] at hdb
    obtain rfl := Option.some.inj hdb
    rw [Server.setDb_default hdefault]
    cases h with
    | root hkey hcounted =>
      exact (hgrows 0 0 entries hcounted).mono (fun _ hlog => .root hkey hlog) fun _ hcommits =>
        ⟨i, flight, hi, shardDir_eq_iff.2 (.inl ⟨hdefault, hkey⟩), hcommits⟩
    | held hkey hdb' hpath hcounted => exact .nothing (.held hkey hdb' hpath hcounted)
    | closed hkey hdisk hlog => exact .nothing (.closed hkey hdisk hlog)
  | false =>
    rw [hdefault, if_neg Bool.false_ne_true] at hdb
    rw [Server.setDb_other hdefault]
    cases h with
    | root hkey hcounted => exact .nothing (.root hkey hcounted)
    | @held holder db₀ hkey hdb₀ hpath hcounted =>
      by_cases hholder : holder = flight.request.shard
      · subst hholder
        obtain rfl := Option.some.inj (hdb.symm.trans hdb₀)
        refine (hgrows 0 0 entries hcounted).mono
          (fun _ hlog => .held hkey (Function.update_self ..) hpath hlog) fun _ hcommits =>
            ⟨i, flight, hi, ?_, hcommits⟩
        simpa only [shardDir, hdefault, hkey, Bool.false_eq_true, if_false] using hpath
      · exact .nothing (.held hkey ((Function.update_of_ne hholder ..).trans hdb₀) hpath hcounted)
    | closed hkey hdisk hlog => exact .nothing (.closed hkey hdisk hlog)

/-- A restart takes the logs of the handles to the directories, and opens the data root again. -/
theorem restart (h : s.HasLog P rootDir key entries) (hlocks : s.Locks P rootDir) {disk : Disk}
    {dirs : String → Option Disk} (hroot : Halts P s s.root (fun key => key.isDefault = true) disk)
    (hdirs : Closes P s dirs) (hopen : openServerState P disk dirs = .ok s') :
    Adds (fun entry => s.Commits P rootDir key entry.commit) (s'.HasLog P rootDir key) entries := by
  obtain ⟨db, hdb, hroot', -, hsame, -, -⟩ := openServerState_eq hopen
  cases h with
  | root hkey hcounted =>
    refine (hroot.hasLog hcounted).mono
      (fun _ hlog => .root hkey ((hlog.counted hdb).hasLog.counted hroot')) ?_
    rintro entry ⟨i, flight, hi, hdefault, hcommits⟩
    exact ⟨i, flight, hi, shardDir_eq_iff.2 (.inl ⟨hdefault, hkey⟩), hcommits⟩
  | @held holder db₀ hkey hdb₀ hpath hcounted =>
    obtain ⟨closed, hclosed, hkept | ⟨holder', db', hdb', hpath', hhalts⟩⟩ :=
      hdirs (shardPath rootDir key)
    · rw [← hpath, hlocks.held _ _ hdb₀] at hkept
      cases hkept
    · rw [hlocks.rootDir_eq] at hpath'
      obtain rfl := hlocks.single _ _ _ _ hdb₀ hdb' (hpath.trans hpath'.symm)
      obtain rfl := Option.some.inj (hdb₀.symm.trans hdb')
      refine (hhalts.hasLog hcounted).mono (fun _ hlog => .closed hkey (hsame ▸ hclosed) hlog) ?_
      rintro entry ⟨i, flight, hi, rfl, hcommits⟩
      refine ⟨i, flight, hi, ?_, hcommits⟩
      simpa only [shardDir, hlocks.other _ _ hdb₀, hkey, Bool.false_eq_true, if_false] using hpath
  | closed hkey hdisk hlog =>
    obtain ⟨closed, hclosed, hkept | ⟨holder', db', hdb', hpath', -⟩⟩ :=
      hdirs (shardPath rootDir key)
    · obtain rfl := Option.some.inj (hkept.symm.trans hdisk)
      exact .nothing (.closed hkey (hsame ▸ hclosed) hlog)
    · rw [hlocks.rootDir_eq] at hpath'
      rw [← hpath', hlocks.held _ _ hdb'] at hdisk
      cases hdisk

/-- **Every step** only adds to the log behind a pair, with commits of requests for its
directory. -/
theorem step (h : s.HasLog P rootDir key entries) (hlocks : s.Locks P rootDir) {label : Label}
    (hstep : Step P s label s') :
    Adds (fun entry => s.Commits P rootDir key entry.commit) (s'.HasLog P rootDir key) entries := by
  have hsame : ∀ {s₁ : Server}, s.SameFiles s₁ →
      Adds (fun entry => s.Commits P rootDir key entry.commit) (s₁.HasLog P rootDir key) entries :=
    fun hsame => .nothing (h.congr hsame)
  have hwrote : ∀ {i : ℕ} {flight : Flight} {db db' : Db} {s₁ : Server}, s.flights i = some flight →
      s.db flight.request.shard = some db → Grows P.toEngineFormat (flight.Commits P) db db' →
      (s.setDb flight.request.shard db').SameFiles s₁ →
      Adds (fun entry => s.Commits P rootDir key entry.commit) (s₁.HasLog P rootDir key) entries :=
    fun hi hdb hgrows hsame =>
      (h.setDb hi hdb hgrows).mono (fun _ hlog => hlog.congr hsame) fun _ hcommits => hcommits
  cases hstep with
  | arrive i q _ hactor => exact .nothing ((h.forActor hlocks hactor).congr ⟨rfl, rfl, rfl⟩)
  | refuse _ _ _ _ => exact hsame (.refl s)
  | replay _ _ => exact hsame ⟨rfl, rfl, rfl⟩
  | miss _ _ => exact hsame ⟨rfl, rfl, rfl⟩
  | execute hi hdb hsection => exact hwrote hi hdb hsection.grows (Server.sameFiles_answered ..)
  | fail hi hdb hsection => exact hwrote hi hdb hsection.grows ⟨rfl, rfl, rfl⟩
  | @record i q db db' response idempotency reply hi hkey hdb hrun =>
    have hgrows := grows_of_runs (P := P) ⟨q, .unrecorded response⟩
      ⟨idempotency, hkey, rfl⟩ db
    rw [hrun] at hgrows
    exact hwrote hi hdb hgrows ⟨rfl, rfl, rfl⟩
  | @unrecord i q db db' response idempotency e hi hkey hdb hrun =>
    have hgrows := grows_of_runs (P := P) ⟨q, .unrecorded response⟩
      ⟨idempotency, hkey, rfl⟩ db
    rw [hrun] at hgrows
    exact hwrote hi hdb hgrows ⟨rfl, rfl, rfl⟩
  | insert _ _ => exact hsame ⟨rfl, rfl, rfl⟩
  | drop _ _ => exact hsame ⟨rfl, rfl, rfl⟩
  | restart hroot hdirs hopen => exact h.restart hlocks hroot hdirs hopen

/-- So does every run. -/
theorem runs (h : s.HasLog P rootDir key entries) (hlocks : s.Locks P rootDir)
    {allowed : Server → Label → Prop} {trace : List Label}
    (hruns : Runs (Step P) allowed s trace s') :
    Adds (fun _ => True) (s'.HasLog P rootDir key) entries :=
  hruns.adds (I := fun s => s.Locks P rootDir) (H := fun s => s.HasLog P rootDir key) hlocks
    (fun _ _ _ _ hstep hlocks => hlocks.step hstep)
    (fun _ _ _ _ _ hstep hlocks hlog =>
      (hlog.step hlocks hstep).mono (fun _ hlog => hlog) fun _ _ => trivial) h

/-- The directories of a new server are empty. -/
theorem opened {start : Server} (h : openServerState P (Disk.empty rootDir)
    (fun path => some (Disk.empty path)) = .ok start) (key : ShardKey) :
    start.HasLog P rootDir key [] := by
  obtain ⟨db, hdb, hroot, -, hdirs, -, -⟩ := openServerState_eq h
  cases hkey : key.isDefault with
  | true => exact .root hkey (((Disk.HasLog.empty rfl).counted hdb).hasLog.counted hroot)
  | false => exact .closed hkey (congrFun hdirs _) (.empty rfl)

/-- The handle of a pair has the log behind it. -/
theorem counted (h : s.HasLog P rootDir key entries) (hlocks : s.Locks P rootDir) {db : Db}
    (hdb : s.db key = some db) : Counted P.toEngineFormat db 0 0 entries := by
  cases h with
  | root hkey hcounted =>
    rw [Server.db, hkey, if_pos rfl] at hdb
    obtain rfl := Option.some.inj hdb
    exact hcounted
  | @held holder db₀ hkey hdb₀ hpath hcounted =>
    rw [Server.db, hkey, if_neg Bool.false_ne_true] at hdb
    obtain rfl := hlocks.single _ _ _ _ hdb₀ hdb hpath
    obtain rfl := Option.some.inj (hdb₀.symm.trans hdb)
    exact hcounted
  | closed hkey hdisk _ =>
    rw [Server.db, hkey, if_neg Bool.false_ne_true] at hdb
    rw [hlocks.held _ _ hdb] at hdisk
    cases hdisk

/-- It is in the files behind the pair. -/
theorem behind (h : s.HasLog P rootDir key entries) (hlocks : s.Locks P rootDir) :
    ∃ disk, s.Behind key disk ∧ disk.HasLog P.toEngineFormat 0 0 entries := by
  cases h with
  | root hkey hcounted => exact ⟨_, .root hkey, hcounted.hasLog⟩
  | held hkey hdb hpath hcounted =>
    exact ⟨_, .held hkey hdb (by rw [hlocks.rootDir_eq, hpath]), hcounted.hasLog⟩
  | closed hkey hdisk hlog => exact ⟨_, .closed hkey (by rw [hlocks.rootDir_eq, hdisk]), hlog⟩

end Server.HasLog

/-! ### Answered writes -/

/-- What is found behind a pair: a directory with certain commits in its log, one for each epoch
from the first on.  The handle of the pair has them, if it is open, and so has every handle that is
opened on the directory. -/
structure Server.Logged (P : ServerFormat) (s : Server) (key : ShardKey)
    (commits : List CommitRecord) :
    Prop where
  consecutive : Consecutive 0 commits
  kept : ∃ disk, s.Behind key disk ∧ disk.loggedCommits P.toEngineFormat = .ok commits ∧
    ∀ db, Db.open P.toEngineFormat disk = .ok db →
    db.disk.loggedCommits P.toEngineFormat = .ok commits
  served : ∀ db, s.db key = some db → db.disk.loggedCommits P.toEngineFormat = .ok commits

theorem Server.HasLog.logged {rootDir : String} {s : Server} {key : ShardKey}
    {entries : List WalEntry} (h : s.HasLog P rootDir key entries) (hlocks : s.Locks P rootDir) :
    s.Logged P key (entries.map (·.commit)) := by
  obtain ⟨disk, hbehind, hlog⟩ := h.behind hlocks
  refine ⟨hlog.consecutive, ⟨disk, hbehind, hlog.loggedCommits, fun db hopen => ?_⟩,
    fun db hdb => ?_⟩
  · exact (hlog.counted hopen).hasLog.loggedCommits
  · exact (h.counted hlocks hdb).hasLog.loggedCommits

/-- **Behind every pair** there is a log at any time. -/
theorem Server.Started.hasLog {rootDir : String} {s : Server} (h : s.Started P rootDir)
    (key : ShardKey) :
    ∃ entries, s.HasLog P rootDir key entries := by
  obtain ⟨start, trace, hopen, hruns⟩ := h
  have hlocks : start.Locks P rootDir := .opened hopen fun db hdb => .opened hdb
  obtain ⟨rest, hlog, -⟩ := (Server.HasLog.opened hopen key).runs hlocks hruns
  exact ⟨_, hlog⟩

/-- **A mutation that is executed** appends the commit that it planned, and is answered with its
epoch. -/
theorem Step.executed_commits {rootDir : String} {s s₁ : Server} {i : ℕ} {q : Request}
    {response : String} {decoded : Decoded} {entries : List WalEntry}
    (hstep : Step P s (.executed i q response) s₁) (hdecode : q.decode P = some (.ok decoded))
    (hlocks : s.Locks P rootDir) (hlog : s.HasLog P rootDir q.shard entries) :
    ∃ db plan timing, s.db q.shard = some db ∧
    db.plan P.toEngineFormat decoded.op = .ok (some plan) ∧
      plan.commit.epoch = entries.length + 1 ∧
      response = httpOkJson (decoded.body timing plan.commit.epoch) ∧
      s₁.HasLog P rootDir q.shard (entries ++ [nextEntry P.toWalFormat entries plan.commit]) := by
  cases hstep with
  | @execute _ _ db db' _ _ hdb hsection =>
    have hcounted := hlog.counted hlocks hdb
    obtain ⟨plan, timing, hplan, hfit, rfl, hresponse⟩ :=
      hsection.committed hdecode hcounted.toSynced
    refine ⟨db, plan, timing, hdb, hplan, ?_, hresponse, ?_⟩
    · have hlatest := hcounted.numbered.latest
      rw [(stamped_plan hplan).epoch, Db.nextEpoch, hlatest, Nat.zero_add]
    · have hlog₁ : (s.setDb q.shard (db.committed P.toEngineFormat entries plan)).HasLog P
          rootDir q.shard
          (entries ++ [nextEntry P.toWalFormat entries plan.commit]) :=
        .of_db (Server.db_setDb_self ..) (hcounted.committed hplan hfit)
      exact hlog₁.congr (Server.sameFiles_answered ..)

end TraceDB
