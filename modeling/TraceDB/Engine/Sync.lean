import TraceDB.Engine.Segment
import TraceDB.Log.Recovery

/-!
# A handle in step with its directory

* `Synced F db entries` : the manifest file holds the manifest of the handle, and the log file is
  the chain of `entries`, all of them at epochs the manifest knows.
* `Synced.write_eq`, `Synced.run_eq` : what a write operation does to such a handle, as an equation.
  `Db.plan` is the decision of an operation, `Db.committed` the handle after it.
* `Orderly.open_eq` : opening a directory whose files are in order, also after a cut frame, is
  `recover` on the commits of the log.
-/

namespace TraceDB

variable (F : EngineFormat)

/-- The changes the log holds after the checkpoint of the manifest. -/
def loggedChanges (manifest : Manifest) (entries : List WalEntry) : List TableSchema :=
  (commitsAfterCheckpoint manifest (entries.map (·.commit))).flatMap (·.schemaChanges)

/-- The handle is in step with its directory, and its log holds `entries`. -/
structure Synced (db : Db) (entries : List WalEntry) : Prop where
  isSealed : Sealed F db.manifest
  manifestFile : db.disk.manifest = some (F.manifestCodec.encode db.manifest)
  chain : Chain F.toWalFormat entries db.disk.wal
  tail : db.walTail = tailFromScan db.disk.wal.length entries
  epochs : ∀ entry ∈ entries, entry.commit.epoch ≤ db.manifest.latestEpoch
  checkpoint : db.manifest.checkpointEpoch ≤ db.manifest.latestEpoch
  names : (db.manifest.schemas.map (·.name)).Nodup
  covers : Covers db.manifest.schemas (loggedChanges db.manifest entries)
  checkpointSchemas : ∀ payload,
    readCheckpointFile F db.disk db.manifest.checkpointEpoch = .ok payload →
      db.manifest.schemas = [] → payload.schemas = []

/-- The error of a commit that does not fit into a frame. -/
def payloadTooLarge (entries : List WalEntry) (commit : CommitRecord) : TraceDbError :=
  let payload := framePayload F.toWalFormat commit (lastChecksum entries)
  let lsn := nextLsn (entries.getLast?.map (·.lsn))
  .walCorruption
    s!"payload length {payload.length} exceeds max {maxPayloadLen} at lsn {lsn.toNat}"

/-- The manifest a write publishes. -/
def Db.nextManifest (db : Db) (plan : PlannedWrite) : Manifest :=
  sealManifest F ((db.install plan).manifest.advance plan.commit.epoch).linkParent

/-- The handle after a planned write. -/
def Db.committed (db : Db) (entries : List WalEntry) (plan : PlannedWrite) : Db :=
  let wal := db.disk.wal ++ nextFrame F.toWalFormat entries plan.commit
  { db.install plan with
    manifest := db.nextManifest F plan
    disk := { db.disk with
      wal := wal
      manifest := some (F.manifestCodec.encode (db.nextManifest F plan))
      manifestBak := some (F.manifestCodec.encode db.manifest)
      manifestTmp := none
      jobs := match plan.jobCatalog with
        | none => db.disk.jobs
        | some catalog => some (F.jobCatalogBytes catalog)
      jobsTmp := match plan.jobCatalog with
        | none => db.disk.jobsTmp
        | some _ => none }
    walTail := tailFromScan wal.length (entries ++ [nextEntry F.toWalFormat entries plan.commit]) }

/-- What becomes of a decision: it fails or has nothing to do, and leaves the handle alone, or it is
committed. -/
def Db.outcome (db : Db) (entries : List WalEntry) :
    Result (Option PlannedWrite) → Result Reply × Db
  | .error e => (.error e, db)
  | .ok none => (.ok .noJob, db)
  | .ok (some plan) =>
    if Fits F.toWalFormat entries plan.commit then (.ok plan.reply, db.committed F entries plan)
    else (.error (payloadTooLarge F entries plan.commit), db)

variable {F}

/-- A commit after the checkpoint is replayed last. -/
theorem commitsAfterCheckpoint_snoc {manifest : Manifest} {entries : List WalEntry}
    {commit : CommitRecord} (h : manifest.checkpointEpoch < commit.epoch) :
    commitsAfterCheckpoint manifest
        ((entries ++ [nextEntry F.toWalFormat entries commit]).map (·.commit)) =
      commitsAfterCheckpoint manifest (entries.map (·.commit)) ++
        [(nextEntry F.toWalFormat entries commit).commit] := by
  rw [commitsAfterCheckpoint, List.map_append, List.filter_append]
  refine congrArg₂ _ rfl (List.filter_eq_self.2 fun commit' hmem => ?_)
  obtain rfl := List.mem_singleton.1 hmem
  exact decide_eq_true h

/-! ### One write -/

namespace Synced

variable {db : Db} {entries : List WalEntry}

theorem logInv (h : Synced F db entries) :
    Log.Inv F.toWalFormat db.wal entries db.disk.wal [] :=
  ⟨h.chain, .inl rfl, (List.append_nil _).symm, fun _ => h.tail⟩

theorem refresh (h : Synced F db entries) : db.refreshFromDiskIfStale F = .ok db := by
  have hwal : db.wal.lastCommitEpoch F.toWalFormat =
      .ok (entries.getLast?.map (·.commit.epoch), db.wal) := by
    have htail : db.wal.tail = tailFromScan db.wal.file.length entries := h.tail
    have hsame : ({ db.wal with tail := tailFromScan db.wal.file.length entries } : Log) =
      db.wal := by
      rw [← htail]
    rw [Log.lastCommitEpoch, h.logInv.refreshTail, Except.ok_bind, hsame]
    exact congrArg (fun t => Except.ok (WalTail.lastEpoch t, db.wal)) htail
  have hold : (entries.getLast?.map (·.commit.epoch)).any
      (fun lastEpoch => decide (db.manifest.latestEpoch < lastEpoch)) = false := by
    cases hlast : entries.getLast? with
    | none => rfl
    | some entry =>
      have := h.epochs entry (List.mem_of_getLast? hlast)
      simpa using this
  simp only [Db.refreshFromDiskIfStale, readManifest_of_manifest h.isSealed h.manifestFile,
    Except.ok_bind, hwal, hold, lt_irrefl, decide_false, Bool.or_self, Bool.false_eq_true, if_false]
  rfl

theorem appendCommit_large (h : Synced F db entries) {commit : CommitRecord}
    (hbig : ¬ Fits F.toWalFormat entries commit) :
    db.wal.appendCommit F.toWalFormat .ok commit =
      (.error (payloadTooLarge F entries commit), db.wal) := by
  have htail : db.wal.tail = tailFromScan db.wal.file.length entries := h.tail
  have hsame : ({ db.wal with tail := tailFromScan db.wal.file.length entries } : Log) =
    db.wal := by
    rw [← htail]
  have hbuild : Log.buildCommitFrame F.toWalFormat commit
      (nextLsn (entries.getLast?.map (·.lsn))) (lastChecksum entries) =
        .error (payloadTooLarge F entries commit) :=
    if_pos (not_le.1 hbig)
  simp only [Log.appendCommit, h.logInv.refreshTail, hsame, Log.appendFrame]
  rw [htail]
  simp only [tailFromScan, hbuild]

theorem commitPlanned_eq (h : Synced F db entries) (plan : PlannedWrite) :
    db.commitPlanned F plan =
      if Fits F.toWalFormat entries plan.commit then
        (.ok plan.reply, db.committed F entries plan)
      else (.error (payloadTooLarge F entries plan.commit), db) := by
  by_cases hfit : Fits F.toWalFormat entries plan.commit
  · rw [if_pos hfit, Db.commitPlanned, h.logInv.appendCommit_ok hfit]
    have hdisk : ((db.setWal ⟨tailFromScan
        (db.wal.file ++ nextFrame F.toWalFormat entries plan.commit).length
        (entries ++ [nextEntry F.toWalFormat entries plan.commit]), db.wal.recoveryTornTail,
        db.wal.file ++ nextFrame F.toWalFormat entries plan.commit⟩).install plan).disk.manifest =
          some (F.manifestCodec.encode db.manifest) := h.manifestFile
    simp only [Db.bumpManifest, writeManifest_of_manifest h.isSealed hdisk]
    cases hjobs : plan.jobCatalog with
    | none => simp only [Db.committed, hjobs]; rfl
    | some catalog => simp only [Db.committed, hjobs]; rfl
  · rw [if_neg hfit, Db.commitPlanned, h.appendCommit_large hfit]
    rfl

theorem write_eq (h : Synced F db entries) (plan : Db → Result PlannedWrite) :
    db.write F plan = db.outcome F entries (some <$> plan db) := by
  simp only [Db.write, h.refresh]
  cases plan db with
  | error e => rfl
  | ok planned => exact h.commitPlanned_eq planned

/-- A planned write at the next epoch, whose commit is read back, keeps the handle in step. -/
theorem committed (h : Synced F db entries) {plan : PlannedWrite} (hcommit : plan.commit.Engine)
    (hepoch : plan.commit.epoch = db.nextEpoch) (hfit : Fits F.toWalFormat entries plan.commit)
    (hback : ReadBack F.toWalFormat entries plan.commit) :
    Synced F (db.committed F entries plan)
      (entries ++ [nextEntry F.toWalFormat entries plan.commit]) := by
  have hafter : db.manifest.latestEpoch < plan.commit.epoch := by
    rw [hepoch]
    exact Nat.lt_succ_self _
  have hchanges : loggedChanges (db.nextManifest F plan)
      (entries ++ [nextEntry F.toWalFormat entries plan.commit]) =
        loggedChanges db.manifest entries ++ plan.commit.schemaChanges := by
    have hcp : (db.nextManifest F plan).checkpointEpoch < plan.commit.epoch :=
      h.checkpoint.trans_lt hafter
    rw [loggedChanges, commitsAfterCheckpoint_snoc hcp, List.flatMap_append, List.flatMap_singleton]
    rfl
  have hschemas : (db.nextManifest F plan).schemas =
      plan.commit.schemaChanges.foldl upsertSchema db.manifest.schemas := rfl
  refine ⟨sealed_sealManifest _, rfl, h.chain.snoc (isFrame_nextFrame hcommit hfit hback), rfl,
    ?_, ?_, ?_, ?_, fun payload hread hnil => h.checkpointSchemas payload hread ?_⟩
  · intro entry hentry
    rcases List.mem_append.1 hentry with hold | hnew
    · exact (h.epochs entry hold).trans hafter.le
    · obtain rfl := List.mem_singleton.1 hnew
      exact le_refl _
  · exact h.checkpoint.trans hafter.le
  · exact nodup_foldl_upsertSchema h.names _
  · show Covers (db.nextManifest F plan).schemas (loggedChanges (db.nextManifest F plan) _)
    rw [hchanges, hschemas]
    exact h.covers.append
  · exact eq_nil_of_foldl_upsertSchema (hschemas.symm.trans hnil)

end Synced

/-! ### The decision of an operation -/

variable (F)

/-- What an operation decides on a handle that is in step with its directory; `none` when there is
nothing to commit. -/
def Db.plan (db : Db) : Op → Result (Option PlannedWrite)
  | .applySchema schema receipt => some <$> db.planSchema schema receipt
  | .insert input receipt => some <$> db.planMerge F "insert.index" input receipt
  | .put input receipt => some <$> db.planPut F input receipt
  | .putBatch records receipt => some <$> db.planPutBatch F records receipt
  | .patch input receipt => some <$> db.planMerge F "record.patch" input receipt
  | .delete deletion receipt => some <$> db.planDelete deletion receipt
  | .setFeatureStatus invalidation =>
    if Text.isBlank invalidation.tenantId then
      .error (.invalidRecord "tenant id cannot be empty")
    else some <$> db.planFeatureStatus invalidation
  | .recordIdempotencyReceipt receipt => .ok (some (db.planReceipt receipt))
  | .enqueueJob kind target key =>
    let (planned, job) := db.jobCatalog.enqueue kind target key
    .ok (some (db.planJobEvent (.enqueued job) planned (.job job)))
  | .leaseJob workerId kind nowMs leaseMs =>
    match db.jobCatalog.leaseNextAt workerId kind nowMs leaseMs with
    | (_, none) => .ok none
    | (planned, some job) =>
      .ok (some (db.planJobEvent
        (.leased job.jobId workerId (job.leaseToken.getD "")
          (job.leaseExpiresAtMs.getD (saturatingAddU64 nowMs leaseMs))) planned (.job job)))
  | .heartbeatJob jobId token nowMs leaseMs =>
    match db.jobCatalog.heartbeat jobId token nowMs leaseMs with
    | .error e => .error (.invalidCommand e)
    | .ok (planned, job) =>
      .ok (some (db.planJobEvent
        (.heartbeat jobId token
          (job.leaseExpiresAtMs.getD (saturatingAddU64 nowMs leaseMs))) planned (.job job)))
  | .completeJob jobId token =>
    match db.jobCatalog.complete jobId (some token) with
    | .error e => .error (.invalidCommand e)
    | .ok (planned, job) =>
      .ok (some (db.planJobEvent (.completed jobId token) planned (.job job)))
  | .failJob jobId token error permanent nowMs =>
    match db.jobCatalog.fail jobId token error permanent nowMs with
    | .error e => .error (.invalidCommand e)
    | .ok (planned, job) =>
      .ok (some (db.planJobEvent (.failed jobId token error permanent nowMs) planned (.job job)))

variable {F}

/-- **An operation on a handle in step with its directory** commits what it planned. -/
theorem Synced.run_eq {db : Db} {entries : List WalEntry} (h : Synced F db entries) (op : Op) :
    db.run F op = db.outcome F entries (db.plan F op) := by
  cases op with
  | applySchema schema receipt => exact h.write_eq _
  | insert input receipt => exact h.write_eq _
  | put input receipt => exact h.write_eq _
  | putBatch records receipt => exact h.write_eq _
  | patch input receipt => exact h.write_eq _
  | delete deletion receipt => exact h.write_eq _
  | setFeatureStatus invalidation =>
    simp only [Db.run, Db.setFeatureStatus, Db.plan]
    split_ifs with hblank
    · rfl
    · exact h.write_eq _
  | recordIdempotencyReceipt receipt => exact h.write_eq fun db => .ok (db.planReceipt receipt)
  | enqueueJob kind target key =>
    simp only [Db.run, Db.enqueueJob, Db.plan]
    exact h.write_eq _
  | leaseJob workerId kind nowMs leaseMs =>
    simp only [Db.run, Db.leaseJob, Db.plan]
    rcases db.jobCatalog.leaseNextAt workerId kind nowMs leaseMs with ⟨planned, _ | job⟩
    · rfl
    · exact h.write_eq _
  | heartbeatJob jobId token nowMs leaseMs =>
    simp only [Db.run, Db.heartbeatJob, Db.plan]
    rcases db.jobCatalog.heartbeat jobId token nowMs leaseMs with e | ⟨planned, job⟩
    · rfl
    · exact h.write_eq _
  | completeJob jobId token =>
    simp only [Db.run, Db.completeJob, Db.plan]
    rcases db.jobCatalog.complete jobId (some token) with e | ⟨planned, job⟩
    · rfl
    · exact h.write_eq _
  | failJob jobId token error permanent nowMs =>
    simp only [Db.run, Db.failJob, Db.plan]
    rcases db.jobCatalog.fail jobId token error permanent nowMs with e | ⟨planned, job⟩
    · rfl
    · exact h.write_eq _

/-- An operation that is planned and fits into the log is committed. -/
theorem Synced.run_of_fits {db : Db} {entries : List WalEntry} (h : Synced F db entries) {op : Op}
    {plan : PlannedWrite} (hplan : db.plan F op = .ok (some plan))
    (hfit : Fits F.toWalFormat entries plan.commit) :
    db.run F op = (.ok plan.reply, db.committed F entries plan) := by
  rw [h.run_eq, hplan, Db.outcome, if_pos hfit]

/-- What every planned commit has in common. -/
structure Stamped (db : Db) (commit : CommitRecord) : Prop where
  marker : commit.commitMarker = "COMMITTED"
  epoch : commit.epoch = db.nextEpoch
  parentEpoch : commit.parentEpoch = db.manifest.latestEpoch

theorem Stamped.engine {db : Db} {commit : CommitRecord} (h : Stamped db commit) :
    commit.Engine where
  marker := h.marker
  epoch_pos := by rw [h.epoch]; exact Nat.succ_pos _
  parent_lt := by rw [h.epoch, h.parentEpoch]; exact Nat.lt_succ_self _

theorem stamped_plan {db : Db} {op : Op} {plan : PlannedWrite}
    (h : db.plan F op = .ok (some plan)) : Stamped db plan.commit := by
  have hstamp : ∀ {x : Result PlannedWrite}, some <$> x = .ok (some plan) → x = .ok plan := by
    intro x hx
    cases x with
    | error e => cases hx
    | ok planned => exact congrArg _ (Option.some.inj (Except.ok.inj hx))
  cases op with
  | applySchema schema receipt =>
    have h := hstamp h
    simp only [Db.planSchema, Except.bind_eq_ok_iff] at h
    obtain ⟨_, _, _, _, h⟩ := h
    obtain rfl := Except.ok.inj h
    exact ⟨rfl, rfl, rfl⟩
  | insert input receipt | patch input receipt =>
    have h := hstamp h
    simp only [Db.planMerge, Except.bind_eq_ok_iff] at h
    obtain ⟨_, _, _, _, h⟩ := h
    obtain rfl := Except.ok.inj h
    exact ⟨rfl, rfl, rfl⟩
  | put input receipt =>
    have h := hstamp h
    simp only [Db.planPut, Except.bind_eq_ok_iff] at h
    obtain ⟨_, _, _, _, h⟩ := h
    obtain rfl := Except.ok.inj h
    exact ⟨rfl, rfl, rfl⟩
  | putBatch records receipt =>
    have h := hstamp h
    simp only [Db.planPutBatch, Except.guard_eq_ok_iff, Except.bind_eq_ok_iff] at h
    obtain ⟨_, _, _, h⟩ := h
    obtain rfl := Except.ok.inj h
    exact ⟨rfl, rfl, rfl⟩
  | delete deletion receipt =>
    have h := hstamp h
    simp only [Db.planDelete, Except.bind_eq_ok_iff] at h
    obtain ⟨_, _, _, _, h⟩ := h
    obtain rfl := Except.ok.inj h
    exact ⟨rfl, rfl, rfl⟩
  | setFeatureStatus invalidation =>
    simp only [Db.plan, Except.guard_eq_ok_iff] at h
    have h := hstamp h.2
    simp only [Db.planFeatureStatus, Except.bind_eq_ok_iff, Except.guard_eq_ok_iff] at h
    obtain ⟨_, _, _, _, _, h⟩ := h
    obtain rfl := Except.ok.inj h
    exact ⟨rfl, rfl, rfl⟩
  | recordIdempotencyReceipt receipt =>
    obtain rfl := Option.some.inj (Except.ok.inj h)
    exact ⟨rfl, rfl, rfl⟩
  | enqueueJob kind target key =>
    obtain rfl := Option.some.inj (Except.ok.inj h)
    exact ⟨rfl, rfl, rfl⟩
  | leaseJob workerId kind nowMs leaseMs =>
    simp only [Db.plan] at h
    split at h
    · cases h
    · obtain rfl := Option.some.inj (Except.ok.inj h)
      exact ⟨rfl, rfl, rfl⟩
  | heartbeatJob jobId token nowMs leaseMs | completeJob jobId token
  | failJob jobId token error permanent nowMs =>
    simp only [Db.plan] at h
    split at h
    · cases h
    · obtain rfl := Option.some.inj (Except.ok.inj h)
      exact ⟨rfl, rfl, rfl⟩

/-- The commit of an operation, if it has one, is read back from its frame. -/
def Db.Legible (F : EngineFormat) (db : Db) (op : Op) : Prop :=
  ∀ plan, db.plan F op = .ok (some plan) →
    F.commitCodec.ReadsBack (plan.commit.prepareForFrame db.walTail.lastChecksum)

/-- So are those of operations one after the other. -/
def Db.LegibleRuns (F : EngineFormat) (db : Db) : List Op → Prop
  | [] => True
  | op :: ops => db.Legible F op ∧ (db.run F op).2.LegibleRuns F ops

theorem Synced.readBack_plan {db : Db} {entries : List WalEntry} (h : Synced F db entries) {op : Op}
    (hlegible : db.Legible F op) {plan : PlannedWrite} (hplan : db.plan F op = .ok (some plan)) :
    ReadBack F.toWalFormat entries plan.commit := by
  have hback := hlegible plan hplan
  rwa [h.tail] at hback

/-- What one operation can do, when its commit is read back. -/
theorem Synced.run_cases_of {db : Db} {entries : List WalEntry} (h : Synced F db entries) {op : Op}
    (hlegible : db.Legible F op) :
    (db.run F op).2 = db ∨
      ∃ plan, db.plan F op = .ok (some plan) ∧ Fits F.toWalFormat entries plan.commit ∧
        db.run F op = (.ok plan.reply, db.committed F entries plan) ∧
        Synced F (db.committed F entries plan)
          (entries ++ [nextEntry F.toWalFormat entries plan.commit]) := by
  rw [h.run_eq]
  rcases hplan : db.plan F op with e | _ | plan
  · exact .inl rfl
  · exact .inl rfl
  · by_cases hfit : Fits F.toWalFormat entries plan.commit
    · have hstamp := stamped_plan hplan
      exact .inr ⟨plan, rfl, hfit, if_pos hfit,
        h.committed hstamp.engine hstamp.epoch hfit (h.readBack_plan hlegible hplan)⟩
    · exact .inl (by rw [Db.outcome, if_neg hfit])

section Lossless

variable [F.Lossless]

theorem Db.legible (db : Db) (op : Op) : db.Legible F op := fun _ _ => WalFormat.Lossless.commit _

/-- What one operation can do. -/
theorem Synced.run_cases {db : Db} {entries : List WalEntry} (h : Synced F db entries) (op : Op) :
    (db.run F op).2 = db ∨
      ∃ plan, db.plan F op = .ok (some plan) ∧ Fits F.toWalFormat entries plan.commit ∧
        db.run F op = (.ok plan.reply, db.committed F entries plan) ∧
        Synced F (db.committed F entries plan)
          (entries ++ [nextEntry F.toWalFormat entries plan.commit]) :=
  h.run_cases_of (db.legible op)

theorem Synced.run {db : Db} {entries : List WalEntry} (h : Synced F db entries) (op : Op) :
    ∃ entries', Synced F (db.run F op).2 entries' := by
  rcases h.run_cases op with heq | ⟨plan, -, -, heq, hsync⟩
  · exact ⟨entries, by rw [heq]; exact h⟩
  · exact ⟨_, by rw [heq]; exact hsync⟩

/-- The handle and its log after operations that are all planned and fit into the log. -/
def Db.commitAll (F : EngineFormat) (db : Db) (entries : List WalEntry) :
    List Op → Option (Db × List WalEntry)
  | [] => some (db, entries)
  | op :: ops =>
    match db.plan F op with
    | .ok (some plan) =>
      if Fits F.toWalFormat entries plan.commit then
        (db.committed F entries plan).commitAll F
          (entries ++ [nextEntry F.toWalFormat entries plan.commit]) ops
      else none
    | _ => none

/-- A run of operations that are all committed. -/
theorem Synced.runAll_of_commitAll {db after : Db} {entries entries' : List WalEntry}
    {ops : List Op} (h : Synced F db entries)
    (hops : db.commitAll F entries ops = some (after, entries')) :
    db.runAll F ops = after ∧ Synced F after entries' := by
  induction ops generalizing db entries with
  | nil =>
    obtain ⟨rfl, rfl⟩ := Prod.mk.inj (Option.some.inj hops)
    exact ⟨rfl, h⟩
  | cons op ops ih =>
    rw [Db.commitAll] at hops
    split at hops
    · rename_i plan hplan
      split_ifs at hops with hfit
      have hstamp := stamped_plan hplan
      obtain ⟨hrun, hsync⟩ := ih (h.committed hstamp.engine hstamp.epoch hfit (readBack _ _)) hops
      refine ⟨?_, hsync⟩
      rw [← hrun, Db.runAll, List.foldl_cons, h.run_of_fits hplan hfit, Db.runAll]
    · cases hops

/-- A run of two operations that are committed. -/
theorem Synced.runAll_two {db : Db} {entries : List WalEntry} {op₁ op₂ : Op}
    {first second : PlannedWrite} (h : Synced F db entries)
    (hfirst : db.plan F op₁ = .ok (some first))
    (hsecond : (db.committed F entries first).plan F op₂ = .ok (some second))
    (hfit₁ : Fits F.toWalFormat entries first.commit)
    (hfit₂ : Fits F.toWalFormat (entries ++ [nextEntry F.toWalFormat entries first.commit])
      second.commit) :
    let logged := entries ++ [nextEntry F.toWalFormat entries first.commit]
    db.runAll F [op₁, op₂] = (db.committed F entries first).committed F logged second ∧
      Synced F ((db.committed F entries first).committed F logged second)
        (logged ++ [nextEntry F.toWalFormat logged second.commit]) := by
  intro logged
  have hcommits : db.commitAll F entries [op₁, op₂] =
      some ((db.committed F entries first).committed F logged second,
        logged ++ [nextEntry F.toWalFormat logged second.commit]) := by
    simp only [Db.commitAll, hfirst, if_pos hfit₁, hsecond, if_pos hfit₂, logged]
  obtain ⟨hlive, hsync⟩ := h.runAll_of_commitAll hcommits
  exact ⟨hlive, hsync⟩

end Lossless

/-! ### Opening -/

/-- The files of a directory are in order: a sealed manifest, and a log that is a chain with at most
one cut frame after it. -/
structure Orderly (F : EngineFormat) (disk : Disk) (manifest : Manifest)
    (entries : List WalEntry) (whole cut : Bytes) : Prop where
  isSealed : Sealed F manifest
  manifestFile : disk.manifest = some (F.manifestCodec.encode manifest)
  chain : Chain F.toWalFormat entries whole
  isCut : IsCut F.toWalFormat entries cut
  wal : disk.wal = whole ++ cut

theorem Synced.orderly {db : Db} {entries : List WalEntry} (h : Synced F db entries) :
    Orderly F db.disk db.manifest entries db.disk.wal [] :=
  ⟨h.isSealed, h.manifestFile, h.chain, .inl rfl, (List.append_nil _).symm⟩

/-- Opening a directory with a readable manifest and such a log is `recover` on the commits of the
log, followed by the catching up of the manifest. -/
theorem open_of_read {disk : Disk} {manifest : Manifest} {entries : List WalEntry}
    {whole cut : Bytes} (hinit : initializeManifest F disk = .ok disk)
    (hread : readManifest F disk = .ok manifest) (hchain : Chain F.toWalFormat entries whole)
    (hcut : IsCut F.toWalFormat entries cut) (hwal : disk.wal = whole ++ cut) :
    ∃ torn, (torn = none ↔ cut = []) ∧ Db.open F disk = (do
      let commits := commitsAfterCheckpoint manifest (entries.map (·.commit))
      let recovered ← recover F disk manifest commits
      let (manifest, disk) ← catchUpManifest F { disk with wal := whole } recovered.manifest commits
      .ok
        { disk := disk
          manifest := manifest
          store := recovered.store
          walTail := tailFromScan whole.length entries
          walTornTail := torn
          idempotencyReceipts := recovered.idempotencyReceipts
          jobCatalog := recovered.jobCatalog
          lastRecoveryTornTail := torn }) := by
  obtain ⟨torn, hopen, hnone⟩ := open_of_chain_cut hchain hcut
  refine ⟨torn, hnone, ?_⟩
  have hscan : Log.scanWithMetadata F.toWalFormat
      ⟨tailFromScan whole.length entries, torn, whole⟩ = .ok ⟨entries, torn⟩ := by
    simp only [Log.scanWithMetadata, hchain.scanFile, Except.ok_bind, Option.none_or]
  simp only [Db.open, hinit, Except.ok_bind, hread, hwal, hopen, hscan]
  rfl

/-- The same for a directory whose files are in order. -/
theorem Orderly.open_eq {disk : Disk} {manifest : Manifest} {entries : List WalEntry}
    {whole cut : Bytes} (h : Orderly F disk manifest entries whole cut) :
    ∃ torn, (torn = none ↔ cut = []) ∧ Db.open F disk = (do
      let commits := commitsAfterCheckpoint manifest (entries.map (·.commit))
      let recovered ← recover F disk manifest commits
      let (manifest, disk) ← catchUpManifest F { disk with wal := whole } recovered.manifest commits
      .ok
        { disk := disk
          manifest := manifest
          store := recovered.store
          walTail := tailFromScan whole.length entries
          walTornTail := torn
          idempotencyReceipts := recovered.idempotencyReceipts
          jobCatalog := recovered.jobCatalog
          lastRecoveryTornTail := torn }) := by
  have hinit : initializeManifest F disk = .ok disk := by
    simp [initializeManifest, h.manifestFile]
  exact open_of_read hinit (readManifest_of_manifest h.isSealed h.manifestFile)
    h.chain h.isCut h.wal

/-- The manifest `open` ends with, before it is sealed. -/
def caughtUp (manifest : Manifest) (commits : List CommitRecord) : Manifest :=
  match commits.getLast? with
  | none => manifest
  | some lastCommit =>
    if manifest.latestEpoch < lastCommit.epoch then manifest.advance lastCommit.epoch else manifest

theorem caughtUp_of_le {manifest : Manifest} {commits : List CommitRecord}
    (h : ∀ commit ∈ commits, commit.epoch ≤ manifest.latestEpoch) :
    caughtUp manifest commits = manifest := by
  unfold caughtUp
  split
  · rfl
  · rename_i lastCommit hlast
    exact if_neg (not_lt.2 (h lastCommit (List.mem_of_getLast? hlast)))

/-- A manifest that the log is not ahead of stays as it is. -/
theorem catchUpManifest_of_le {disk : Disk} {manifest : Manifest} {commits : List CommitRecord}
    (h : ∀ commit ∈ commits, commit.epoch ≤ manifest.latestEpoch) :
    catchUpManifest F disk manifest commits = .ok (manifest, disk) := by
  unfold catchUpManifest
  split
  · rfl
  · rename_i lastCommit hlast
    exact if_neg (not_lt.2 (h lastCommit (List.mem_of_getLast? hlast)))

/-- Either nothing is written, or the manifest that has caught up. -/
theorem catchUpManifest_cases {disk : Disk} {old : Manifest} (hsealed : Sealed F old)
    (hdisk : disk.manifest = some (F.manifestCodec.encode old)) (manifest : Manifest)
    (commits : List CommitRecord) :
    (caughtUp manifest commits = manifest ∧
      catchUpManifest F disk manifest commits = .ok (manifest, disk)) ∨
    catchUpManifest F disk manifest commits = .ok (sealManifest F (caughtUp manifest commits),
      { disk with
        manifest := some (F.manifestCodec.encode (sealManifest F (caughtUp manifest commits)))
        manifestBak := some (F.manifestCodec.encode old)
        manifestTmp := none }) := by
  unfold catchUpManifest caughtUp
  cases commits.getLast? with
  | none => exact .inl ⟨rfl, rfl⟩
  | some lastCommit =>
    by_cases hahead : manifest.latestEpoch < lastCommit.epoch
    · right
      simp only [hahead, if_true]
      exact writeManifest_of_manifest hsealed hdisk _
    · left
      simp only [hahead, if_false, and_self]

/-- A manifest without its checksums, which only chain one manifest to the one before. -/
def Manifest.unsealed (manifest : Manifest) : Manifest :=
  { manifest with checksums := ⟨Digest.zero, Digest.zero⟩ }

/-- What a handle knows: the manifest, the records, receipts and jobs, and the whole frames of the
log.  The checksums of the manifest and the report on the recovery itself are no part of it. -/
structure DbState where
  manifest : Manifest
  store : RecordStore
  idempotencyReceipts : List IdempotencyReceipt
  jobCatalog : JobCatalog
  wal : Bytes

/-- The state of a handle. -/
def Db.state (db : Db) : DbState where
  manifest := db.manifest.unsealed
  store := db.store
  idempotencyReceipts := db.idempotencyReceipts
  jobCatalog := db.jobCatalog
  wal := db.disk.wal

/-- The state `open` ends with. -/
def Recovered.state (recovered : Recovered) (commits : List CommitRecord) (wal : Bytes) :
    DbState where
  manifest := (caughtUp recovered.manifest commits).unsealed
  store := recovered.store
  idempotencyReceipts := recovered.idempotencyReceipts
  jobCatalog := recovered.jobCatalog
  wal := wal

/-- Opening shows exactly what `recover` rebuilds from the whole frames of the log. -/
theorem Orderly.open_state {disk : Disk} {manifest : Manifest} {entries : List WalEntry}
    {whole cut : Bytes} (h : Orderly F disk manifest entries whole cut) :
    let commits := commitsAfterCheckpoint manifest (entries.map (·.commit))
    (Db.open F disk).map Db.state =
      (recover F disk manifest commits).map fun recovered => recovered.state commits whole := by
  intro commits
  obtain ⟨torn, -, hopen⟩ := h.open_eq
  rw [hopen]
  simp only
  cases hrecover : recover F disk manifest commits with
  | error e => rfl
  | ok recovered =>
    rw [Except.ok_bind]
    have hdisk : ({ disk with wal := whole } : Disk).manifest =
        some (F.manifestCodec.encode manifest) := h.manifestFile
    rcases catchUpManifest_cases h.isSealed hdisk recovered.manifest commits with ⟨hsame, heq⟩ | heq
    · rw [heq, Except.ok_bind]
      simp only [Except.map, Db.state, Recovered.state, hsame]
    · rw [heq, Except.ok_bind]
      rfl

end TraceDB
