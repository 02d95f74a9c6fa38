import TraceDB.Engine.Checkpoint

/-!
# Receipts survive reopening

A request that carries an idempotency key leaves a receipt in the commit of its operation.

* `Op.receipts` and `plan_receipts` : the receipts that an operation leaves, and its reply.
* `Reachable.accounted` : the receipts a handle has in memory are those of its checkpoint and of the
  commits after it.
* `Reachable.receipts_reopen` and `Reachable.receipts_crash` : so they are there again after the
  directory is reopened, also after a crash inside a write.
-/

namespace TraceDB

variable {F : EngineFormat}

/-! ### What an operation leaves -/

/-- The receipts an operation commits at an epoch. -/
def Op.receipts (epoch : Epoch) : Op → List IdempotencyReceipt
  | .applySchema _ receipt | .insert _ receipt | .put _ receipt | .patch _ receipt =>
    idempotencyReceiptsForResponse receipt (epochBody epoch)
  | .putBatch records receipt =>
    idempotencyReceiptsForResponse receipt (batchBody epoch records.length)
  | .delete _ receipt => idempotencyReceiptsForResponse receipt (deletedBody epoch)
  | .recordIdempotencyReceipt receipt => [receipt]
  | .setFeatureStatus _ | .enqueueJob _ _ _ | .leaseJob _ _ _ _ | .heartbeatJob _ _ _ _
  | .completeJob _ _ | .failJob _ _ _ _ _ => []

/-- The operations that answer with the epoch of their commit. -/
def Op.repliesEpoch : Op → Bool
  | .applySchema _ _ | .insert _ _ | .put _ _ | .putBatch _ _ | .patch _ _ | .delete _ _
  | .setFeatureStatus _ | .recordIdempotencyReceipt _ => true
  | .enqueueJob _ _ _ | .leaseJob _ _ _ _ | .heartbeatJob _ _ _ _ | .completeJob _ _
  | .failJob _ _ _ _ _ => false

/-- What a planned commit holds for the client of the operation. -/
theorem plan_receipts {db : Db} {op : Op} {plan : PlannedWrite}
    (h : db.plan F op = .ok (some plan)) :
    plan.commit.idempotencyReceipts = op.receipts db.nextEpoch ∧
      (op.repliesEpoch = true → plan.reply = .epoch db.nextEpoch) := by
  have hsome : ∀ {x : Result PlannedWrite}, some <$> x = .ok (some plan) → x = .ok plan := by
    intro x hx
    cases x with
    | error e => cases hx
    | ok planned => exact congrArg _ (Option.some.inj (Except.ok.inj hx))
  cases op with
  | applySchema schema receipt =>
    have h := hsome h
    simp only [Db.planSchema, Except.bind_eq_ok_iff] at h
    obtain ⟨_, _, _, _, h⟩ := h
    obtain rfl := Except.ok.inj h
    exact ⟨rfl, fun _ => rfl⟩
  | insert input receipt | patch input receipt =>
    have h := hsome h
    simp only [Db.planMerge, Except.bind_eq_ok_iff] at h
    obtain ⟨_, _, _, _, h⟩ := h
    obtain rfl := Except.ok.inj h
    exact ⟨rfl, fun _ => rfl⟩
  | put input receipt =>
    have h := hsome h
    simp only [Db.planPut, Except.bind_eq_ok_iff] at h
    obtain ⟨_, _, _, _, h⟩ := h
    obtain rfl := Except.ok.inj h
    exact ⟨rfl, fun _ => rfl⟩
  | putBatch records receipt =>
    have h := hsome h
    simp only [Db.planPutBatch, Except.guard_eq_ok_iff, Except.bind_eq_ok_iff] at h
    obtain ⟨_, _, _, h⟩ := h
    obtain rfl := Except.ok.inj h
    exact ⟨rfl, fun _ => rfl⟩
  | delete deletion receipt =>
    have h := hsome h
    simp only [Db.planDelete, Except.bind_eq_ok_iff] at h
    obtain ⟨_, _, _, _, h⟩ := h
    obtain rfl := Except.ok.inj h
    exact ⟨rfl, fun _ => rfl⟩
  | setFeatureStatus invalidation =>
    simp only [Db.plan, Except.guard_eq_ok_iff] at h
    have h := hsome h.2
    simp only [Db.planFeatureStatus, Except.bind_eq_ok_iff, Except.guard_eq_ok_iff] at h
    obtain ⟨_, _, _, _, _, h⟩ := h
    obtain rfl := Except.ok.inj h
    exact ⟨rfl, fun _ => rfl⟩
  | recordIdempotencyReceipt receipt =>
    obtain rfl := Option.some.inj (Except.ok.inj h)
    exact ⟨rfl, fun _ => rfl⟩
  | enqueueJob kind target key =>
    obtain rfl := Option.some.inj (Except.ok.inj h)
    exact ⟨rfl, fun hepoch => by cases hepoch⟩
  | leaseJob workerId kind nowMs leaseMs =>
    simp only [Db.plan] at h
    split at h
    · cases h
    · obtain rfl := Option.some.inj (Except.ok.inj h)
      exact ⟨rfl, fun hepoch => by cases hepoch⟩
  | heartbeatJob jobId token nowMs leaseMs | completeJob jobId token
  | failJob jobId token error permanent nowMs =>
    simp only [Db.plan] at h
    split at h
    · cases h
    · obtain rfl := Option.some.inj (Except.ok.inj h)
      exact ⟨rfl, fun hepoch => by cases hepoch⟩

/-- Only a lease of a job can have nothing to commit. -/
theorem receipts_of_plan_none {db : Db} {op : Op} (h : db.plan F op = .ok none) (epoch : Epoch) :
    op.receipts epoch = [] ∧ op.repliesEpoch = false := by
  have hsome : ∀ {x : Result PlannedWrite}, some <$> x ≠ .ok none := by
    intro x hx
    cases x <;> cases hx
  cases op with
  | applySchema schema receipt => exact absurd h hsome
  | insert input receipt | patch input receipt | put input receipt => exact absurd h hsome
  | putBatch records receipt => exact absurd h hsome
  | delete deletion receipt => exact absurd h hsome
  | setFeatureStatus invalidation =>
    simp only [Db.plan, Except.guard_eq_ok_iff] at h
    exact absurd h.2 hsome
  | recordIdempotencyReceipt receipt => cases h
  | _ => exact ⟨rfl, rfl⟩

/-- An operation on a handle in step with its directory: a failure changes nothing, a success adds
its receipts. -/
theorem Synced.run_receipts {db db' : Db} {entries : List WalEntry} (h : Synced F db entries)
    {op : Op} {result : Result Reply} (hrun : db.run F op = (result, db')) :
    (∀ e, result = .error e → db' = db) ∧
      ∀ reply, result = .ok reply →
        db'.idempotencyReceipts = db.idempotencyReceipts ++ op.receipts db.nextEpoch ∧
          (op.repliesEpoch = true → reply = .epoch db.nextEpoch) := by
  rw [h.run_eq] at hrun
  rcases hplan : db.plan F op with e | _ | plan
  · rw [hplan] at hrun
    obtain ⟨rfl, rfl⟩ := Prod.mk.inj hrun
    exact ⟨fun _ _ => rfl, fun reply hok => by cases hok⟩
  · rw [hplan] at hrun
    obtain ⟨rfl, rfl⟩ := Prod.mk.inj hrun
    refine ⟨fun _ _ => rfl, fun reply hok => ?_⟩
    have hlease := receipts_of_plan_none hplan db.nextEpoch
    exact ⟨by rw [hlease.1, List.append_nil], fun hepoch => by simp [hlease.2] at hepoch⟩
  · obtain ⟨hreceipts, hreply⟩ := plan_receipts hplan
    rw [hplan, Db.outcome] at hrun
    split_ifs at hrun with hfit
    · obtain ⟨rfl, rfl⟩ := Prod.mk.inj hrun
      refine ⟨(fun e herror => by cases herror), fun reply hok => ?_⟩
      obtain rfl := Except.ok.inj hok
      exact ⟨congrArg (db.idempotencyReceipts ++ ·) hreceipts, hreply⟩
    · obtain ⟨rfl, rfl⟩ := Prod.mk.inj hrun
      exact ⟨fun _ _ => rfl, fun reply hok => by cases hok⟩

/-- A timed batch is a batch without a receipt, or fails and changes nothing. -/
theorem Synced.putBatchWithWriteTiming_cases {db : Db} {entries : List WalEntry}
    (h : Synced F db entries) (records : List RecordInput) :
    db.putBatchWithWriteTiming F records = db.run F (.putBatch records none) ∨
      ∃ e, db.putBatchWithWriteTiming F records = (.error e, db) := by
  rw [Db.putBatchWithWriteTiming, h.write_eq, h.run_eq]
  by_cases hnil : records = []
  · right
    simp only [hnil, if_true]
    exact ⟨_, rfl⟩
  · simp only [hnil, if_false]
    cases records.mapM fun input => tableOrUnknown db.manifest.schemas input.table with
    | error e => exact .inr ⟨e, rfl⟩
    | ok schemas => exact .inl rfl

/-! ### What a directory holds -/

/-- The receipts of a directory: those of the checkpoint, then those of the commits after it. -/
def storedReceipts (F : EngineFormat) (disk : Disk) (manifest : Manifest)
    (entries : List WalEntry) : Result (List IdempotencyReceipt) :=
  (checkpointContents F disk manifest.checkpointEpoch).map fun contents => contents.2.1 ++
    (commitsAfterCheckpoint manifest (entries.map (·.commit))).flatMap (·.idempotencyReceipts)

theorem checkpointContents_congr {disk disk' : Disk} (hdir : disk'.dir = disk.dir)
    (hcheckpoints : disk'.checkpoints = disk.checkpoints) (epoch : Epoch) :
    checkpointContents F disk' epoch = checkpointContents F disk epoch := by
  simp only [checkpointContents, readCheckpointFile_congr hdir hcheckpoints]

/-- The receipts depend on the checkpoint and on the log only. -/
theorem storedReceipts_congr {disk disk' : Disk} {manifest manifest' : Manifest}
    (hdir : disk'.dir = disk.dir) (hcheckpoints : disk'.checkpoints = disk.checkpoints)
    (hcp : manifest'.checkpointEpoch = manifest.checkpointEpoch) (entries : List WalEntry) :
    storedReceipts F disk' manifest' entries = storedReceipts F disk manifest entries := by
  simp only [storedReceipts, commitsAfterCheckpoint, hcp,
    checkpointContents_congr hdir hcheckpoints]

theorem storedReceipts_snoc {disk : Disk} {manifest : Manifest} {entries : List WalEntry}
    {receipts : List IdempotencyReceipt} {entry : WalEntry}
    (h : storedReceipts F disk manifest entries = .ok receipts)
    (hcp : manifest.checkpointEpoch < entry.commit.epoch) :
    storedReceipts F disk manifest (entries ++ [entry]) =
      .ok (receipts ++ entry.commit.idempotencyReceipts) := by
  unfold storedReceipts at h ⊢
  cases hcontents : checkpointContents F disk manifest.checkpointEpoch with
  | error e =>
    rw [hcontents] at h
    cases h
  | ok contents =>
    rw [hcontents] at h
    obtain rfl := Except.ok.inj h
    have hafter : commitsAfterCheckpoint manifest ((entries ++ [entry]).map (·.commit)) =
        commitsAfterCheckpoint manifest (entries.map (·.commit)) ++ [entry.commit] := by
      simp [commitsAfterCheckpoint, hcp]
    simp only [hafter, Except.map, List.flatMap_append, List.flatMap_singleton, List.append_assoc]

/-- A handle opened on a directory has the receipts of the directory. -/
theorem Recoverable.open_receipts {disk : Disk} {manifest : Manifest} {entries : List WalEntry}
    {whole cut : Bytes} (h : Recoverable F disk manifest entries whole cut) {db : Db}
    (hopen : Db.open F disk = .ok db) :
    storedReceipts F disk manifest entries = .ok db.idempotencyReceipts ∧
      storedReceipts F db.disk db.manifest entries = .ok db.idempotencyReceipts := by
  obtain ⟨hdir, hcheckpoints, hcp, -, recovered, hrecover, -, hreceipts, -⟩ := h.open_frame hopen
  have hstored : storedReceipts F disk manifest entries = .ok db.idempotencyReceipts := by
    rw [recover_eq h.checkpoint h.checkpointSchemas, Except.bind_eq_ok_iff] at hrecover
    obtain ⟨contents, hcontents, hreplay⟩ := hrecover
    simp only [replayCommits, Except.bind_eq_ok_iff] at hreplay
    obtain ⟨_, _, _, _, heq⟩ := hreplay
    obtain rfl := Except.ok.inj heq
    rw [hreceipts, storedReceipts, hcontents]
    rfl
  exact ⟨hstored, (storedReceipts_congr hdir hcheckpoints hcp entries).trans hstored⟩

/-! ### What a handle has -/

/-- A handle that is in step with its directory, and whose receipts are those of the directory. -/
structure Accounted (F : EngineFormat) (db : Db) (entries : List WalEntry) : Prop
    extends Synced F db entries where
  receipts : storedReceipts F db.disk db.manifest entries = .ok db.idempotencyReceipts

theorem Recoverable.accounted {disk : Disk} {manifest : Manifest} {entries : List WalEntry}
    {whole cut : Bytes} (h : Recoverable F disk manifest entries whole cut) {db : Db}
    (hopen : Db.open F disk = .ok db) : Accounted F db entries :=
  ⟨h.synced hopen, (h.open_receipts hopen).2⟩

namespace Accounted

variable {db : Db} {entries : List WalEntry}

theorem committed (h : Accounted F db entries) {op : Op} {plan : PlannedWrite}
    (hplan : db.plan F op = .ok (some plan))
    (hsync : Synced F (db.committed F entries plan)
      (entries ++ [nextEntry F.toWalFormat entries plan.commit])) :
    Accounted F (db.committed F entries plan)
      (entries ++ [nextEntry F.toWalFormat entries plan.commit]) := by
  refine ⟨hsync, ?_⟩
  have hcp : db.manifest.checkpointEpoch < plan.commit.epoch := by
    rw [(stamped_plan hplan).epoch]
    exact Nat.lt_succ_of_le h.checkpoint
  refine (storedReceipts_congr rfl rfl rfl _).trans (storedReceipts_snoc h.receipts ?_)
  exact hcp

theorem published (h : Accounted F db entries) {db' : Db} (hpublished : Published F db db') :
    Accounted F db' entries := by
  refine ⟨h.toSynced.published hpublished, ?_⟩
  rcases hpublished with rfl | ⟨segments, manifest, hsame, rfl⟩
  · exact h.receipts
  · exact (storedReceipts_congr rfl rfl hsame.checkpointEpoch _).trans h.receipts

theorem checkpointed [F.Lossless] (h : Accounted F db entries) (hsettled : Settled F db) :
    Accounted F (db.checkpointed F) [] := by
  refine ⟨h.toSynced.checkpointed, ?_⟩
  obtain ⟨store, hcontents, -⟩ := hsettled.checkpointContents (EngineFormat.Lossless.checkpoint _)
  have hcontents' : checkpointContents F (db.checkpointed F).disk
      (db.checkpointed F).manifest.checkpointEpoch =
        .ok (store, db.idempotencyReceipts, db.jobCatalog) :=
    (checkpointContents_congr rfl rfl _).trans hcontents
  rw [storedReceipts, hcontents']
  exact congrArg Except.ok (List.append_nil _)

end Accounted

/-- **The receipts of every reachable handle** are in its directory. -/
theorem Reachable.accounted [F.Lossless] {dir : String} {db : Db} (h : Reachable F dir db) :
    ∃ entries, Accounted F db entries := by
  induction h with
  | opened hopen =>
    rw [open_empty] at hopen
    exact ⟨[], (recoverable_initialDisk dir).accounted hopen⟩
  | run op _ ih =>
    obtain ⟨entries, hacc⟩ := ih
    rcases hacc.toSynced.run_cases op with heq | ⟨plan, hplan, -, heq, hsync⟩
    · exact ⟨entries, by rw [heq]; exact hacc⟩
    · exact ⟨_, by rw [heq]; exact hacc.committed hplan hsync⟩
  | checkpoint hreach hcheckpoint ih =>
    obtain ⟨entries, hacc⟩ := ih
    rw [hacc.toSynced.checkpoint_eq] at hcheckpoint
    obtain ⟨-, rfl⟩ := Prod.mk.inj hcheckpoint
    exact ⟨[], hacc.checkpointed hreach.settled⟩
  | publish segmentId generation _ hpublish ih =>
    obtain ⟨entries, hacc⟩ := ih
    exact ⟨entries, hacc.published (hacc.toSynced.publishSegment_cases hpublish)⟩
  | compact _ hcompact ih =>
    obtain ⟨entries, hacc⟩ := ih
    exact ⟨entries, hacc.published (hacc.toSynced.publishCompactedSegment_cases hcompact)⟩
  | reopen _ hopen ih =>
    obtain ⟨entries, hacc⟩ := ih
    exact ⟨entries, hacc.toSynced.recoverable.accounted hopen⟩
  | crash k n _ hplan hrun hopen ih =>
    obtain ⟨entries, hacc⟩ := ih
    obtain ⟨hfit, -⟩ := hacc.toSynced.fits_of_run hplan hrun
    rcases hacc.toSynced.crash_cases hplan hfit k n with ⟨cut, -, -, -, hrec⟩ | ⟨-,
      manifest, -, hrec⟩
    · exact ⟨_, hrec.accounted hopen⟩
    · exact ⟨_, hrec.accounted hopen⟩
  | checkpointCrash _ hpublish hopen ih =>
    obtain ⟨entries, hacc⟩ := ih
    rw [hacc.toSynced.publishCheckpoint_eq] at hpublish
    obtain ⟨-, rfl⟩ := Prod.mk.inj hpublish
    exact ⟨entries, hacc.toSynced.recoverable_checkpointDisk.accounted hopen⟩

/-! ### Reopening -/

/-- **Reopening keeps the receipts.** -/
theorem Reachable.receipts_reopen [F.Lossless] {dir : String} {db db' : Db} (h : Reachable F dir db)
    (hopen : Db.open F db.disk = .ok db') : db'.idempotencyReceipts = db.idempotencyReceipts := by
  obtain ⟨entries, hacc⟩ := h.accounted
  have hstored := (hacc.toSynced.recoverable.open_receipts hopen).1
  exact Except.ok.inj (hstored.symm.trans hacc.receipts)

/-- **A crash inside a write** keeps the receipts, and may add those of the write. -/
theorem Reachable.receipts_crash [F.Lossless] {dir : String} {db done db' : Db}
    (h : Reachable F dir db) {op : Op} {plan : PlannedWrite} {reply : Reply}
    (hplan : db.plan F op = .ok (some plan)) (hrun : db.run F op = (.ok reply, done)) (k n : ℕ)
    (hopen : Db.open F (crashAt db.disk (db.writeSteps F plan) k n) = .ok db') :
    db'.idempotencyReceipts = db.idempotencyReceipts ∨
      db'.idempotencyReceipts = db.idempotencyReceipts ++ op.receipts db.nextEpoch := by
  obtain ⟨entries, hacc⟩ := h.accounted
  obtain ⟨hfit, -⟩ := hacc.toSynced.fits_of_run hplan hrun
  obtain ⟨hdir, hcheckpoints, -⟩ := hacc.toSynced.crashAt_cases plan k n
  have hcp : db.manifest.checkpointEpoch <
      (nextEntry F.toWalFormat entries plan.commit).commit.epoch := by
    show _ < plan.commit.epoch
    rw [(stamped_plan hplan).epoch]
    exact Nat.lt_succ_of_le hacc.checkpoint
  rcases hacc.toSynced.crash_cases hplan hfit k n with ⟨cut, -, -, -, hrec⟩ | ⟨-,
    manifest, hm, hrec⟩
  · left
    have hstored := (hrec.open_receipts hopen).1
    rw [storedReceipts_congr hdir hcheckpoints rfl, hacc.receipts] at hstored
    exact (Except.ok.inj hstored).symm
  · right
    have hstored := (hrec.open_receipts hopen).1
    have hsame : manifest.checkpointEpoch = db.manifest.checkpointEpoch := by
      rcases hm with rfl | ⟨rfl, -⟩
      · rfl
      · rfl
    rw [storedReceipts_congr hdir hcheckpoints hsame,
      storedReceipts_snoc hacc.receipts hcp] at hstored
    rw [← (plan_receipts hplan).1]
    exact (Except.ok.inj hstored).symm

end TraceDB
