import TraceDB.Engine.Atomicity
import TraceDB.Engine.Replay

/-!
# Handles after a failed write

A write that fails with an I/O error leaves part of its steps on the disk, and a handle that stays
open. The next operation on the handle looks whether the disk is ahead of it, and opens the
directory again when it is.  But the handle holds the engine lock itself, so that opening is
refused.

* `WriteFault`, `Db.commitFaulty` : the handle after a write that failed at any of its steps.
* `Standing` : a handle whose disk is not ahead of it, whatever else a failed write has left.
* `failed_write_recovers_iff` : after a failed write the next operation gives what it gives on a
  freshly opened handle just when the failed step was not the sync of a whole frame, and handle and
  directory agreed without the failure.
* `whole_frame_locks_handle` : the sync of the first frame fails, and the handle cannot be used
  again.
-/

namespace TraceDB

variable (F : EngineFormat)

/-- Where a write fails with an I/O error. -/
inductive WriteFault where
  /-- `append_commit`, after `n` bytes of the frame; when these are all of them, in `sync_data`. -/
  | append (n : ℕ)
  /-- `write_manifest`, after `k` of its steps; the next one has written some bytes, or has not
  touched its file. -/
  | manifest (k : ℕ) (cut : Option ℕ)
  /-- `write_job_catalog_file`, likewise. -/
  | jobs (k : ℕ) (cut : Option ℕ)

/-- The directory after `k` steps, and what a failed step has left. -/
def stopAt (disk : Disk) (steps : List DiskStep) (k : ℕ) (cut : Option ℕ) : Disk :=
  let done := (steps.take k).foldl DiskStep.apply disk
  match steps[k]?, cut with
  | some step, some n => step.applyCut done n
  | _, _ => done

/-- The steps of `write_manifest`, on a directory with a readable manifest. -/
def manifestSteps (disk : Disk) (manifest : Manifest) : List DiskStep :=
  (disk.manifest.map DiskStep.writeBak).toList ++
    [.writeTmp (F.manifestCodec.encode (sealManifest F manifest)), .renameTmp]

/-- The steps of `write_job_catalog_file`. -/
def jobsSteps (plan : PlannedWrite) : List DiskStep :=
  match plan.jobCatalog with
  | none => []
  | some catalog => [.writeJobsTmp (F.jobCatalogBytes catalog), .renameJobsTmp]

namespace Db

variable (db : Db)

/-- The handle once the commit of a planned write is in the log. -/
def logged (plan : PlannedWrite) : Db :=
  (db.setWal (db.wal.appendCommit F.toWalFormat .ok plan.commit).2).install plan

/-- `commitPlanned`, failing at one of its steps: the handle afterwards. -/
def commitFaulty (plan : PlannedWrite) : WriteFault → Db
  | .append n => db.setWal (db.wal.appendCommit F.toWalFormat (.failed n) plan.commit).2
  | .manifest k cut =>
    -- `bump_manifest` has changed the manifest of the handle before it writes.
    let bumped := (db.logged F plan).manifest.advance plan.commit.epoch
    { db.logged F plan with
      manifest := bumped
      disk := stopAt (db.logged F plan).disk
        (manifestSteps F (db.logged F plan).disk bumped.linkParent) k cut }
  | .jobs k cut =>
    let bumped := ((db.logged F plan).bumpManifest F plan.commit.epoch).2
    { bumped with disk := stopAt bumped.disk (jobsSteps F plan) k cut }

end Db

/-- What a handle shows: schemas, store, receipts, jobs and epoch. -/
structure DbMemory where
  schemas : List TableSchema
  store : RecordStore
  idempotencyReceipts : List IdempotencyReceipt
  jobCatalog : JobCatalog
  latestEpoch : Epoch

/-- What a handle has in memory. -/
def Db.memory (db : Db) : DbMemory :=
  ⟨db.manifest.schemas, db.store, db.idempotencyReceipts, db.jobCatalog, db.manifest.latestEpoch⟩

/-- The next operation on a handle can refresh it, and then gives what it gives on a freshly opened
one. -/
def RecoversAt (db : Db) (next : Op) : Prop :=
  (∃ refreshed, db.refreshFromDiskIfStale F = .ok refreshed) ∧
    ∃ fresh, Db.open F db.disk = .ok fresh ∧
      (db.run F next).2.memory = (fresh.run F next).2.memory

/-- The failed write has left the whole frame in the log, and the handle does not know. -/
def WriteFault.LeavesLogAhead (frame : Bytes) : WriteFault → Prop
  | .append n => frame.length ≤ n
  | .manifest _ _ | .jobs _ _ => False

/-- The handle without the failure: as it was before the write, or as it is after it once the frame
is in the log. -/
def WriteFault.without (before after : Db) : WriteFault → Db
  | .append _ => before
  | .manifest _ _ | .jobs _ _ => after

/-- A handle and its directory agree on an operation. -/
def AgreesAt (db : Db) (next : Op) : Prop :=
  ∃ fresh, Db.open F db.disk = .ok fresh ∧ (db.run F next).2.memory = (fresh.run F next).2.memory

variable {F}

/-! ### What an operation does to the memory of a handle -/

/-- The memory after a planned write. -/
def DbMemory.after (memory : DbMemory) (plan : PlannedWrite) : DbMemory where
  schemas := plan.commit.schemaChanges.foldl upsertSchema memory.schemas
  store := memory.store.applyDelta plan.delta
  idempotencyReceipts := memory.idempotencyReceipts ++ plan.commit.idempotencyReceipts
  jobCatalog := plan.jobCatalog.getD memory.jobCatalog
  latestEpoch := plan.commit.epoch

/-- The memory after a decision. -/
def DbMemory.outcome (F : EngineFormat) (memory : DbMemory) (entries : List WalEntry) :
    Result (Option PlannedWrite) → DbMemory
  | .ok (some plan) => if Fits F.toWalFormat entries plan.commit then memory.after plan else memory
  | _ => memory

/-- A handle with a given memory, on no directory. -/
def DbMemory.toDb (memory : DbMemory) (databaseId branchId : String) : Db where
  disk := Disk.empty ""
  manifest := { Manifest.empty databaseId with
    schemas := memory.schemas
    latestEpoch := memory.latestEpoch
    branchId := branchId }
  store := memory.store
  walTail := tailFromScan 0 []
  walTornTail := none
  idempotencyReceipts := memory.idempotencyReceipts
  jobCatalog := memory.jobCatalog
  lastRecoveryTornTail := none

/-- A decision looks at the memory, and at the names of database and branch. -/
theorem plan_eq_toDb (db : Db) (op : Op) :
    db.plan F op = (db.memory.toDb db.manifest.databaseId db.manifest.branchId).plan F op := by
  cases op <;> rfl

/-- A handle whose disk is not ahead of it.  Its log may end in a cut frame, and its manifest file
may be older than the manifest in memory. -/
structure Standing (F : EngineFormat) (db : Db) (entries : List WalEntry) : Prop where
  log : ∃ whole cut, Log.Inv F.toWalFormat db.wal entries whole cut
  durable : ∃ manifest, Sealed F manifest ∧
    db.disk.manifest = some (F.manifestCodec.encode manifest) ∧
    manifest.latestEpoch ≤ db.manifest.latestEpoch ∧
    manifest.checkpointEpoch ≤ db.manifest.checkpointEpoch ∧
    manifest.manifestGeneration ≤ db.manifest.manifestGeneration
  epochs : ∀ entry ∈ entries, entry.commit.epoch ≤ db.manifest.latestEpoch

theorem Synced.standing {db : Db} {entries : List WalEntry} (h : Synced F db entries) :
    Standing F db entries where
  log := ⟨_, _, h.logInv⟩
  durable := ⟨db.manifest, h.isSealed, h.manifestFile, le_refl _, le_refl _, le_refl _⟩
  epochs := h.epochs

namespace Standing

variable {db : Db} {entries : List WalEntry}

/-- A handle with the tail of its log read again. -/
def retail (db : Db) (entries : List WalEntry) : Db :=
  { db with walTail := tailFromScan db.disk.wal.length entries }

theorem refresh (h : Standing F db entries) :
    db.refreshFromDiskIfStale F = .ok (retail db entries) := by
  obtain ⟨whole, cut, hlog⟩ := h.log
  obtain ⟨manifest, hsealed, hfile, hlatest, hcheckpoint, hgeneration⟩ := h.durable
  have hwal : db.wal.lastCommitEpoch F.toWalFormat =
      .ok (entries.getLast?.map (·.commit.epoch),
        { db.wal with tail := tailFromScan db.wal.file.length entries }) := by
    rw [Log.lastCommitEpoch, hlog.refreshTail, Except.ok_bind]
    rfl
  have hold : (entries.getLast?.map (·.commit.epoch)).any
      (fun lastEpoch => decide (db.manifest.latestEpoch < lastEpoch)) = false := by
    cases hlast : entries.getLast? with
    | none => rfl
    | some entry =>
      have hle := h.epochs entry (List.mem_of_getLast? hlast)
      simpa using hle
  simp only [Db.refreshFromDiskIfStale, readManifest_of_manifest hsealed hfile,
    Except.ok_bind, hwal, hold, not_lt.2 hlatest, not_lt.2 hcheckpoint, not_lt.2 hgeneration,
    decide_false, Bool.or_self, Bool.false_eq_true, if_false]
  rfl

theorem retail_standing (h : Standing F db entries) : Standing F (retail db entries) entries := by
  obtain ⟨whole, cut, hlog⟩ := h.log
  exact ⟨⟨whole, cut, hlog.chain, hlog.isCut, hlog.file, fun _ => rfl⟩, h.durable, h.epochs⟩

theorem commitPlanned_memory (h : Standing F db entries) (plan : PlannedWrite) :
    (db.commitPlanned F plan).2.memory = db.memory.outcome F entries (.ok (some plan)) := by
  obtain ⟨whole, cut, hlog⟩ := h.log
  obtain ⟨manifest, hsealed, hfile, -⟩ := h.durable
  by_cases hfit : Fits F.toWalFormat entries plan.commit
  · rw [Db.commitPlanned, hlog.appendCommit_ok hfit, DbMemory.outcome, if_pos hfit]
    have hdisk : ((db.setWal ⟨tailFromScan
        (db.wal.file ++ nextFrame F.toWalFormat entries plan.commit).length
        (entries ++ [nextEntry F.toWalFormat entries plan.commit]), db.wal.recoveryTornTail,
        db.wal.file ++ nextFrame F.toWalFormat entries plan.commit⟩).install plan).disk.manifest =
          some (F.manifestCodec.encode manifest) := hfile
    simp only [Db.bumpManifest, writeManifest_of_manifest hsealed hdisk]
    cases plan.jobCatalog with
    | none => rfl
    | some catalog => rfl
  · rw [Db.commitPlanned, DbMemory.outcome, if_neg hfit]
    obtain ⟨e, log', heq, -, -⟩ := hlog.appendCommit_large hfit .ok
    rw [heq]
    rfl

theorem write_memory (h : Standing F db entries) (plan : Db → Result PlannedWrite)
    (hplan : plan (retail db entries) = plan db) :
    (db.write F plan).2.memory = db.memory.outcome F entries (some <$> plan db) := by
  simp only [Db.write, h.refresh, hplan]
  cases plan db with
  | error e => rfl
  | ok planned => exact h.retail_standing.commitPlanned_memory planned

/-- **What an operation leaves in memory**, on a handle whose disk is not ahead of it. -/
theorem run_memory (h : Standing F db entries) (op : Op) :
    (db.run F op).2.memory = db.memory.outcome F entries (db.plan F op) := by
  cases op with
  | applySchema schema receipt => exact h.write_memory _ rfl
  | insert input receipt => exact h.write_memory _ rfl
  | put input receipt => exact h.write_memory _ rfl
  | putBatch records receipt => exact h.write_memory _ rfl
  | patch input receipt => exact h.write_memory _ rfl
  | delete deletion receipt => exact h.write_memory _ rfl
  | setFeatureStatus invalidation =>
    simp only [Db.run, Db.setFeatureStatus, Db.plan]
    split_ifs with hblank
    · rfl
    · exact h.write_memory _ rfl
  | recordIdempotencyReceipt receipt =>
    exact h.write_memory (fun db => .ok (db.planReceipt receipt)) rfl
  | enqueueJob kind target key =>
    simp only [Db.run, Db.enqueueJob, Db.plan]
    exact h.write_memory _ rfl
  | leaseJob workerId kind nowMs leaseMs =>
    simp only [Db.run, Db.leaseJob, Db.plan]
    rcases db.jobCatalog.leaseNextAt workerId kind nowMs leaseMs with ⟨planned, _ | job⟩
    · rfl
    · exact h.write_memory _ rfl
  | heartbeatJob jobId token nowMs leaseMs =>
    simp only [Db.run, Db.heartbeatJob, Db.plan]
    rcases db.jobCatalog.heartbeat jobId token nowMs leaseMs with e | ⟨planned, job⟩
    · rfl
    · exact h.write_memory _ rfl
  | completeJob jobId token =>
    simp only [Db.run, Db.completeJob, Db.plan]
    rcases db.jobCatalog.complete jobId (some token) with e | ⟨planned, job⟩
    · rfl
    · exact h.write_memory _ rfl
  | failJob jobId token error permanent nowMs =>
    simp only [Db.run, Db.failJob, Db.plan]
    rcases db.jobCatalog.fail jobId token error permanent nowMs with e | ⟨planned, job⟩
    · rfl
    · exact h.write_memory _ rfl

/-- Two handles on logs with the same entries, with the same memory, do the same. -/
theorem run_memory_congr {other : Db} (h : Standing F db entries)
    (hother : Standing F other entries) (hmemory : db.memory = other.memory)
    (hid : db.manifest.databaseId = other.manifest.databaseId)
    (hbranch : db.manifest.branchId = other.manifest.branchId) (op : Op) :
    (db.run F op).2.memory = (other.run F op).2.memory := by
  rw [h.run_memory, hother.run_memory, plan_eq_toDb db, plan_eq_toDb other, hmemory, hid, hbranch]

end Standing

/-! ### Handles that differ only in what a failure has left -/

/-- The part of the state that is memory. -/
def DbState.memory (state : DbState) : DbMemory :=
  ⟨state.manifest.schemas, state.store, state.idempotencyReceipts, state.jobCatalog,
    state.manifest.latestEpoch⟩

/-- The same state is the same memory, of the same database and branch. -/
theorem memory_eq_of_state {db other : Db} (h : db.state = other.state) :
    db.memory = other.memory ∧ db.manifest.databaseId = other.manifest.databaseId ∧
      db.manifest.branchId = other.manifest.branchId := by
  have hmemory : db.state.memory = other.state.memory := congrArg DbState.memory h
  have hmanifest : db.manifest.unsealed = other.manifest.unsealed := congrArg DbState.manifest h
  have hid := congrArg Manifest.databaseId hmanifest
  have hbranch := congrArg Manifest.branchId hmanifest
  exact ⟨hmemory, hid, hbranch⟩

/-- Directories that open to the same state open to handles that do the same. -/
theorem open_run_memory {disk disk' : Disk} {entries : List WalEntry}
    (hstate : (Db.open F disk).map Db.state = (Db.open F disk').map Db.state)
    (hsync : ∀ fresh, Db.open F disk = .ok fresh → Synced F fresh entries)
    (hsync' : ∀ fresh, Db.open F disk' = .ok fresh → Synced F fresh entries) {fresh : Db}
    (hopen : Db.open F disk = .ok fresh) (next : Op) :
    ∃ fresh', Db.open F disk' = .ok fresh' ∧
      (fresh.run F next).2.memory = (fresh'.run F next).2.memory := by
  rw [hopen] at hstate
  cases hopen' : Db.open F disk' with
  | error e =>
    rw [hopen'] at hstate
    cases hstate
  | ok fresh' =>
    rw [hopen'] at hstate
    obtain ⟨hmemory, hid, hbranch⟩ := memory_eq_of_state (Except.ok.inj hstate)
    exact ⟨fresh', rfl, (hsync fresh hopen).standing.run_memory_congr
      (hsync' fresh' hopen').standing
      hmemory hid hbranch next⟩

/-- A handle whose disk is not ahead of it recovers just when the handle without the failure, which
has the same memory and opens to the same state, agrees with its directory. -/
theorem Standing.recoversAt_iff {failed reached : Db} {entries : List WalEntry}
    {manifest : Manifest} {whole cut : Bytes} (h : Standing F failed entries)
    (hreached : Synced F reached entries) (hmemory : failed.memory = reached.memory)
    (hid : failed.manifest.databaseId = reached.manifest.databaseId)
    (hbranch : failed.manifest.branchId = reached.manifest.branchId)
    (hrec : Recoverable F failed.disk manifest entries whole cut)
    (hstate : (Db.open F failed.disk).map Db.state = (Db.open F reached.disk).map Db.state)
    (next : Op) : RecoversAt F failed next ↔ AgreesAt F reached next := by
  have hrun := h.run_memory_congr hreached.standing hmemory hid hbranch next
  have hfailed : ∀ fresh, Db.open F failed.disk = .ok fresh → Synced F fresh entries :=
    fun _ hopen => hrec.synced hopen
  have hfresh : ∀ fresh, Db.open F reached.disk = .ok fresh → Synced F fresh entries :=
    fun _ hopen => hreached.recoverable.synced hopen
  constructor
  · rintro ⟨-, fresh, hopen, hsame⟩
    obtain ⟨fresh', hopen', heq⟩ := open_run_memory hstate hfailed hfresh hopen next
    exact ⟨fresh', hopen', hrun.symm.trans (hsame.trans heq)⟩
  · rintro ⟨fresh, hopen, hsame⟩
    obtain ⟨fresh', hopen', heq⟩ := open_run_memory hstate.symm hfresh hfailed hopen next
    exact ⟨⟨_, h.refresh⟩, fresh', hopen', hrun.trans (hsame.trans heq)⟩

/-! ### What each fault leaves -/

/-- Whatever step of `write_manifest` fails, the manifest file holds the old or the new manifest. -/
theorem stopAt_manifestSteps {disk : Disk} {bytes : Bytes} (hfile : disk.manifest = some bytes)
    (manifest : Manifest) (k : ℕ) (cut : Option ℕ) :
    let stopped := stopAt disk (manifestSteps F disk manifest) k cut
    stopped.dir = disk.dir ∧ stopped.checkpoints = disk.checkpoints ∧ stopped.wal = disk.wal ∧
      (stopped.manifest = disk.manifest ∨
        stopped.manifest = some (F.manifestCodec.encode (sealManifest F manifest))) := by
  simp only [manifestSteps, hfile, Option.map_some, Option.toList_some, stopAt]
  match k, cut with
  | 0, none | 0, some _ | 1, none | 1, some _ | 2, none | 2, some _ =>
    exact ⟨rfl, rfl, rfl, .inl hfile⟩
  | k + 3, cut =>
    rw [List.take_of_length_le (by simp), List.getElem?_eq_none (by simp)]
    exact ⟨rfl, rfl, rfl, .inr rfl⟩

/-- `write_job_catalog_file` touches only its own files. -/
theorem stopAt_jobsSteps (disk : Disk) (plan : PlannedWrite) (k : ℕ) (cut : Option ℕ) :
    let stopped := stopAt disk (jobsSteps F plan) k cut
    stopped.dir = disk.dir ∧ stopped.checkpoints = disk.checkpoints ∧ stopped.wal = disk.wal ∧
      stopped.manifest = disk.manifest := by
  simp only [jobsSteps, stopAt]
  cases plan.jobCatalog with
  | none =>
    match k, cut with
    | 0, none | 0, some _ | _ + 1, none | _ + 1, some _ => exact ⟨rfl, rfl, rfl, rfl⟩
  | some catalog =>
    match k, cut with
    | 0, none | 0, some _ | 1, none | 1, some _ => exact ⟨rfl, rfl, rfl, rfl⟩
    | k + 2, cut =>
      rw [List.take_of_length_le (by simp), List.getElem?_eq_none (by simp)]
      exact ⟨rfl, rfl, rfl, rfl⟩

/-- A handle behind its log cannot be refreshed: its own engine lock refuses the opening. -/
theorem refresh_of_log_ahead {db : Db} {manifest : Manifest} {entries : List WalEntry}
    {entry : WalEntry} {whole cut : Bytes} (hsealed : Sealed F manifest)
    (hfile : db.disk.manifest = some (F.manifestCodec.encode manifest))
    (hlog : Log.Inv F.toWalFormat db.wal (entries ++ [entry]) whole cut)
    (hahead : db.manifest.latestEpoch < entry.commit.epoch) :
    db.refreshFromDiskIfStale F = .error (engineLocked db.disk.dir) := by
  have hlast : db.wal.lastCommitEpoch F.toWalFormat = .ok (some entry.commit.epoch,
      { db.wal with tail := tailFromScan db.wal.file.length (entries ++ [entry]) }) := by
    rw [Log.lastCommitEpoch, hlog.refreshTail, Except.ok_bind, tailFromScan, List.getLast?_concat]
    rfl
  simp only [Db.refreshFromDiskIfStale, readManifest_of_manifest hsealed hfile,
    Except.ok_bind, hlast, Option.any_some, decide_eq_true hahead, Bool.true_or, if_true]

namespace Synced

variable {db : Db} {entries : List WalEntry} {op : Op} {plan : PlannedWrite}

theorem commitFaulty_append (h : Synced F db entries)
    (hfit : Fits F.toWalFormat entries plan.commit) (n : ℕ) :
    db.commitFaulty F plan (.append n) =
      db.setWal ⟨tailFromScan db.disk.wal.length entries, db.walTornTail,
        db.disk.wal ++ (nextFrame F.toWalFormat entries plan.commit).take n⟩ := by
  rw [Db.commitFaulty, h.logInv.appendCommit_failed hfit]
  rfl

/-- A part of the frame is a cut frame, which neither the handle nor `open` counts. -/
theorem recoversAt_append [F.Lossless] (h : Synced F db entries)
    (hplan : db.plan F op = .ok (some plan)) (hfit : Fits F.toWalFormat entries plan.commit) {n : ℕ}
    (hpart : n < (nextFrame F.toWalFormat entries plan.commit).length) (next : Op) :
    RecoversAt F (db.commitFaulty F plan (.append n)) next ↔ AgreesAt F db next := by
  have hframe := isFrame_nextFrame (stamped_plan hplan).engine hfit (readBack _ _)
  have hproper : (nextFrame F.toWalFormat entries plan.commit).take n ≠
      nextFrame F.toWalFormat entries plan.commit := by
    intro hwhole
    have hlen := congrArg List.length hwhole
    rw [List.length_take] at hlen
    omega
  have hcut := (hframe.isCut_or_eq (List.take_prefix n _)).resolve_right hproper
  have hfaulty := h.commitFaulty_append hfit n
  have hrec : Recoverable F (db.commitFaulty F plan (.append n)).disk db.manifest entries
      db.disk.wal ((nextFrame F.toWalFormat entries plan.commit).take n) := by
    rw [hfaulty]
    exact h.recoverable.congr rfl rfl rfl rfl hcut
  have hstanding : Standing F (db.commitFaulty F plan (.append n)) entries := by
    rw [hfaulty]
    refine ⟨⟨db.disk.wal, _, h.chain, hcut, rfl, fun hlen => ?_⟩, h.standing.durable, h.epochs⟩
    exact congrArg (tailFromScan · entries) hlen.symm
  exact hstanding.recoversAt_iff h rfl rfl rfl hrec (h.open_state_cut hrec rfl rfl) next

/-- The whole frame is in the log and the handle does not know. -/
theorem refresh_append_whole [F.Lossless] (h : Synced F db entries)
    (hplan : db.plan F op = .ok (some plan)) (hfit : Fits F.toWalFormat entries plan.commit) {n : ℕ}
    (hwhole : (nextFrame F.toWalFormat entries plan.commit).length ≤ n) :
    (db.commitFaulty F plan (.append n)).refreshFromDiskIfStale F =
      .error (engineLocked db.disk.dir) := by
  have hstamp := stamped_plan hplan
  have hframe := isFrame_nextFrame hstamp.engine hfit (readBack _ _)
  have hahead : db.manifest.latestEpoch < plan.commit.epoch := by
    rw [hstamp.epoch]
    exact Nat.lt_succ_self _
  rw [h.commitFaulty_append hfit, List.take_of_length_le hwhole]
  have hlog : Log.Inv F.toWalFormat
      ⟨tailFromScan db.disk.wal.length entries, db.walTornTail,
        db.disk.wal ++ nextFrame F.toWalFormat entries plan.commit⟩
      (entries ++ [nextEntry F.toWalFormat entries plan.commit])
      (db.disk.wal ++ nextFrame F.toWalFormat entries plan.commit) [] := by
    refine ⟨h.chain.snoc hframe, .inl rfl, (List.append_nil _).symm, fun hlen => ?_⟩
    -- The cached tail belongs to the shorter file.
    have hlen : (db.disk.wal ++ nextFrame F.toWalFormat entries plan.commit).length =
        db.disk.wal.length := hlen
    have hpos := List.length_pos_iff.2 hframe.ne_nil
    rw [List.length_append] at hlen
    omega
  exact refresh_of_log_ahead h.isSealed h.manifestFile hlog hahead

theorem logged_eq (h : Synced F db entries) (hfit : Fits F.toWalFormat entries plan.commit) :
    db.logged F plan =
      (db.setWal ⟨tailFromScan (db.disk.wal ++ nextFrame F.toWalFormat entries plan.commit).length
          (entries ++ [nextEntry F.toWalFormat entries plan.commit]), db.walTornTail,
        db.disk.wal ++ nextFrame F.toWalFormat entries plan.commit⟩).install plan := by
  rw [Db.logged, h.logInv.appendCommit_ok hfit]
  rfl

/-- Once the frame is in the log and memory has followed, the manifest file may be the old or the
new one. -/
theorem recoversAt_logged [F.Lossless] (h : Synced F db entries)
    (hplan : db.plan F op = .ok (some plan))
    (hfit : Fits F.toWalFormat entries plan.commit) {failed : Db}
    (hstate : failed.state = (db.committed F entries plan).state)
    (htail : failed.walTail = (db.committed F entries plan).walTail)
    (hdir : failed.disk.dir = db.disk.dir)
    (hcheckpoints : failed.disk.checkpoints = db.disk.checkpoints)
    (hmanifest : failed.disk.manifest = db.disk.manifest ∨
      failed.disk.manifest = some (F.manifestCodec.encode (db.nextManifest F plan))) (next : Op) :
    RecoversAt F failed next ↔ AgreesAt F (db.committed F entries plan) next := by
  have hstamp := stamped_plan hplan
  have hnext := h.committed hstamp.engine hstamp.epoch hfit (readBack _ _)
  obtain ⟨hmemory, hid, hbranch⟩ := memory_eq_of_state hstate
  have hunsealed : failed.manifest.unsealed = (db.nextManifest F plan).unsealed :=
    congrArg DbState.manifest hstate
  have hlatest : failed.manifest.latestEpoch = plan.commit.epoch :=
    congrArg DbMemory.latestEpoch hmemory
  have hcheckpoint := congrArg Manifest.checkpointEpoch hunsealed
  have hgeneration := congrArg Manifest.manifestGeneration hunsealed
  have hwal : failed.disk.wal = db.disk.wal ++ nextFrame F.toWalFormat entries plan.commit :=
    congrArg DbState.wal hstate
  have hafter : db.manifest.latestEpoch ≤ plan.commit.epoch := by
    rw [hstamp.epoch]
    exact Nat.le_succ _
  -- The two manifests that the file may hold.
  obtain ⟨manifest, hm, hsealed, hfile, hle, hcp, hgen⟩ : ∃ manifest,
      (manifest = db.manifest ∨ manifest = db.nextManifest F plan) ∧ Sealed F manifest ∧
      failed.disk.manifest = some (F.manifestCodec.encode manifest) ∧
      manifest.latestEpoch ≤ plan.commit.epoch ∧
      manifest.checkpointEpoch = db.manifest.checkpointEpoch ∧
      manifest.manifestGeneration ≤ db.manifest.manifestGeneration + 1 := by
    rcases hmanifest with hold | hnew
    · exact ⟨db.manifest, .inl rfl, h.isSealed, hold.trans h.manifestFile, hafter, rfl,
        Nat.le_succ _⟩
    · exact ⟨db.nextManifest F plan, .inr rfl, hnext.isSealed, hnew, le_refl _, rfl, le_refl _⟩
  have hrec : Recoverable F failed.disk manifest
      (entries ++ [nextEntry F.toWalFormat entries plan.commit])
      (db.disk.wal ++ nextFrame F.toWalFormat entries plan.commit) [] := by
    have hwal := hwal.trans (List.append_nil _).symm
    rcases hm with rfl | rfl
    · exact (h.recoverable_logged hplan hfit (readBack _ _)).congr
        (hfile.trans h.manifestFile.symm) hdir hcheckpoints
        hwal (.inl rfl)
    · exact hnext.recoverable.congr hfile hdir hcheckpoints hwal (.inl rfl)
  have hstanding : Standing F failed
      (entries ++ [nextEntry F.toWalFormat entries plan.commit]) := by
    refine ⟨⟨_, [], hnext.chain, .inl rfl, hwal.trans (List.append_nil _).symm, fun _ => ?_⟩,
      ⟨manifest, hsealed, hfile, hle.trans_eq hlatest.symm, (hcp.trans hcheckpoint.symm).le,
        hgen.trans_eq hgeneration.symm⟩, ?_⟩
    · have hsame : failed.wal.file = (db.committed F entries plan).wal.file := hwal
      rw [hsame]
      exact htail.trans hnext.tail
    · rw [hlatest]
      exact hnext.epochs
  exact hstanding.recoversAt_iff hnext hmemory hid hbranch hrec
    (h.open_state_whole hplan hfit hm hrec hdir hcheckpoints) next

theorem recoversAt_manifest [F.Lossless] (h : Synced F db entries)
    (hplan : db.plan F op = .ok (some plan)) (hfit : Fits F.toWalFormat entries plan.commit) (k : ℕ)
    (cut : Option ℕ) (next : Op) :
    RecoversAt F (db.commitFaulty F plan (.manifest k cut)) next ↔
      AgreesAt F (db.committed F entries plan) next := by
  have hlogged := h.logged_eq hfit
  have hfile : (db.logged F plan).disk.manifest = some (F.manifestCodec.encode db.manifest) := by
    rw [hlogged]
    exact h.manifestFile
  have hstop := @stopAt_manifestSteps F _ _ hfile
    (((db.logged F plan).manifest.advance plan.commit.epoch).linkParent) k cut
  have hfaulty : db.commitFaulty F plan (.manifest k cut) = { db.logged F plan with
      manifest := (db.logged F plan).manifest.advance plan.commit.epoch
      disk := stopAt (db.logged F plan).disk (manifestSteps F (db.logged F plan).disk
        ((db.logged F plan).manifest.advance plan.commit.epoch).linkParent) k cut } := rfl
  rw [hlogged] at hstop hfaulty
  obtain ⟨hdir, hcheckpoints, hwal, hmanifest⟩ := hstop
  rw [hfaulty]
  refine h.recoversAt_logged hplan hfit ?_ ?_ hdir hcheckpoints hmanifest next
  · simp only [Db.state, hwal]
    rfl
  · rfl

theorem recoversAt_jobs [F.Lossless] (h : Synced F db entries)
    (hplan : db.plan F op = .ok (some plan)) (hfit : Fits F.toWalFormat entries plan.commit) (k : ℕ)
    (cut : Option ℕ) (next : Op) :
    RecoversAt F (db.commitFaulty F plan (.jobs k cut)) next ↔
      AgreesAt F (db.committed F entries plan) next := by
  have hlogged := h.logged_eq hfit
  have hfile : (db.logged F plan).disk.manifest = some (F.manifestCodec.encode db.manifest) := by
    rw [hlogged]
    exact h.manifestFile
  have hbumped : ((db.logged F plan).bumpManifest F plan.commit.epoch).2 = { db.logged F plan with
      manifest := db.nextManifest F plan
      disk := { (db.logged F plan).disk with
        manifest := some (F.manifestCodec.encode (db.nextManifest F plan))
        manifestBak := some (F.manifestCodec.encode db.manifest)
        manifestTmp := none } } := by
    simp only [Db.bumpManifest, writeManifest_of_manifest h.isSealed hfile]
    rw [hlogged]
    rfl
  obtain ⟨hdir, hcheckpoints, hwal, hmanifest⟩ := @stopAt_jobsSteps F
    ((db.logged F plan).bumpManifest F plan.commit.epoch).2.disk plan k cut
  have hfaulty : db.commitFaulty F plan (.jobs k cut) =
      { ((db.logged F plan).bumpManifest F plan.commit.epoch).2 with
        disk := stopAt ((db.logged F plan).bumpManifest F plan.commit.epoch).2.disk
          (jobsSteps F plan) k cut } := rfl
  rw [hbumped, hlogged] at hdir hcheckpoints hwal hmanifest hfaulty
  rw [hfaulty]
  refine h.recoversAt_logged hplan hfit ?_ ?_ hdir hcheckpoints (.inr hmanifest) next
  · simp only [Db.state, hwal]
    rfl
  · rfl

end Synced

/-- A handle whose log replays to it agrees with its directory. -/
theorem agreesAt_runAll [F.Lossless] {dir : String} {ops : List Op}
    (hops : ReplayableRun F (initialDb F dir) ops) (next : Op) :
    AgreesAt F ((initialDb F dir).runAll F ops) next := by
  obtain ⟨entries, hsync, -⟩ := replays_runAll (synced_initialDb dir) (replays_initialDb dir) hops
  obtain ⟨fresh, hopen, -, hstate, -⟩ := reopens_runAll hops
  obtain ⟨hmemory, hid, hbranch⟩ := memory_eq_of_state hstate
  have hfresh := hsync.recoverable.synced hopen
  exact ⟨fresh, hopen,
    (hfresh.standing.run_memory_congr hsync.standing hmemory hid hbranch next).symm⟩

theorem ReplayableRun.of_append {db : Db} {ops more : List Op}
    (h : ReplayableRun F db (ops ++ more)) :
    ReplayableRun F db ops := by
  induction ops generalizing db with
  | nil => trivial
  | cons op ops ih => exact ⟨h.1, ih h.2⟩

/-- **Recovery of a handle after a failed write.** -/
theorem failed_write_recovers_iff [F.Lossless] {dir : String} {db done : Db}
    (hreach : Reachable F dir db) {op : Op} {plan : PlannedWrite} {reply : Reply}
    (hplan : db.plan F op = .ok (some plan)) (hrun : db.run F op = (.ok reply, done))
    (fault : WriteFault) (next : Op) :
    (RecoversAt F (db.commitFaulty F plan fault) next ↔
      ¬ fault.LeavesLogAhead (db.frame F plan.commit) ∧ AgreesAt F (fault.without db done) next) ∧
    ∀ ops, db = (initialDb F dir).runAll F ops → ReplayableRun F (initialDb F dir) (ops ++ [op]) →
      (RecoversAt F (db.commitFaulty F plan fault) next ↔
        ¬ fault.LeavesLogAhead (db.frame F plan.commit)) := by
  obtain ⟨entries, hsync⟩ := hreach.synced
  obtain ⟨hfit, hdone⟩ := hsync.fits_of_run hplan hrun
  have hiff : RecoversAt F (db.commitFaulty F plan fault) next ↔
      ¬ fault.LeavesLogAhead (db.frame F plan.commit) ∧
      AgreesAt F (fault.without db done) next := by
    rw [hsync.frame_eq, hdone]
    cases fault with
    | append n =>
      by_cases hwhole : (nextFrame F.toWalFormat entries plan.commit).length ≤ n
      · have hlocked := hsync.refresh_append_whole hplan hfit hwhole
        constructor
        · rintro ⟨⟨refreshed, hrefresh⟩, -⟩
          rw [hlocked] at hrefresh
          cases hrefresh
        · rintro ⟨hnot, -⟩
          exact absurd hwhole hnot
      · have hpart := hsync.recoversAt_append hplan hfit (not_le.1 hwhole) next
        exact hpart.trans (and_iff_right hwhole).symm
    | manifest k cut =>
      have hsame := hsync.recoversAt_manifest hplan hfit k cut next
      exact hsame.trans (and_iff_right not_false).symm
    | jobs k cut =>
      have hsame := hsync.recoversAt_jobs hplan hfit k cut next
      exact hsame.trans (and_iff_right not_false).symm
  refine ⟨hiff, fun ops hdb hops => hiff.trans (and_iff_left ?_)⟩
  -- Without the failure the run is one of replayable operations, with or without the last one.
  have hbefore : AgreesAt F db next := hdb ▸ agreesAt_runAll hops.of_append next
  have hafter : AgreesAt F done next := by
    have hlast : (initialDb F dir).runAll F (ops ++ [op]) = done := by
      have hsplit : (initialDb F dir).runAll F (ops ++ [op]) =
          (((initialDb F dir).runAll F ops).run F op).2 := List.foldl_append
      rw [hsplit, ← hdb, hrun]
    exact hlast ▸ agreesAt_runAll hops next
  cases fault with
  | append n => exact hbefore
  | manifest k cut | jobs k cut => exact hafter

/-- The first job of a new directory, with the manifest file not written: the handle goes on as a
freshly opened one. -/
theorem failed_manifest_recovers_first_job :
    let db := initialDb EngineFormat.reference "db"
    let op := Op.enqueueJob .verifyDatabase "docs" "nightly"
    ∃ plan, db.plan .reference op = .ok (some plan) ∧
      ∀ next, RecoversAt .reference
        (db.commitFaulty .reference plan (.manifest 1 (some 3))) next := by
  intro db op
  obtain ⟨plan, hplan, hfit⟩ := first_job_fits
  have hsync : Synced .reference db [] := synced_initialDb "db"
  have hreach : Reachable .reference "db" db := .opened (open_empty_eq "db")
  refine ⟨plan, hplan, fun next => ?_⟩
  have hrun := hsync.run_of_fits hplan hfit
  exact ((failed_write_recovers_iff hreach hplan hrun (.manifest 1 (some 3)) next).2 [] rfl
    ⟨trivial, trivial⟩).2 not_false

/-- **A handle that cannot be used again**: the sync of the first frame fails, the whole frame is in
the log, and every later operation meets the engine lock of the handle itself. -/
theorem whole_frame_locks_handle :
    let db := initialDb EngineFormat.reference "db"
    let op := Op.enqueueJob .verifyDatabase "docs" "nightly"
    ∃ plan n, db.plan .reference op = .ok (some plan) ∧
      (∃ reply done, db.run .reference op = (.ok reply, done)) ∧
      (db.commitFaulty .reference plan (.append n)).refreshFromDiskIfStale .reference =
        .error (engineLocked "db") ∧
      ∀ next, ¬ RecoversAt .reference (db.commitFaulty .reference plan (.append n)) next := by
  intro db op
  obtain ⟨plan, hplan, hfit⟩ := first_job_fits
  have hsync : Synced .reference db [] := synced_initialDb "db"
  have hlocked := hsync.refresh_append_whole hplan hfit (le_refl _)
  refine ⟨plan, _, hplan, ⟨_, _, hsync.run_of_fits hplan hfit⟩, hlocked, ?_⟩
  rintro next ⟨⟨refreshed, hrefresh⟩, -⟩
  rw [hlocked] at hrefresh
  cases hrefresh

end TraceDB
