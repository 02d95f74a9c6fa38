import TraceDB.Data.Growth
import TraceDB.Engine.Receipts
import TraceDB.Engine.Reference

/-!
# The epochs of the log

A write takes the epoch after the latest one of the manifest, and writes it to the log before it
moves the manifest on.

* `Counted` : a handle in step with its directory whose log has one commit for each epoch up to the
  latest one, from some epoch on that the checkpoint covers.
* `Disk.HasLog` : the same for a closed directory, which can be empty, or have a manifest behind its
  log.
* `Grows` : the log of a handle has only been added to, with commits of some kind.  All operations
  but a checkpoint do no more.
* `epochs_consecutive` : so it is along every run, whichever crashes there are in it: no epoch after
  the checkpoint is missing from the log, and none is there twice.
-/

namespace TraceDB

variable {F : EngineFormat}

/-- The commits that a scan finds in the log of a directory. -/
def Disk.loggedCommits (F : EngineFormat) (disk : Disk) : Result (List CommitRecord) := do
  let scan ← scanFile F.toWalFormat disk.wal
  .ok (scan.entries.map (·.commit))

theorem Orderly.loggedCommits {disk : Disk} {manifest : Manifest} {entries : List WalEntry}
    {whole cut : Bytes} (h : Orderly F disk manifest entries whole cut) :
    disk.loggedCommits F = .ok (entries.map (·.commit)) := by
  obtain ⟨torn, hscan, -⟩ := h.chain.scanFile_cut h.isCut
  rw [Disk.loggedCommits, h.wal, hscan]
  rfl

/-! ### Handles and closed directories -/

/-- The commits have the epochs after `first`, one each. -/
def Consecutive (first : Epoch) (commits : List CommitRecord) : Prop :=
  commits.map (·.epoch) = List.range' (first + 1) commits.length

theorem Consecutive.snoc {first : Epoch} {commits : List CommitRecord}
    (h : Consecutive first commits) {commit : CommitRecord}
    (hepoch : commit.epoch = first + commits.length + 1) :
    Consecutive first (commits ++ [commit]) := by
  rw [Consecutive, List.map_append, h, List.length_append, List.length_singleton,
    List.range'_1_concat, List.map_singleton, hepoch, Nat.add_right_comm]

/-- The log has one commit for each epoch up to the latest one of the manifest, from the one after
`first` on, which the checkpoint covers. -/
structure Numbered (manifest : Manifest) (entries : List WalEntry) (first covered : Epoch) :
    Prop where
  consecutive : Consecutive first (entries.map (·.commit))
  latest : manifest.latestEpoch = first + entries.length
  checkpoint : manifest.checkpointEpoch = covered
  covers : first ≤ covered

section Numbered

variable {manifest manifest' : Manifest} {entries : List WalEntry} {first covered : Epoch}

/-- Only the epochs of the manifest matter. -/
theorem Numbered.congr (h : Numbered manifest entries first covered)
    (hlatest : manifest'.latestEpoch = manifest.latestEpoch)
    (hcheckpoint : manifest'.checkpointEpoch = manifest.checkpointEpoch) :
    Numbered manifest' entries first covered :=
  ⟨h.consecutive, hlatest.trans h.latest, hcheckpoint.trans h.checkpoint, h.covers⟩

/-- One more commit, at the next epoch. -/
theorem Numbered.snoc (h : Numbered manifest entries first covered) {entry : WalEntry}
    (hepoch : entry.commit.epoch = manifest.latestEpoch + 1)
    (hlatest : manifest'.latestEpoch = entry.commit.epoch)
    (hcheckpoint : manifest'.checkpointEpoch = manifest.checkpointEpoch) :
    Numbered manifest' (entries ++ [entry]) first covered := by
  have hnext : entry.commit.epoch = first + entries.length + 1 := by rw [hepoch, h.latest]
  refine ⟨?_, ?_, hcheckpoint.trans h.checkpoint, h.covers⟩
  · rw [List.map_append]
    exact h.consecutive.snoc (by rw [hnext, List.length_map])
  · rw [hlatest, hnext, List.length_append]
    rfl

end Numbered

/-- A handle that is in step with its directory and has its receipts and its epochs from there. -/
structure Counted (F : EngineFormat) (db : Db) (first covered : Epoch) (entries : List WalEntry) :
    Prop
    extends Accounted F db entries where
  numbered : Numbered db.manifest entries first covered

theorem counted_initialDb (dir : String) : Counted F (initialDb F dir) 0 0 [] := by
  have hopen : Db.open F (initialDisk F dir) = .ok (initialDb F dir) :=
    (open_empty dir).symm.trans (open_empty_eq dir)
  exact ⟨(recoverable_initialDisk dir).accounted hopen, rfl, rfl, rfl, le_rfl⟩

/-- A directory opens to a handle with certain entries in its log, and with their epochs. -/
inductive Disk.HasLog (F : EngineFormat) (disk : Disk) : Epoch → Epoch → List WalEntry → Prop
  | empty {dir : String} : disk = Disk.empty dir → disk.HasLog F 0 0 []
  | files {manifest : Manifest} {first covered : Epoch} {entries : List WalEntry}
    {whole cut : Bytes} :
      Recoverable F disk manifest entries whole cut →
      Numbered (caughtUp manifest (commitsAfterCheckpoint manifest (entries.map (·.commit))))
        entries
        first covered → disk.HasLog F first covered entries

namespace Disk.HasLog

variable {disk : Disk} {first covered : Epoch} {entries : List WalEntry}

theorem counted (h : disk.HasLog F first covered entries) {db : Db}
    (hopen : Db.open F disk = .ok db) :
    Counted F db first covered entries := by
  cases h with
  | empty hdisk =>
    rw [hdisk, open_empty_eq] at hopen
    obtain rfl := Except.ok.inj hopen
    exact counted_initialDb _
  | @files manifest _ _ _ _ _ hrec hnumbered =>
    obtain ⟨-, -, hcheckpoint, hlatest, -⟩ := hrec.open_frame hopen
    exact ⟨hrec.accounted hopen,
      hnumbered.congr hlatest (hcheckpoint.trans (caughtUp_spec manifest _).1.symm)⟩

theorem loggedCommits (h : disk.HasLog F first covered entries) :
    disk.loggedCommits F = .ok (entries.map (·.commit)) := by
  cases h with
  | empty hdisk =>
    rw [hdisk, Disk.loggedCommits, Disk.empty, Chain.nil.scanFile]
    rfl
  | files hrec _ => exact hrec.loggedCommits

theorem consecutive (h : disk.HasLog F first covered entries) :
    Consecutive first (entries.map (·.commit)) := by
  cases h with
  | empty _ => rfl
  | files _ hnumbered => exact hnumbered.consecutive

end Disk.HasLog

/-- A commit that the operation plans on some handle, chained to the one before it. -/
def Op.Commits (F : EngineFormat) (op : Op) (commit : CommitRecord) : Prop :=
  ∃ (db : Db) (plan : PlannedWrite) (checksum : Digest), db.plan F op = .ok (some plan) ∧
    commit = plan.commit.prepareForFrame checksum

/-- The log of a handle has only been added to, with commits of some kind. -/
def Grows (F : EngineFormat) (p : CommitRecord → Prop) (db db' : Db) : Prop :=
  ∀ first covered entries, Counted F db first covered entries →
    Adds (fun entry => p entry.commit) (Counted F db' first covered) entries

theorem Grows.refl {p : CommitRecord → Prop} (db : Db) :
    Grows F p db db := fun _ _ _ => Adds.nothing

theorem Grows.mono {p p' : CommitRecord → Prop} {db db' : Db} (h : Grows F p db db')
    (hp : ∀ commit, p commit → p' commit) :
      Grows F p' db db' := fun first covered entries hcounted =>
  (h first covered entries hcounted).mono (fun _ hlog => hlog) fun entry => hp entry.commit

/-! ### Operations -/

namespace Counted

variable {db : Db} {first covered : Epoch} {entries : List WalEntry}

theorem hasLog (h : Counted F db first covered entries) :
    db.disk.HasLog F first covered entries := by
  refine .files h.recoverable ?_
  rw [h.caughtUp_eq]
  exact h.numbered

theorem committed [F.Lossless] (h : Counted F db first covered entries) {op : Op}
    {plan : PlannedWrite} (hplan : db.plan F op = .ok (some plan))
    (hfit : Fits F.toWalFormat entries plan.commit) :
    Counted F (db.committed F entries plan) first covered
      (entries ++ [nextEntry F.toWalFormat entries plan.commit]) := by
  have hstamp := stamped_plan hplan
  have hsync := h.toSynced.committed hstamp.engine hstamp.epoch hfit (readBack _ _)
  exact ⟨h.toAccounted.committed hplan hsync, h.numbered.snoc hstamp.epoch rfl rfl⟩

theorem published (h : Counted F db first covered entries) {db' : Db}
    (hpublished : Published F db db') :
    Counted F db' first covered entries := by
  have haccounted := h.toAccounted.published hpublished
  rcases hpublished with rfl | ⟨segments, manifest, hsame, rfl⟩
  · exact h
  · exact ⟨haccounted, h.numbered.congr hsame.latestEpoch hsame.checkpointEpoch⟩

/-- A checkpoint starts the log again after the epochs that it covers. -/
theorem checkpointed [F.Lossless] (h : Counted F db first covered entries)
    (hsettled : Settled F db) :
    Counted F (db.checkpointed F) db.manifest.latestEpoch db.manifest.latestEpoch [] :=
  ⟨h.toAccounted.checkpointed hsettled, rfl, rfl, rfl, le_rfl⟩

/-- A crash before the log is cut leaves the epochs that the checkpoint covers in it. -/
theorem hasLog_checkpointDisk [F.Lossless] (h : Counted F db first covered entries) :
    (db.checkpointDisk F).HasLog F first db.manifest.latestEpoch entries := by
  refine .files h.toSynced.recoverable_checkpointDisk ?_
  rw [caughtUp_of_le]
  · refine ⟨h.numbered.consecutive, h.numbered.latest, rfl, ?_⟩
    rw [h.numbered.latest]
    exact Nat.le_add_right _ _
  · intro commit hmem
    obtain ⟨entry, hentry, rfl⟩ := List.mem_map.1 (List.mem_filter.1 hmem).1
    exact h.epochs entry hentry

/-- **A crash inside a write** leaves the log as it was, or with the new commit at its end. -/
theorem crash [F.Lossless] (h : Counted F db first covered entries) {op : Op} {plan : PlannedWrite}
    {reply : Reply} {done : Db} (hplan : db.plan F op = .ok (some plan))
    (hrun : db.run F op = (.ok reply, done)) (k n : ℕ) :
    Adds (fun entry => op.Commits F entry.commit)
      ((crashAt db.disk (db.writeSteps F plan) k n).HasLog F first covered) entries := by
  obtain ⟨hfit, -⟩ := h.toSynced.fits_of_run hplan hrun
  have hstamp := stamped_plan hplan
  rcases h.toSynced.crash_cases hplan hfit k n with ⟨cut, -, -, -, hrec⟩ |
    ⟨-, manifest, hmanifest, hrec⟩
  · refine .nothing (.files hrec ?_)
    rw [h.caughtUp_eq]
    exact h.numbered
  · refine .one (.files hrec ?_) ⟨db, plan, _, hplan, rfl⟩
    rcases hmanifest with rfl | ⟨rfl, -⟩
    · rw [h.toSynced.caughtUp_next hplan]
      exact h.numbered.snoc hstamp.epoch rfl rfl
    · have hcaught : caughtUp (db.nextManifest F plan)
          (commitsAfterCheckpoint (db.nextManifest F plan) _) = db.nextManifest F plan :=
        (h.committed hplan hfit).caughtUp_eq
      rw [hcaught]
      exact h.numbered.snoc hstamp.epoch rfl rfl

/-- Without a checkpoint, all receipts are in the log. -/
theorem mem_receipts (h : Counted F db first 0 entries) {receipt : IdempotencyReceipt}
    (hmem : receipt ∈ db.idempotencyReceipts) :
    ∃ entry ∈ entries, receipt ∈ entry.commit.idempotencyReceipts := by
  have hreceipts := h.receipts
  rw [storedReceipts, h.numbered.checkpoint, checkpointContents, if_neg (lt_irrefl 0)] at hreceipts
  rw [← Except.ok.inj hreceipts] at hmem
  obtain ⟨commit, hcommit, hreceipt⟩ := List.mem_flatMap.1 hmem
  obtain ⟨entry, hentry, rfl⟩ := List.mem_map.1 (List.mem_filter.1 hcommit).1
  exact ⟨entry, hentry, hreceipt⟩

end Counted

theorem grows_run [F.Lossless] (db : Db) (op : Op) : Grows F (op.Commits F) db (db.run F op).2 := by
  intro first covered entries hcounted
  rcases hcounted.toSynced.run_cases op with hsame | ⟨plan, hplan, hfit, hrun, -⟩
  · rw [hsame]
    exact .nothing hcounted
  · rw [hrun]
    exact .one (hcounted.committed hplan hfit) ⟨db, plan, _, hplan, rfl⟩

theorem grows_compact {p : CommitRecord → Prop} {db db' : Db} (h : db.compact F = .ok db') :
    Grows F p db db' := fun _ _ _ hcounted =>
  .nothing (hcounted.published (hcounted.toSynced.publishCompactedSegment_cases h))

/-! ### Runs -/

/-- **The log of every handle** has its epochs. -/
theorem Reachable.counted [F.Lossless] {dir : String} {db : Db} (h : Reachable F dir db) :
    ∃ first covered entries, Counted F db first covered entries := by
  induction h with
  | opened hopen => exact ⟨0, 0, [], (Disk.HasLog.empty rfl).counted hopen⟩
  | run op _ ih =>
    obtain ⟨first, covered, entries, hcounted⟩ := ih
    obtain ⟨rest, hrun, -⟩ := grows_run _ op _ _ _ hcounted
    exact ⟨first, covered, _, hrun⟩
  | checkpoint hreach hcheckpoint ih =>
    obtain ⟨first, covered, entries, hcounted⟩ := ih
    rw [hcounted.toSynced.checkpoint_eq] at hcheckpoint
    obtain ⟨-, rfl⟩ := Prod.mk.inj hcheckpoint
    exact ⟨_, _, [], hcounted.checkpointed hreach.settled⟩
  | publish segmentId generation _ hpublish ih =>
    obtain ⟨first, covered, entries, hcounted⟩ := ih
    exact ⟨first, covered, entries,
      hcounted.published (hcounted.toSynced.publishSegment_cases hpublish)⟩
  | compact _ hcompact ih =>
    obtain ⟨first, covered, entries, hcounted⟩ := ih
    exact ⟨first, covered, entries,
      hcounted.published (hcounted.toSynced.publishCompactedSegment_cases hcompact)⟩
  | reopen _ hopen ih =>
    obtain ⟨first, covered, entries, hcounted⟩ := ih
    exact ⟨first, covered, entries, hcounted.hasLog.counted hopen⟩
  | crash k n _ hplan hrun hopen ih =>
    obtain ⟨first, covered, entries, hcounted⟩ := ih
    obtain ⟨rest, hlog, -⟩ := hcounted.crash hplan hrun k n
    exact ⟨first, covered, _, hlog.counted hopen⟩
  | checkpointCrash _ hpublish hopen ih =>
    obtain ⟨first, covered, entries, hcounted⟩ := ih
    rw [hcounted.toSynced.publishCheckpoint_eq] at hpublish
    obtain ⟨-, rfl⟩ := Prod.mk.inj hpublish
    exact ⟨first, _, entries, hcounted.hasLog_checkpointDisk.counted hopen⟩

/-- **No epoch is lost or used twice.**  Along every run, with its checkpoints and crashes, the
commits in the log of a handle have the epochs up to its latest one, one each, from an epoch on that
the checkpoint covers; and a write that is carried out gets the next epoch. -/
theorem epochs_consecutive [F.Lossless] {dir : String} {db : Db} (h : Reachable F dir db) :
    ∃ first commits, db.disk.loggedCommits F = .ok commits ∧ Consecutive first commits ∧
      first ≤ db.manifest.checkpointEpoch ∧ db.manifest.latestEpoch = first + commits.length ∧
      ∀ op plan reply done, db.plan F op = .ok (some plan) → db.run F op = (.ok reply, done) →
        ∃ checksum, done.disk.loggedCommits F =
          .ok (commits ++ [plan.commit.prepareForFrame checksum]) ∧
          plan.commit.epoch = first + commits.length + 1 := by
  obtain ⟨first, covered, entries, hcounted⟩ := h.counted
  have hnumbered := hcounted.numbered
  refine ⟨first, entries.map (·.commit), hcounted.hasLog.loggedCommits, hnumbered.consecutive,
    hnumbered.covers.trans_eq hnumbered.checkpoint.symm, ?_,
    fun op plan reply done hplan hrun => ?_⟩
  · rw [List.length_map]
    exact hnumbered.latest
  · obtain ⟨hfit, rfl⟩ := hcounted.toSynced.fits_of_run hplan hrun
    refine ⟨lastChecksum entries, ?_, ?_⟩
    · rw [(hcounted.committed hplan hfit).hasLog.loggedCommits, List.map_append]
      rfl
    · rw [(stamped_plan hplan).epoch, List.length_map, ← hnumbered.latest]
      rfl

/-- The epoch of a job that is queued after a checkpoint. -/
theorem epochs_after_checkpoint :
    let db := (((initialDb .reference "db").checkpointed .reference).run .reference
      (.enqueueJob .buildTextIndex "pages" "first")).2
    ∃ first commits, db.disk.loggedCommits .reference = .ok commits ∧ Consecutive first commits ∧
      first ≤ db.manifest.checkpointEpoch ∧ db.manifest.latestEpoch = first + commits.length ∧
      ∀ op plan reply done, db.plan .reference op = .ok (some plan) →
        db.run .reference op = (.ok reply, done) →
        ∃ checksum, done.disk.loggedCommits .reference =
            .ok (commits ++ [plan.commit.prepareForFrame checksum]) ∧
          plan.commit.epoch = first + commits.length + 1 :=
  epochs_consecutive
    (.run _ (.checkpoint (.opened (open_empty_eq "db")) (synced_initialDb "db").checkpoint_eq))

end TraceDB
