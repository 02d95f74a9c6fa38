import TraceDB.Engine.Sync

/-!
# Crashes and reachable handles

* `DiskStep` : the single steps of which a write consists; a crash keeps some of them and cuts the
  next one anywhere (`crashAt`).  `committed_disk` : all steps together are the write.
* `Recoverable.synced` : a handle opened on a directory that a crash may have left is in step with
  it.
* `Reachable` : the handles of any run from an empty directory, with checkpoints, publications,
  reopening and crashes in it.
* `Synced.crash_cases` : what a crash inside a write leaves.
-/

namespace TraceDB

variable (F : EngineFormat)

/-! ### The disk steps of a write -/

/-- One step on the files of a directory. -/
inductive DiskStep where
  /-- `write_all` of a frame at the end of the log. -/
  | appendWal (bytes : Bytes)
  /-- `fs::copy` to `manifest.tdb.bak`. -/
  | writeBak (bytes : Bytes)
  /-- `write_all` to `manifest.tdb.tmp`. -/
  | writeTmp (bytes : Bytes)
  /-- `fs::rename` of `manifest.tdb.tmp` to `manifest.tdb`. -/
  | renameTmp
  /-- `write_all` to `catalog.tjobs.tmp`. -/
  | writeJobsTmp (bytes : Bytes)
  /-- `fs::rename` of `catalog.tjobs.tmp` to `catalog.tjobs`. -/
  | renameJobsTmp

/-- A step carried out in full. -/
def DiskStep.apply (disk : Disk) : DiskStep → Disk
  | .appendWal bytes => { disk with wal := disk.wal ++ bytes }
  | .writeBak bytes => { disk with manifestBak := some bytes }
  | .writeTmp bytes => { disk with manifestTmp := some bytes }
  | .renameTmp =>
    match disk.manifestTmp with
    | none => disk
    | some bytes => { disk with manifest := some bytes, manifestTmp := none }
  | .writeJobsTmp bytes => { disk with jobsTmp := some bytes }
  | .renameJobsTmp =>
    match disk.jobsTmp with
    | none => disk
    | some bytes => { disk with jobs := some bytes, jobsTmp := none }

/-- A step cut off after `n` bytes.  A rename is atomic, so that a cut one has not happened. -/
def DiskStep.applyCut (disk : Disk) (n : ℕ) : DiskStep → Disk
  | .appendWal bytes => DiskStep.apply disk (.appendWal (bytes.take n))
  | .writeBak bytes => DiskStep.apply disk (.writeBak (bytes.take n))
  | .writeTmp bytes => DiskStep.apply disk (.writeTmp (bytes.take n))
  | .writeJobsTmp bytes => DiskStep.apply disk (.writeJobsTmp (bytes.take n))
  | .renameTmp | .renameJobsTmp => disk

/-- The directory after a crash: the first `k` steps are done, and the next one is cut after `n`
bytes. -/
def crashAt (disk : Disk) (steps : List DiskStep) (k n : ℕ) : Disk :=
  let done := (steps.take k).foldl DiskStep.apply disk
  match steps[k]? with
  | none => done
  | some step => step.applyCut done n

namespace Db

variable (db : Db)

/-- The frame that the log handle builds for a commit. -/
def frame (commit : CommitRecord) : Bytes :=
  frameOf F.toWalFormat commit (nextLsn db.walTail.lastLsn) db.walTail.lastChecksum

/-- The steps of a planned write, in the order in which `commitPlanned` makes them. -/
def writeSteps (plan : PlannedWrite) : List DiskStep :=
  [.appendWal (db.frame F plan.commit),
    .writeBak (F.manifestCodec.encode db.manifest),
    .writeTmp (F.manifestCodec.encode (db.nextManifest F plan)),
    .renameTmp] ++
  match plan.jobCatalog with
  | none => []
  | some catalog => [.writeJobsTmp (F.jobCatalogBytes catalog), .renameJobsTmp]

end Db

variable {F}

theorem Synced.frame_eq {db : Db} {entries : List WalEntry} (h : Synced F db entries)
    (commit : CommitRecord) : db.frame F commit = nextFrame F.toWalFormat entries commit := by
  rw [Db.frame, h.tail]
  rfl

/-- The parts of a directory that `open` depends on, at a crash point: before the frame is whole
the manifest and its backup are the old ones, and once it is whole the manifest is the old one, or
the new one with the old one as backup. -/
theorem Synced.crashAt_cases {db : Db} {entries : List WalEntry} (h : Synced F db entries)
    (plan : PlannedWrite) (k n : ℕ) :
    let disk := crashAt db.disk (db.writeSteps F plan) k n
    disk.dir = db.disk.dir ∧ disk.checkpoints = db.disk.checkpoints ∧
      ((disk.manifest = db.disk.manifest ∧ disk.manifestBak = db.disk.manifestBak ∧
          disk.wal = db.disk.wal ++ (nextFrame F.toWalFormat entries plan.commit).take n) ∨
        (disk.manifest = db.disk.manifest ∨
          disk.manifest = some (F.manifestCodec.encode (db.nextManifest F plan)) ∧
            disk.manifestBak = some (F.manifestCodec.encode db.manifest)) ∧
          disk.wal = db.disk.wal ++ nextFrame F.toWalFormat entries plan.commit) := by
  simp only [crashAt, Db.writeSteps, h.frame_eq]
  cases plan.jobCatalog with
  | none =>
    match k with
    | 0 => exact ⟨rfl, rfl, .inl ⟨rfl, rfl, rfl⟩⟩
    | 1 | 2 | 3 => exact ⟨rfl, rfl, .inr ⟨.inl rfl, rfl⟩⟩
    | k + 4 =>
      rw [List.take_of_length_le (by simp), List.getElem?_eq_none (by simp)]
      exact ⟨rfl, rfl, .inr ⟨.inr ⟨rfl, rfl⟩, rfl⟩⟩
  | some catalog =>
    match k with
    | 0 => exact ⟨rfl, rfl, .inl ⟨rfl, rfl, rfl⟩⟩
    | 1 | 2 | 3 => exact ⟨rfl, rfl, .inr ⟨.inl rfl, rfl⟩⟩
    | 4 | 5 => exact ⟨rfl, rfl, .inr ⟨.inr ⟨rfl, rfl⟩, rfl⟩⟩
    | k + 6 =>
      rw [List.take_of_length_le (by simp), List.getElem?_eq_none (by simp)]
      exact ⟨rfl, rfl, .inr ⟨.inr ⟨rfl, rfl⟩, rfl⟩⟩

/-- The steps by which `write_manifest` puts a manifest in the place of one that is whole. -/
def replaceSteps (F : EngineFormat) (durable next : Manifest) : List DiskStep :=
  [.writeBak (F.manifestCodec.encode durable), .writeTmp (F.manifestCodec.encode next), .renameTmp]

/-- Before the renaming only the backup and the staged file are others. -/
theorem crashAt_replaceSteps (disk : Disk) (durable next : Manifest) {k : ℕ} (hk : k < 3) (n : ℕ) :
    ∃ bak tmp, crashAt disk (replaceSteps F durable next) k n =
      { disk with manifestBak := bak, manifestTmp := tmp } := by
  match k with
  | 0 | 1 | 2 => exact ⟨_, _, rfl⟩

/-! ### Opening gives a handle in step -/

/-- What a directory has to satisfy so that a handle opened on it is in step with it: its files are
in order, and the log is behind the manifest or ahead of it by what `open` catches up with. -/
structure Recoverable (F : EngineFormat) (disk : Disk) (manifest : Manifest)
    (entries : List WalEntry) (whole cut : Bytes) : Prop
    extends Orderly F disk manifest entries whole cut where
  checkpoint : manifest.checkpointEpoch ≤ manifest.latestEpoch
  names : (manifest.schemas.map (·.name)).Nodup
  covers : caughtUp manifest (commitsAfterCheckpoint manifest (entries.map (·.commit))) = manifest →
    Covers manifest.schemas (loggedChanges manifest entries)
  checkpointSchemas : ∀ payload,
    readCheckpointFile F disk manifest.checkpointEpoch = .ok payload →
      manifest.schemas = [] → payload.schemas = []
  epochs : ∀ entry ∈ entries, entry.commit.epoch ≤
    (caughtUp manifest (commitsAfterCheckpoint manifest (entries.map (·.commit)))).latestEpoch

theorem Synced.caughtUp_eq {db : Db} {entries : List WalEntry} (h : Synced F db entries) :
    caughtUp db.manifest (commitsAfterCheckpoint db.manifest (entries.map (·.commit))) =
      db.manifest := by
  refine caughtUp_of_le fun commit hmem => ?_
  obtain ⟨entry, hentry, rfl⟩ := List.mem_map.1 (List.mem_filter.1 hmem).1
  exact h.epochs entry hentry

theorem Synced.recoverable {db : Db} {entries : List WalEntry} (h : Synced F db entries) :
    Recoverable F db.disk db.manifest entries db.disk.wal [] where
  toOrderly := h.orderly
  checkpoint := h.checkpoint
  names := h.names
  covers _ := h.covers
  checkpointSchemas := h.checkpointSchemas
  epochs := by
    rw [h.caughtUp_eq]
    exact h.epochs

variable (F)

/-- What the checkpoint at an epoch holds: records, receipts and jobs. -/
def checkpointContents (disk : Disk) (epoch : Epoch) :
    Result (RecordStore × List IdempotencyReceipt × JobCatalog) :=
  if 0 < epoch then do
    let checkpoint ← readCheckpointFile F disk epoch
    if checkpoint.epoch ≠ epoch then
      .error (.manifestCorruption
        s!"checkpoint epoch mismatch: manifest {epoch}, file {checkpoint.epoch}")
    else
      .ok (.fromCheckpointRecords checkpoint.records, checkpoint.idempotencyReceipts,
        checkpoint.jobCatalog)
  else .ok (.empty, [], .empty)

variable {F}

/-- Loading the checkpoint keeps the manifest. -/
theorem loadCheckpoint_eq {disk : Disk} {manifest : Manifest}
    (hcp : manifest.checkpointEpoch ≤ manifest.latestEpoch)
    (hschemas : ∀ payload, readCheckpointFile F disk manifest.checkpointEpoch = .ok payload →
      manifest.schemas = [] → payload.schemas = []) :
    loadCheckpoint F disk manifest =
      (checkpointContents F disk manifest.checkpointEpoch).map fun contents =>
        ⟨manifest, contents.1, contents.2.1, contents.2.2⟩ := by
  unfold loadCheckpoint checkpointContents
  rw [if_neg (not_lt.2 hcp)]
  by_cases hpos : 0 < manifest.checkpointEpoch
  · rw [if_pos hpos, if_pos hpos]
    cases hread : readCheckpointFile F disk manifest.checkpointEpoch with
    | error e => rfl
    | ok payload =>
      have hsame : (if manifest.schemas = [] then payload.schemas else manifest.schemas) =
          manifest.schemas := by
        split_ifs with hnil
        · exact (hschemas payload hread hnil).trans hnil.symm
        · rfl
      simp only [Except.ok_bind, hsame]
      split_ifs <;> rfl
  · rw [if_neg hpos, if_neg hpos]
    rfl

/-- The replay of commits over the contents of a checkpoint, for given schemas. -/
theorem recover_eq {disk : Disk} {manifest : Manifest}
    (hcp : manifest.checkpointEpoch ≤ manifest.latestEpoch)
    (hschemas : ∀ payload, readCheckpointFile F disk manifest.checkpointEpoch = .ok payload →
      manifest.schemas = [] → payload.schemas = []) (commits : List CommitRecord) :
    recover F disk manifest commits =
      (checkpointContents F disk manifest.checkpointEpoch >>= fun contents =>
        replayCommits F ⟨manifest, contents.1, contents.2.1, contents.2.2⟩ commits) := by
  rw [recover, loadCheckpoint_eq hcp hschemas]
  cases checkpointContents F disk manifest.checkpointEpoch with
  | error e => rfl
  | ok contents => rfl

/-- Recovery ends with the manifest it started from, with the changes of the log installed. -/
theorem Recoverable.recover_manifest {disk : Disk} {manifest : Manifest} {entries : List WalEntry}
    {whole cut : Bytes} (h : Recoverable F disk manifest entries whole cut) {recovered : Recovered}
    (hrecover : recover F disk manifest
      (commitsAfterCheckpoint manifest (entries.map (·.commit))) = .ok recovered) :
    recovered.manifest = { manifest with
      schemas := (loggedChanges manifest entries).foldl upsertSchema manifest.schemas } := by
  rw [recover_eq h.checkpoint h.checkpointSchemas, Except.bind_eq_ok_iff] at hrecover
  obtain ⟨contents, -, hreplay⟩ := hrecover
  simp only [replayCommits, Except.bind_eq_ok_iff] at hreplay
  obtain ⟨_, _, _, _, heq⟩ := hreplay
  obtain rfl := Except.ok.inj heq
  rfl

theorem caughtUp_with_schemas (manifest : Manifest) (schemas : List TableSchema)
    (commits : List CommitRecord) :
    caughtUp { manifest with schemas := schemas } commits =
      { caughtUp manifest commits with schemas := schemas } := by
  unfold caughtUp
  cases commits.getLast? with
  | none => rfl
  | some lastCommit =>
    simp only
    split_ifs <;> rfl

theorem caughtUp_spec (manifest : Manifest) (commits : List CommitRecord) :
    (caughtUp manifest commits).checkpointEpoch = manifest.checkpointEpoch ∧
      (caughtUp manifest commits).schemas = manifest.schemas ∧
      manifest.latestEpoch ≤ (caughtUp manifest commits).latestEpoch := by
  unfold caughtUp
  split
  · exact ⟨rfl, rfl, le_refl _⟩
  · split_ifs with hlt
    · exact ⟨rfl, rfl, hlt.le⟩
    · exact ⟨rfl, rfl, le_refl _⟩

/-- Recovery under two manifests with the same checkpoint, which end with the same schemas. -/
theorem recover_congr {α : Type} {f g : Recovered → α} {disk disk' : Disk}
    {manifest manifest' : Manifest} (hdir : disk.dir = disk'.dir)
    (hcheckpoints : disk.checkpoints = disk'.checkpoints)
    (hcp : manifest.checkpointEpoch ≤ manifest.latestEpoch)
    (hcp' : manifest'.checkpointEpoch ≤ manifest'.latestEpoch)
    (hepoch : manifest.checkpointEpoch = manifest'.checkpointEpoch)
    (hload : ∀ payload, readCheckpointFile F disk manifest.checkpointEpoch = .ok payload →
      manifest.schemas = [] → payload.schemas = [])
    (hload' : ∀ payload, readCheckpointFile F disk' manifest'.checkpointEpoch = .ok payload →
      manifest'.schemas = [] → payload.schemas = [])
    {commits : List CommitRecord} {schemas : List TableSchema}
    (hschemas : (commits.flatMap (·.schemaChanges)).foldl upsertSchema manifest.schemas = schemas)
    (hschemas' :
      (commits.flatMap (·.schemaChanges)).foldl upsertSchema manifest'.schemas = schemas)
    (hfg : ∀ store receipts jobs, f ⟨{ manifest with schemas := schemas }, store, receipts, jobs⟩ =
      g ⟨{ manifest' with schemas := schemas }, store, receipts, jobs⟩) :
    (recover F disk manifest commits).map f = (recover F disk' manifest' commits).map g := by
  have hcontents : checkpointContents F disk manifest.checkpointEpoch =
      checkpointContents F disk' manifest'.checkpointEpoch := by
    simp only [checkpointContents, readCheckpointFile_congr hdir hcheckpoints, hepoch]
  rw [recover_eq hcp hload, recover_eq hcp' hload', hcontents]
  cases checkpointContents F disk' manifest'.checkpointEpoch with
  | error e => rfl
  | ok contents =>
    simp only [Except.ok_bind, replayCommits, hschemas, hschemas']
    cases (commits.flatMap (·.jobEvents)).foldlM replayJobEvent contents.2.2 with
    | error e => rfl
    | ok jobCatalog =>
      simp only [Except.ok_bind]
      cases contents.1.applyCommits (sourceHash F) schemas commits with
      | error e => rfl
      | ok store => simp only [Except.ok_bind, Except.map, hfg]

/-- The manifest `open` writes when the log is ahead of the manifest. -/
def caughtUpManifest (F : EngineFormat) (manifest : Manifest) (entries : List WalEntry) :
    Manifest :=
  sealManifest F
    { caughtUp manifest (commitsAfterCheckpoint manifest (entries.map (·.commit))) with
      schemas := (loggedChanges manifest entries).foldl upsertSchema manifest.schemas }

/-- What opening a recoverable directory can do: rebuild the state, and either leave the files alone
but for a cut frame, or publish a manifest that has caught up with the log. -/
theorem Recoverable.open_cases {disk : Disk} {manifest : Manifest} {entries : List WalEntry}
    {whole cut : Bytes} (h : Recoverable F disk manifest entries whole cut) {db : Db}
    (hopen : Db.open F disk = .ok db) :
    ∃ recovered, recover F disk manifest
        (commitsAfterCheckpoint manifest (entries.map (·.commit))) = .ok recovered ∧
      db.store = recovered.store ∧ db.idempotencyReceipts = recovered.idempotencyReceipts ∧
      db.jobCatalog = recovered.jobCatalog ∧ db.walTail = tailFromScan whole.length entries ∧
      ((caughtUp manifest (commitsAfterCheckpoint manifest (entries.map (·.commit))) = manifest ∧
          db.manifest = manifest ∧ db.disk = { disk with wal := whole }) ∨
        db.manifest = caughtUpManifest F manifest entries ∧
          db.disk = { disk with
            wal := whole
            manifest := some (F.manifestCodec.encode (caughtUpManifest F manifest entries))
            manifestBak := some (F.manifestCodec.encode manifest)
            manifestTmp := none }) := by
  obtain ⟨torn, -, heq⟩ := h.open_eq
  rw [heq] at hopen
  simp only [Except.bind_eq_ok_iff] at hopen
  obtain ⟨recovered, hrecover, ⟨manifest', disk'⟩, hcatch, hdb⟩ := hopen
  obtain rfl := Except.ok.inj hdb
  refine ⟨recovered, hrecover, rfl, rfl, rfl, rfl, ?_⟩
  rw [h.recover_manifest hrecover] at hcatch
  have hdisk : ({ disk with wal := whole } : Disk).manifest =
      some (F.manifestCodec.encode manifest) := h.manifestFile
  rcases catchUpManifest_cases h.isSealed hdisk { manifest with
      schemas := (loggedChanges manifest entries).foldl upsertSchema manifest.schemas }
    (commitsAfterCheckpoint manifest (entries.map (·.commit))) with ⟨hsame, hcases⟩ | hcases
  · -- The log is not ahead: its changes are in the manifest already.
    left
    have hsame : caughtUp manifest (commitsAfterCheckpoint manifest (entries.map (·.commit))) =
        manifest := by
      rw [caughtUp_with_schemas] at hsame
      calc caughtUp manifest (commitsAfterCheckpoint manifest (entries.map (·.commit)))
          = { caughtUp manifest (commitsAfterCheckpoint manifest (entries.map (·.commit))) with
              schemas := manifest.schemas } := by rw [← (caughtUp_spec manifest _).2.1]
        _ = manifest :=
          congrArg (fun m : Manifest => { m with schemas := manifest.schemas }) hsame
    rw [(h.covers hsame).foldl_upsertSchema h.names] at hcases hcatch
    rw [hcases] at hcatch
    obtain ⟨rfl, rfl⟩ := Prod.mk.inj (Except.ok.inj hcatch)
    exact ⟨hsame, rfl, rfl⟩
  · right
    rw [hcases, caughtUp_with_schemas] at hcatch
    obtain ⟨rfl, rfl⟩ := Prod.mk.inj (Except.ok.inj hcatch)
    exact ⟨rfl, rfl⟩

/-- What opening a recoverable directory leaves alone. -/
theorem Recoverable.open_frame {disk : Disk} {manifest : Manifest} {entries : List WalEntry}
    {whole cut : Bytes} (h : Recoverable F disk manifest entries whole cut) {db : Db}
    (hopen : Db.open F disk = .ok db) :
    db.disk.dir = disk.dir ∧ db.disk.checkpoints = disk.checkpoints ∧
      db.manifest.checkpointEpoch = manifest.checkpointEpoch ∧
      db.manifest.latestEpoch =
        (caughtUp manifest (commitsAfterCheckpoint manifest (entries.map (·.commit)))).latestEpoch ∧
      ∃ recovered, recover F disk manifest
          (commitsAfterCheckpoint manifest (entries.map (·.commit))) = .ok recovered ∧
        db.store = recovered.store ∧ db.idempotencyReceipts = recovered.idempotencyReceipts ∧
        db.jobCatalog = recovered.jobCatalog := by
  obtain ⟨recovered, hrecover, hstore, hreceipts, hjobs, -, hcases⟩ := h.open_cases hopen
  rcases hcases with ⟨hsame, hmanifest, hdisk⟩ | ⟨hmanifest, hdisk⟩
  · rw [hmanifest, hdisk, hsame]
    exact ⟨rfl, rfl, rfl, rfl, recovered, hrecover, hstore, hreceipts, hjobs⟩
  · rw [hmanifest, hdisk]
    exact ⟨rfl, rfl, (caughtUp_spec manifest _).1, rfl, recovered, hrecover, hstore, hreceipts,
      hjobs⟩

/-- **A handle opened on a recoverable directory is in step with it.** -/
theorem Recoverable.synced {disk : Disk} {manifest : Manifest} {entries : List WalEntry}
    {whole cut : Bytes} (h : Recoverable F disk manifest entries whole cut) {db : Db}
    (hopen : Db.open F disk = .ok db) : Synced F db entries := by
  obtain ⟨recovered, -, -, -, -, htail, hcases⟩ := h.open_cases hopen
  have hepochs := h.epochs
  rcases hcases with ⟨hsame, hmanifest, hdisk⟩ | ⟨hmanifest, hdisk⟩
  · rw [hsame] at hepochs
    rw [← hmanifest] at hepochs
    constructor
    · exact hmanifest ▸ h.isSealed
    · rw [hdisk, hmanifest]
      exact h.manifestFile
    · rw [hdisk]
      exact h.chain
    · rw [htail, hdisk]
    · exact hepochs
    · exact hmanifest ▸ h.checkpoint
    · exact hmanifest ▸ h.names
    · exact hmanifest ▸ h.covers hsame
    · rw [hdisk, hmanifest]
      exact h.checkpointSchemas
  · obtain ⟨hcp, -, hlatest⟩ := caughtUp_spec manifest
      (commitsAfterCheckpoint manifest (entries.map (·.commit)))
    constructor
    · exact hmanifest ▸ sealed_sealManifest _
    · rw [hdisk, hmanifest]
    · rw [hdisk]
      exact h.chain
    · rw [htail, hdisk]
    · rw [hmanifest]
      exact hepochs
    · rw [hmanifest]
      exact (hcp.trans_le h.checkpoint).trans hlatest
    · rw [hmanifest]
      exact nodup_foldl_upsertSchema h.names _
    · rw [hmanifest]
      show Covers ((loggedChanges manifest entries).foldl upsertSchema manifest.schemas)
        (((entries.map (·.commit)).filter fun commit => decide ((caughtUp manifest
          (commitsAfterCheckpoint manifest (entries.map (·.commit)))).checkpointEpoch <
            commit.epoch)).flatMap _)
      rw [hcp]
      have hnil : Covers manifest.schemas [] := fun _ _ hfind => by cases hfind
      exact hnil.append
    · rw [hdisk, hmanifest]
      intro payload hread hnil
      have hread : readCheckpointFile F disk (caughtUp manifest
        (commitsAfterCheckpoint manifest (entries.map (·.commit)))).checkpointEpoch = .ok payload :=
          hread
      rw [hcp] at hread
      exact h.checkpointSchemas payload hread (eq_nil_of_foldl_upsertSchema hnil)

/-! ### Opening an empty directory -/

variable (F)

/-- An empty directory after `open` has written its first manifest. -/
def initialDisk (dir : String) : Disk :=
  { Disk.empty dir with
    manifest := some (F.manifestCodec.encode
      (sealManifest F (.empty (databaseIdFromPath F dir)))) }

variable {F}

theorem open_empty (dir : String) :
    Db.open F (Disk.empty dir) = Db.open F (initialDisk F dir) := by
  have hempty : initializeManifest F (Disk.empty dir) = .ok (initialDisk F dir) := rfl
  have hinitial : initializeManifest F (initialDisk F dir) = .ok (initialDisk F dir) := rfl
  simp only [Db.open, hempty, hinitial]

theorem recoverable_initialDisk (dir : String) :
    Recoverable F (initialDisk F dir) (sealManifest F (.empty (databaseIdFromPath F dir))) [] []
      [] where
  isSealed := sealed_sealManifest _
  manifestFile := rfl
  chain := .nil
  isCut := .inl rfl
  wal := rfl
  checkpoint := le_refl _
  names := List.nodup_nil
  covers _ := by simp [Covers, loggedChanges, commitsAfterCheckpoint]
  checkpointSchemas := by
    intro payload hread
    simp [readCheckpointFile, initialDisk, Disk.empty] at hread
  epochs := by simp

/-- The handle of a new directory. -/
def initialDb (F : EngineFormat) (dir : String) : Db where
  disk := initialDisk F dir
  manifest := sealManifest F (.empty (databaseIdFromPath F dir))
  store := .empty
  walTail := tailFromScan 0 []
  walTornTail := none
  idempotencyReceipts := []
  jobCatalog := .empty
  lastRecoveryTornTail := none

theorem open_empty_eq (dir : String) : Db.open F (Disk.empty dir) = .ok (initialDb F dir) := by
  obtain ⟨torn, hnone, hopen⟩ := (recoverable_initialDisk (F := F) dir).open_eq
  obtain rfl := hnone.2 rfl
  rw [open_empty, hopen]
  rfl

theorem synced_initialDb (dir : String) : Synced F (initialDb F dir) [] :=
  (recoverable_initialDisk dir).synced (open_empty dir ▸ open_empty_eq dir)

/-! ### Checkpoints and publications -/

variable (F)

namespace Db

variable (db : Db)

/-- The manifest `checkpoint` publishes. -/
def checkpointManifest : Manifest :=
  sealManifest F { db.manifest with
    checkpointEpoch := db.manifest.latestEpoch
    manifestGeneration := db.manifest.manifestGeneration + 1 }.linkParent

/-- What `checkpoint` writes to its file. -/
def checkpointPayload : CheckpointPayload where
  formatVersion := checkpointFormatVersion
  epoch := db.manifest.latestEpoch
  schemas := db.manifest.schemas
  records := db.store.checkpointRecords db.manifest.latestEpoch
  idempotencyReceipts := db.idempotencyReceipts
  jobCatalog := db.jobCatalog

/-- The directory between the publication of a checkpoint and the truncation of the log. -/
def checkpointDisk : Disk :=
  { db.disk with
    checkpoints := db.disk.checkpoints.insert db.manifest.latestEpoch
      (checkpointBody F db.checkpointPayload)
    manifest := some (F.manifestCodec.encode (db.checkpointManifest F))
    manifestBak := some (F.manifestCodec.encode db.manifest)
    manifestTmp := none }

/-- The directory after a crash inside a checkpoint whose file is in place: the writing of its
manifest is cut. -/
def checkpointCrashDisk (k n : ℕ) : Disk :=
  crashAt { db.disk with
      checkpoints := db.disk.checkpoints.insert db.manifest.latestEpoch
        (checkpointBody F db.checkpointPayload) }
    (replaceSteps F db.manifest (db.checkpointManifest F)) k n

/-- The handle after a checkpoint. -/
def checkpointed : Db :=
  { db with
    disk := { db.checkpointDisk F with wal := [] }
    manifest := db.checkpointManifest F
    walTail := tailFromScan 0 []
    walTornTail := none }

end Db

/-- Two manifests with the same epochs, schemas and identity. -/
structure Manifest.SameEpochs (manifest manifest' : Manifest) : Prop where
  checkpointEpoch : manifest.checkpointEpoch = manifest'.checkpointEpoch
  latestEpoch : manifest.latestEpoch = manifest'.latestEpoch
  schemas : manifest.schemas = manifest'.schemas
  databaseId : manifest.databaseId = manifest'.databaseId
  branchId : manifest.branchId = manifest'.branchId

/-- What the publication of a segment does to a handle: nothing, when the segment is there already,
or it stores the segment and publishes a manifest with the same epochs. -/
def Published (db db' : Db) : Prop :=
  db' = db ∨ ∃ segments manifest, Manifest.SameEpochs manifest db.manifest ∧
    db' = { db with
      manifest := sealManifest F manifest
      disk := { db.disk with
        segments := segments
        manifest := some (F.manifestCodec.encode (sealManifest F manifest))
        manifestBak := some (F.manifestCodec.encode db.manifest)
        manifestTmp := none } }

variable {F}

/-- A checkpoint needs the manifest of its handle in the directory, and looks at nothing else. -/
theorem Db.publishCheckpoint_of_sealed {db : Db} (hsealed : Sealed F db.manifest)
    (hmanifest : db.disk.manifest = some (F.manifestCodec.encode db.manifest)) :
    db.publishCheckpoint F =
      (.ok (db.manifest.latestEpoch, db.checkpointManifest F), db.checkpointDisk F) := by
  have hdisk : (writeCheckpointFile F db.disk db.manifest.latestEpoch db.manifest.schemas
      (db.store.checkpointRecords db.manifest.latestEpoch) db.idempotencyReceipts
      db.jobCatalog).manifest = some (F.manifestCodec.encode db.manifest) := hmanifest
  simp only [Db.publishCheckpoint, readManifest_of_manifest hsealed hdisk,
    ne_eq, not_true_eq_false, if_false, writeManifest_of_manifest hsealed hdisk]
  rfl

theorem Db.checkpoint_of_sealed {db : Db} (hsealed : Sealed F db.manifest)
    (hmanifest : db.disk.manifest = some (F.manifestCodec.encode db.manifest)) :
    db.checkpoint F = (.ok db.manifest.latestEpoch, db.checkpointed F) := by
  have hopen : Log.open F.toWalFormat (some []) = .ok ⟨tailFromScan 0 [], none, []⟩ := open_none
  simp only [Db.checkpoint, Db.publishCheckpoint_of_sealed hsealed hmanifest, hopen]
  rfl

/-- The directory of a handle whose checkpoint is not read does not open. -/
theorem Db.open_unread {db : Db} (hpos : 0 < db.manifest.latestEpoch)
    (hnames : (db.manifest.schemas.map (·.name)).Nodup)
    (hunread : ∃ e, readCheckpointFile F (db.checkpointDisk F) db.manifest.latestEpoch = .error e) :
    ∃ e, Db.open F (db.checkpointed F).disk = .error e := by
  obtain ⟨e, hunread⟩ := hunread
  have hread : readCheckpointFile F (db.checkpointed F).disk
      (db.checkpointManifest F).checkpointEpoch = .error e := hunread
  have hrec : Recoverable F (db.checkpointed F).disk (db.checkpointManifest F) [] [] [] := by
    refine ⟨⟨sealed_sealManifest _, rfl, .nil, .inl rfl, rfl⟩, le_refl _, hnames, ?_, ?_, by simp⟩
    · simp [Covers, loggedChanges, commitsAfterCheckpoint]
    · intro payload hread'
      cases hread.symm.trans hread'
  obtain ⟨torn, -, hopen⟩ := hrec.open_eq
  have hcontents : checkpointContents F (db.checkpointed F).disk
      (db.checkpointManifest F).checkpointEpoch = .error e := by
    rw [checkpointContents, hread]
    exact if_pos hpos
  have hrecover : ∀ commits, recover F (db.checkpointed F).disk (db.checkpointManifest F) commits =
      .error e := by
    intro commits
    rw [recover_eq hrec.checkpoint hrec.checkpointSchemas, hcontents]
    rfl
  refine ⟨e, ?_⟩
  rw [hopen]
  simp only [hrecover]
  rfl

namespace Synced

variable {db : Db} {entries : List WalEntry}

theorem publishCheckpoint_eq (h : Synced F db entries) : db.publishCheckpoint F =
    (.ok (db.manifest.latestEpoch, db.checkpointManifest F), db.checkpointDisk F) :=
  Db.publishCheckpoint_of_sealed h.isSealed h.manifestFile

theorem checkpoint_eq (h : Synced F db entries) :
    db.checkpoint F = (.ok db.manifest.latestEpoch, db.checkpointed F) :=
  Db.checkpoint_of_sealed h.isSealed h.manifestFile

theorem readCheckpointFile_checkpointDisk
    (hback : F.checkpointCodec.ReadsBack db.checkpointPayload) :
    readCheckpointFile F (db.checkpointDisk F) db.manifest.latestEpoch =
      .ok db.checkpointPayload := by
  refine readCheckpointFile_of_body rfl hback ?_
  simp [Db.checkpointDisk]

/-- The directory in the window before the log is truncated is recoverable: its log holds only
commits that the checkpoint covers. -/
theorem recoverable_checkpointDisk_of (h : Synced F db entries)
    (hback : F.checkpointCodec.ReadsBack db.checkpointPayload) :
    Recoverable F (db.checkpointDisk F) (db.checkpointManifest F) entries db.disk.wal [] := by
  have hcovered : commitsAfterCheckpoint (db.checkpointManifest F)
      (entries.map (·.commit)) = [] := by
    refine List.filter_eq_nil_iff.2 fun commit hmem => ?_
    obtain ⟨entry, hentry, rfl⟩ := List.mem_map.1 hmem
    have hle := h.epochs entry hentry
    exact fun hlt => absurd (of_decide_eq_true hlt) (not_lt.2 hle)
  refine ⟨⟨sealed_sealManifest _, rfl, h.chain, .inl rfl, (List.append_nil _).symm⟩, le_refl _,
    h.names, ?_, ?_, ?_⟩
  · simp [Covers, loggedChanges, hcovered]
  · intro payload hread hnil
    have hpayload := (readCheckpointFile_checkpointDisk hback).symm.trans hread
    obtain rfl := Except.ok.inj hpayload
    exact hnil
  · rw [hcovered]
    exact h.epochs

theorem recoverable_checkpointDisk [F.Lossless] (h : Synced F db entries) :
    Recoverable F (db.checkpointDisk F) (db.checkpointManifest F) entries db.disk.wal [] :=
  h.recoverable_checkpointDisk_of (EngineFormat.Lossless.checkpoint _)

theorem checkpointed_of (h : Synced F db entries)
    (hback : F.checkpointCodec.ReadsBack db.checkpointPayload) :
    Synced F (db.checkpointed F) [] := by
  refine ⟨sealed_sealManifest _, rfl, .nil, rfl, by simp, le_refl _, h.names, ?_, ?_⟩
  · simp [Covers, loggedChanges, commitsAfterCheckpoint]
  · intro payload hread hnil
    have hpayload := (readCheckpointFile_checkpointDisk hback).symm.trans hread
    obtain rfl := Except.ok.inj hpayload
    exact hnil

theorem checkpointed [F.Lossless] (h : Synced F db entries) : Synced F (db.checkpointed F) [] :=
  h.checkpointed_of (EngineFormat.Lossless.checkpoint _)

/-- The file of a checkpoint that no manifest names yet, another backup and another staged manifest
change nothing. -/
theorem withCheckpointFile [F.Lossless] (h : Synced F db entries) (bak tmp : Option Bytes) :
    Synced F { db with disk := { db.disk with
      checkpoints := db.disk.checkpoints.insert db.manifest.latestEpoch
        (checkpointBody F db.checkpointPayload)
      manifestBak := bak
      manifestTmp := tmp } } entries := by
  refine ⟨h.isSealed, h.manifestFile, h.chain, h.tail, h.epochs, h.checkpoint,
    h.names, h.covers, ?_⟩
  intro payload hread hnil
  by_cases hcp : db.manifest.checkpointEpoch = db.manifest.latestEpoch
  · -- The file takes the place of that of the checkpoint before, at the same epoch.
    have hback : F.checkpointCodec.ReadsBack db.checkpointPayload :=
      EngineFormat.Lossless.checkpoint _
    rw [hcp] at hread
    obtain rfl := Except.ok.inj (hread.symm.trans
      (readCheckpointFile_of_body (by rfl) hback Std.ExtTreeMap.getElem?_insert_self))
    exact hnil
  · refine h.checkpointSchemas payload (Eq.trans ?_ hread) hnil
    have hne : ¬ compare db.manifest.latestEpoch db.manifest.checkpointEpoch = .eq :=
      fun heq => hcp (compare_eq_iff_eq.1 heq).symm
    simp only [readCheckpointFile, Std.ExtTreeMap.getElem?_insert, if_neg hne]

/-- What a crash inside a checkpoint leaves. -/
theorem recoverable_checkpointCrash [F.Lossless] (h : Synced F db entries) (k n : ℕ) :
    (db.checkpointCrashDisk F k n).segments = db.disk.segments ∧
      ∃ manifest, (manifest = db.manifest ∨ manifest = db.checkpointManifest F) ∧
        Recoverable F (db.checkpointCrashDisk F k n) manifest entries db.disk.wal [] := by
  by_cases hk : k < 3
  · obtain ⟨bak, tmp, hcrash⟩ := crashAt_replaceSteps (F := F) { db.disk with
        checkpoints := db.disk.checkpoints.insert db.manifest.latestEpoch
          (checkpointBody F db.checkpointPayload) } db.manifest (db.checkpointManifest F) hk n
    rw [Db.checkpointCrashDisk, hcrash]
    exact ⟨rfl, db.manifest, .inl rfl, (h.withCheckpointFile bak tmp).recoverable⟩
  · have hdone : db.checkpointCrashDisk F k n = db.checkpointDisk F := by
      have hlength : (replaceSteps F db.manifest (db.checkpointManifest F)).length ≤ k :=
        not_lt.1 hk
      rw [Db.checkpointCrashDisk, crashAt, List.take_of_length_le hlength,
        List.getElem?_eq_none hlength]
      rfl
    rw [hdone]
    exact ⟨rfl, _, .inr rfl, h.recoverable_checkpointDisk⟩

theorem publishSegmentRecords_disk {disk disk' : Disk} {segmentId : String} {generation : ℕ}
    {records : List SegmentRecord} {object : SegmentObject}
    (h : publishSegmentRecords disk segmentId generation records = .ok (object, disk')) :
    disk' = { disk with segments := disk'.segments } := by
  unfold publishSegmentRecords at h
  split at h
  · obtain ⟨-, rfl⟩ := Prod.mk.inj (Except.ok.inj h)
    rfl
  · obtain ⟨-, h⟩ := Except.guard_eq_ok_iff.1 h
    obtain ⟨-, rfl⟩ := Prod.mk.inj (Except.ok.inj h)
    rfl

theorem published_of_write (h : Synced F db entries) {segmentId : String} {generation : ℕ}
    {records : List SegmentRecord} {object : SegmentObject} {disk : Disk}
    (hobject : publishSegmentRecords db.disk segmentId generation records = .ok (object, disk))
    {manifest : Manifest} {published : Manifest × Disk}
    (hwrite : writeManifest F disk manifest = .ok published)
    (hepochs : manifest.SameEpochs db.manifest) :
    Published F db { db with manifest := published.1, disk := published.2 } := by
  have hfile : ({ db.disk with segments := disk.segments } : Disk).manifest =
      some (F.manifestCodec.encode db.manifest) := h.manifestFile
  rw [publishSegmentRecords_disk hobject, writeManifest_of_manifest h.isSealed hfile] at hwrite
  obtain rfl := Except.ok.inj hwrite
  exact .inr ⟨disk.segments, manifest, hepochs, rfl⟩

/-- What publishing a segment does to the handle. -/
theorem publishSegment_cases (h : Synced F db entries) {segmentId : String} {generation : ℕ}
    {db' : Db} (hpublish : db.publishSegmentWithParentGeneration F segmentId generation = .ok db') :
    Published F db db' := by
  rw [Db.publishSegmentWithParentGeneration, readManifest_of_manifest h.isSealed h.manifestFile,
    Except.ok_bind, Except.guard_eq_ok_iff] at hpublish
  replace hpublish := hpublish.2
  split at hpublish
  · simp only [Except.guard_eq_ok_iff, Except.bind_eq_ok_iff] at hpublish
    obtain ⟨-, _, -, -, heq⟩ := hpublish
    obtain rfl := Except.ok.inj heq
    exact .inl rfl
  · simp only [Except.bind_eq_ok_iff] at hpublish
    obtain ⟨⟨object, disk⟩, hobject, published, hwrite, heq⟩ := hpublish
    obtain rfl := Except.ok.inj heq
    exact h.published_of_write hobject hwrite ⟨rfl, rfl, rfl, rfl, rfl⟩

theorem publishCompactedSegment_cases (h : Synced F db entries) {segmentId : String}
    {generation : ℕ} {db' : Db}
    (hpublish : db.publishCompactedSegment F segmentId generation = .ok db') :
    Published F db db' := by
  simp only [Db.publishCompactedSegment, readManifest_of_manifest h.isSealed h.manifestFile,
    Except.ok_bind, Except.guard_eq_ok_iff, Except.bind_eq_ok_iff] at hpublish
  obtain ⟨-, -, ⟨object, disk⟩, hobject, published, hwrite, heq⟩ := hpublish
  obtain rfl := Except.ok.inj heq
  exact h.published_of_write hobject hwrite ⟨rfl, rfl, rfl, rfl, rfl⟩

/-- A publication keeps the handle in step. -/
theorem published (h : Synced F db entries) {db' : Db} (hpublished : Published F db db') :
    Synced F db' entries := by
  rcases hpublished with rfl | ⟨segments, manifest, hsame, rfl⟩
  · exact h
  obtain ⟨hcp, hlatest, hschemas, -, -⟩ := hsame
  refine ⟨sealed_sealManifest _, rfl, h.chain, h.tail, ?_, ?_, ?_, ?_, ?_⟩
  · exact fun entry hentry => (h.epochs entry hentry).trans_eq hlatest.symm
  · exact (hcp.trans_le h.checkpoint).trans_eq hlatest.symm
  · exact hschemas ▸ h.names
  · show Covers manifest.schemas (((entries.map (·.commit)).filter
      fun commit => decide (manifest.checkpointEpoch < commit.epoch)).flatMap _)
    rw [hschemas, hcp]
    exact h.covers
  · intro payload hread hnil
    have hread : readCheckpointFile F db.disk manifest.checkpointEpoch = .ok payload := hread
    rw [hcp] at hread
    exact h.checkpointSchemas payload hread (hschemas.symm.trans hnil)

end Synced

/-! ### Crashes inside a write -/

namespace Recoverable

/-- Only the manifest, the log and the checkpoints of a directory matter. -/
theorem congr {disk disk' : Disk} {manifest : Manifest} {entries : List WalEntry}
    {whole cut cut' : Bytes} (h : Recoverable F disk manifest entries whole cut)
    (hfile : disk'.manifest = disk.manifest) (hdir : disk'.dir = disk.dir)
    (hcheckpoints : disk'.checkpoints = disk.checkpoints) (hwal : disk'.wal = whole ++ cut')
    (hcut : IsCut F.toWalFormat entries cut') :
    Recoverable F disk' manifest entries whole cut' where
  isSealed := h.isSealed
  manifestFile := hfile.trans h.manifestFile
  chain := h.chain
  isCut := hcut
  wal := hwal
  checkpoint := h.checkpoint
  names := h.names
  covers := h.covers
  checkpointSchemas := by
    intro payload hread
    exact h.checkpointSchemas payload
      ((readCheckpointFile_congr hdir hcheckpoints _).symm.trans hread)
  epochs := h.epochs

end Recoverable

namespace Synced

variable {db : Db} {entries : List WalEntry} {op : Op} {plan : PlannedWrite}

/-- The manifest after a commit that is in the log but not in the manifest yet. -/
theorem caughtUp_next (h : Synced F db entries) (hplan : db.plan F op = .ok (some plan)) :
    caughtUp db.manifest (commitsAfterCheckpoint db.manifest
        ((entries ++ [nextEntry F.toWalFormat entries plan.commit]).map (·.commit))) =
      db.manifest.advance plan.commit.epoch := by
  have hepoch := (stamped_plan hplan).epoch
  have hafter : db.manifest.latestEpoch < plan.commit.epoch := by
    rw [hepoch]
    exact Nat.lt_succ_self _
  rw [commitsAfterCheckpoint_snoc (h.checkpoint.trans_lt hafter), caughtUp, List.getLast?_concat]
  exact if_pos hafter

/-- The frame is whole, and the manifest still the old one. -/
theorem recoverable_logged (h : Synced F db entries) (hplan : db.plan F op = .ok (some plan))
    (hfit : Fits F.toWalFormat entries plan.commit)
    (hback : ReadBack F.toWalFormat entries plan.commit) :
    Recoverable F
      { db.disk with wal := db.disk.wal ++ nextFrame F.toWalFormat entries plan.commit }
      db.manifest (entries ++ [nextEntry F.toWalFormat entries plan.commit])
      (db.disk.wal ++ nextFrame F.toWalFormat entries plan.commit) [] := by
  have hstamp := stamped_plan hplan
  have hcaught := h.caughtUp_next hplan
  have hafter : db.manifest.latestEpoch < plan.commit.epoch := by
    rw [hstamp.epoch]
    exact Nat.lt_succ_self _
  refine ⟨⟨h.isSealed, h.manifestFile, h.chain.snoc (isFrame_nextFrame hstamp.engine hfit hback),
    .inl rfl, (List.append_nil _).symm⟩, h.checkpoint, h.names, ?_, h.checkpointSchemas, ?_⟩
  · intro hsame
    rw [hcaught] at hsame
    exact absurd (congrArg Manifest.latestEpoch hsame) hafter.ne'
  · rw [hcaught]
    intro entry hentry
    rcases List.mem_append.1 hentry with hold | hnew
    · exact (h.epochs entry hold).trans hafter.le
    · obtain rfl := List.mem_singleton.1 hnew
      exact le_refl _

/-- What a crash inside a write leaves: a cut frame and the old manifest, or the whole frame with
the old or the new manifest. -/
theorem crash_cases_of (h : Synced F db entries) (hplan : db.plan F op = .ok (some plan))
    (hfit : Fits F.toWalFormat entries plan.commit)
    (hback : ReadBack F.toWalFormat entries plan.commit) (k n : ℕ) :
    let disk := crashAt db.disk (db.writeSteps F plan) k n
    let frame := nextFrame F.toWalFormat entries plan.commit
    (∃ cut, disk.wal = db.disk.wal ++ cut ∧ cut ≠ frame ∧
      disk.manifestBak = db.disk.manifestBak ∧
      Recoverable F disk db.manifest entries db.disk.wal cut) ∨
    (disk.wal = db.disk.wal ++ frame ∧
      ∃ manifest, (manifest = db.manifest ∨ manifest = db.nextManifest F plan ∧
          disk.manifestBak = some (F.manifestCodec.encode db.manifest)) ∧
        Recoverable F disk manifest (entries ++ [nextEntry F.toWalFormat entries plan.commit])
          (db.disk.wal ++ frame) []) := by
  intro disk frame
  have hstamp := stamped_plan hplan
  have hframe := isFrame_nextFrame hstamp.engine hfit hback
  obtain ⟨hdir, hcheckpoints, hcases⟩ := h.crashAt_cases plan k n
  have hlogged : disk.manifest = db.disk.manifest → disk.wal = db.disk.wal ++ frame →
      Recoverable F disk db.manifest (entries ++ [nextEntry F.toWalFormat entries plan.commit])
        (db.disk.wal ++ frame) [] := by
    intro hfile hwal
    exact (h.recoverable_logged hplan hfit hback).congr hfile hdir hcheckpoints
      (hwal.trans (List.append_nil _).symm) (.inl rfl)
  rcases hcases with ⟨hfile, hbak, hwal⟩ | ⟨hfile | ⟨hfile, hbak⟩, hwal⟩
  · by_cases hwhole : frame.take n = frame
    · have hwal : disk.wal = db.disk.wal ++ frame := by rw [← hwhole]; exact hwal
      exact .inr ⟨hwal, db.manifest, .inl rfl, hlogged hfile hwal⟩
    · have hcut := (hframe.isCut_or_eq (List.take_prefix n frame)).resolve_right hwhole
      exact .inl ⟨_, hwal, hwhole, hbak, h.recoverable.congr hfile hdir hcheckpoints hwal hcut⟩
  · exact .inr ⟨hwal, db.manifest, .inl rfl, hlogged hfile hwal⟩
  · have hnext := (h.committed hstamp.engine hstamp.epoch hfit hback).recoverable
    exact .inr ⟨hwal, db.nextManifest F plan, .inr ⟨rfl, hbak⟩, hnext.congr hfile hdir hcheckpoints
      (hwal.trans (List.append_nil _).symm) (.inl rfl)⟩

theorem crash_cases [F.Lossless] (h : Synced F db entries) (hplan : db.plan F op = .ok (some plan))
    (hfit : Fits F.toWalFormat entries plan.commit) (k n : ℕ) :
    let disk := crashAt db.disk (db.writeSteps F plan) k n
    let frame := nextFrame F.toWalFormat entries plan.commit
    (∃ cut, disk.wal = db.disk.wal ++ cut ∧ cut ≠ frame ∧
      disk.manifestBak = db.disk.manifestBak ∧
      Recoverable F disk db.manifest entries db.disk.wal cut) ∨
    (disk.wal = db.disk.wal ++ frame ∧
      ∃ manifest, (manifest = db.manifest ∨ manifest = db.nextManifest F plan ∧
          disk.manifestBak = some (F.manifestCodec.encode db.manifest)) ∧
        Recoverable F disk manifest (entries ++ [nextEntry F.toWalFormat entries plan.commit])
          (db.disk.wal ++ frame) []) :=
  h.crash_cases_of hplan hfit (readBack entries plan.commit) k n

end Synced

/-! ### Reachable handles -/

/-- The handles of any run from an empty directory: operations, checkpoints, publications and
compactions, reopening, and crashes inside a write or inside a checkpoint, before the log is
truncated, with the reopening after them. -/
inductive Reachable (F : EngineFormat) (dir : String) : Db → Prop
  | opened {db : Db} : Db.open F (Disk.empty dir) = .ok db → Reachable F dir db
  | run {db : Db} (op : Op) : Reachable F dir db → Reachable F dir (db.run F op).2
  | checkpoint {db db' : Db} {epoch : Epoch} : Reachable F dir db →
      db.checkpoint F = (.ok epoch, db') → Reachable F dir db'
  | publish {db db' : Db} (segmentId : String) (generation : ℕ) : Reachable F dir db →
      db.publishSegmentWithParentGeneration F segmentId generation = .ok db' → Reachable F dir db'
  | compact {db db' : Db} : Reachable F dir db → db.compact F = .ok db' → Reachable F dir db'
  | reopen {db db' : Db} : Reachable F dir db → Db.open F db.disk = .ok db' → Reachable F dir db'
  | crash {db done db' : Db} {op : Op} {plan : PlannedWrite} {reply : Reply} (k n : ℕ) :
      Reachable F dir db → db.plan F op = .ok (some plan) → db.run F op = (.ok reply, done) →
      Db.open F (crashAt db.disk (db.writeSteps F plan) k n) = .ok db' → Reachable F dir db'
  | checkpointCrash {db db' : Db} {epoch : Epoch} {manifest : Manifest} {disk : Disk} :
      Reachable F dir db → db.publishCheckpoint F = (.ok (epoch, manifest), disk) →
      Db.open F disk = .ok db' → Reachable F dir db'

/-- The handles of the runs along which every commit and every checkpoint is read back as it was
written. -/
inductive LegibleRun (F : EngineFormat) (dir : String) : Db → Prop
  | opened {db : Db} : Db.open F (Disk.empty dir) = .ok db → LegibleRun F dir db
  | run {db : Db} {op : Op} : LegibleRun F dir db → db.Legible F op →
      LegibleRun F dir (db.run F op).2
  | checkpoint {db db' : Db} {epoch : Epoch} : LegibleRun F dir db →
      F.checkpointCodec.ReadsBack db.checkpointPayload → db.checkpoint F = (.ok epoch, db') →
      LegibleRun F dir db'
  | publish {db db' : Db} (segmentId : String) (generation : ℕ) : LegibleRun F dir db →
      db.publishSegmentWithParentGeneration F segmentId generation = .ok db' → LegibleRun F dir db'
  | compact {db db' : Db} : LegibleRun F dir db → db.compact F = .ok db' → LegibleRun F dir db'
  | reopen {db db' : Db} : LegibleRun F dir db → Db.open F db.disk = .ok db' → LegibleRun F dir db'
  | crash {db done db' : Db} {op : Op} {plan : PlannedWrite} {reply : Reply} (k n : ℕ) :
      LegibleRun F dir db → db.Legible F op → db.plan F op = .ok (some plan) →
      db.run F op = (.ok reply, done) →
      Db.open F (crashAt db.disk (db.writeSteps F plan) k n) = .ok db' →
      LegibleRun F dir db'
  | checkpointCrash {db db' : Db} {epoch : Epoch} {manifest : Manifest} {disk : Disk} :
      LegibleRun F dir db → F.checkpointCodec.ReadsBack db.checkpointPayload →
      db.publishCheckpoint F = (.ok (epoch, manifest), disk) → Db.open F disk = .ok db' →
      LegibleRun F dir db'

/-- A legible run is a run. -/
theorem LegibleRun.reachable {dir : String} {db : Db} (h : LegibleRun F dir db) :
    Reachable F dir db := by
  induction h with
  | opened hopen => exact .opened hopen
  | run _ _ ih => exact .run _ ih
  | checkpoint _ _ hcheckpoint ih => exact .checkpoint ih hcheckpoint
  | publish segmentId generation _ hpublish ih => exact .publish segmentId generation ih hpublish
  | compact _ hcompact ih => exact .compact ih hcompact
  | reopen _ hopen ih => exact .reopen ih hopen
  | crash k n _ _ hplan hrun hopen ih => exact .crash k n ih hplan hrun hopen
  | checkpointCrash _ _ hpublish hopen ih => exact .checkpointCrash ih hpublish hopen

/-- When everything is read back, so is what a run writes. -/
theorem Reachable.legibleRun [F.Lossless] {dir : String} {db : Db} (h : Reachable F dir db) :
    LegibleRun F dir db := by
  induction h with
  | opened hopen => exact .opened hopen
  | run op _ ih => exact .run ih (Db.legible _ op)
  | checkpoint _ hcheckpoint ih =>
    exact .checkpoint ih (EngineFormat.Lossless.checkpoint _) hcheckpoint
  | publish segmentId generation _ hpublish ih => exact .publish segmentId generation ih hpublish
  | compact _ hcompact ih => exact .compact ih hcompact
  | reopen _ hopen ih => exact .reopen ih hopen
  | crash k n _ hplan hrun hopen ih => exact .crash k n ih (Db.legible _ _) hplan hrun hopen
  | checkpointCrash _ hpublish hopen ih =>
    exact .checkpointCrash ih (EngineFormat.Lossless.checkpoint _) hpublish hopen

theorem Reachable.runAll {dir : String} {db : Db} (h : Reachable F dir db) (ops : List Op) :
    Reachable F dir (db.runAll F ops) := by
  induction ops generalizing db with
  | nil => exact h
  | cons op ops ih => exact ih (h.run op)

theorem Reachable.of_run {dir : String} {db db' : Db} (h : Reachable F dir db)
    {op : Op} {result : Result Reply} (hrun : db.run F op = (result, db')) :
      Reachable F dir db' := by
  have hreach := h.run op
  rw [hrun] at hreach
  exact hreach

theorem Synced.fits_of_run {db db' : Db} {entries : List WalEntry} (h : Synced F db entries)
    {op : Op} {plan : PlannedWrite} {reply : Reply} (hplan : db.plan F op = .ok (some plan))
    (hrun : db.run F op = (.ok reply, db')) :
    Fits F.toWalFormat entries plan.commit ∧ db' = db.committed F entries plan := by
  rw [h.run_eq, hplan, Db.outcome] at hrun
  split_ifs at hrun with hfit
  · exact ⟨hfit, (Prod.mk.inj hrun).2.symm⟩
  · cases (Prod.mk.inj hrun).1

/-- **Every handle of a legible run is in step with its directory.** -/
theorem LegibleRun.synced {dir : String} {db : Db} (h : LegibleRun F dir db) :
    ∃ entries, Synced F db entries := by
  induction h with
  | opened hopen =>
    rw [open_empty_eq] at hopen
    exact ⟨[], Except.ok.inj hopen ▸ synced_initialDb dir⟩
  | run _ hlegible ih =>
    obtain ⟨entries, hsync⟩ := ih
    rcases hsync.run_cases_of hlegible with heq | ⟨plan, -, -, heq, hsync'⟩
    · exact ⟨entries, by rw [heq]; exact hsync⟩
    · exact ⟨_, by rw [heq]; exact hsync'⟩
  | checkpoint _ hback hcheckpoint ih =>
    obtain ⟨entries, hsync⟩ := ih
    rw [hsync.checkpoint_eq] at hcheckpoint
    obtain ⟨-, rfl⟩ := Prod.mk.inj hcheckpoint
    exact ⟨[], hsync.checkpointed_of hback⟩
  | publish segmentId generation _ hpublish ih =>
    obtain ⟨entries, hsync⟩ := ih
    exact ⟨entries, hsync.published (hsync.publishSegment_cases hpublish)⟩
  | compact _ hcompact ih =>
    obtain ⟨entries, hsync⟩ := ih
    exact ⟨entries, hsync.published (hsync.publishCompactedSegment_cases hcompact)⟩
  | reopen _ hopen ih =>
    obtain ⟨entries, hsync⟩ := ih
    exact ⟨entries, hsync.recoverable.synced hopen⟩
  | crash k n _ hlegible hplan hrun hopen ih =>
    obtain ⟨entries, hsync⟩ := ih
    obtain ⟨hfit, -⟩ := hsync.fits_of_run hplan hrun
    rcases hsync.crash_cases_of hplan hfit (hsync.readBack_plan hlegible hplan) k n with
      ⟨cut, -, -, -, hrec⟩ | ⟨-, manifest, -, hrec⟩
    · exact ⟨_, hrec.synced hopen⟩
    · exact ⟨_, hrec.synced hopen⟩
  | checkpointCrash _ hback hpublish hopen ih =>
    obtain ⟨entries, hsync⟩ := ih
    rw [hsync.publishCheckpoint_eq] at hpublish
    obtain ⟨-, rfl⟩ := Prod.mk.inj hpublish
    exact ⟨entries, (hsync.recoverable_checkpointDisk_of hback).synced hopen⟩

/-- **Every reachable handle is in step with its directory.** -/
theorem Reachable.synced [F.Lossless] {dir : String} {db : Db} (h : Reachable F dir db) :
    ∃ entries, Synced F db entries :=
  h.legibleRun.synced

/-- Opening a directory again leaves its files as they are. -/
theorem Synced.open_disk {db db' : Db} {entries : List WalEntry} (h : Synced F db entries)
    (hopen : Db.open F db.disk = .ok db') : db'.disk = db.disk := by
  have hrec := h.recoverable
  obtain ⟨torn, -, heq⟩ := hrec.open_eq
  rw [heq] at hopen
  simp only [Except.bind_eq_ok_iff] at hopen
  obtain ⟨recovered, hrecover, ⟨manifest', disk'⟩, hcatch, hdb⟩ := hopen
  obtain rfl := Except.ok.inj hdb
  have hbehind : ∀ commit ∈ commitsAfterCheckpoint db.manifest (entries.map (·.commit)),
      commit.epoch ≤ recovered.manifest.latestEpoch := by
    intro commit hmem
    rw [hrec.recover_manifest hrecover]
    obtain ⟨entry, hentry, rfl⟩ := List.mem_map.1 (List.mem_filter.1 hmem).1
    exact h.epochs entry hentry
  rw [catchUpManifest_of_le hbehind] at hcatch
  obtain ⟨-, rfl⟩ := Prod.mk.inj (Except.ok.inj hcatch)
  rfl

/-- A run stays in its directory. -/
theorem Reachable.disk_dir [F.Lossless] {dir : String} {db : Db} (h : Reachable F dir db) :
    db.disk.dir = dir := by
  induction h with
  | opened hopen =>
    rw [open_empty_eq] at hopen
    obtain rfl := Except.ok.inj hopen
    rfl
  | @run db op hreach ih =>
    obtain ⟨entries, hsync⟩ := hreach.synced
    rcases hsync.run_cases op with heq | ⟨plan, -, -, heq, -⟩
    · rw [heq]
      exact ih
    · rw [heq]
      exact ih
  | checkpoint hreach hcheckpoint ih =>
    obtain ⟨entries, hsync⟩ := hreach.synced
    rw [hsync.checkpoint_eq] at hcheckpoint
    obtain ⟨-, rfl⟩ := Prod.mk.inj hcheckpoint
    exact ih
  | publish segmentId generation hreach hpublish ih =>
    obtain ⟨entries, hsync⟩ := hreach.synced
    rcases hsync.publishSegment_cases hpublish with rfl | ⟨_, _, -, rfl⟩ <;> exact ih
  | compact hreach hcompact ih =>
    obtain ⟨entries, hsync⟩ := hreach.synced
    rcases hsync.publishCompactedSegment_cases hcompact with rfl | ⟨_, _, -, rfl⟩ <;> exact ih
  | reopen hreach hopen ih =>
    obtain ⟨entries, hsync⟩ := hreach.synced
    exact (hsync.recoverable.open_frame hopen).1.trans ih
  | @crash db done db' op plan reply k n hreach hplan hrun hopen ih =>
    obtain ⟨entries, hsync⟩ := hreach.synced
    obtain ⟨hfit, -⟩ := hsync.fits_of_run hplan hrun
    have hdir := (hsync.crashAt_cases plan k n).1.trans ih
    rcases hsync.crash_cases hplan hfit k n with ⟨cut, -, -, -, hrec⟩ | ⟨-, manifest, -, hrec⟩
    · exact (hrec.open_frame hopen).1.trans hdir
    · exact (hrec.open_frame hopen).1.trans hdir
  | checkpointCrash hreach hpublish hopen ih =>
    obtain ⟨entries, hsync⟩ := hreach.synced
    rw [hsync.publishCheckpoint_eq] at hpublish
    obtain ⟨-, rfl⟩ := Prod.mk.inj hpublish
    exact (hsync.recoverable_checkpointDisk.open_frame hopen).1.trans ih

end TraceDB
