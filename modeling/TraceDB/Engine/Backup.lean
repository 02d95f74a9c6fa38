import TraceDB.Engine.Checkpoint

/-!
# Falling back to the manifest backup

`manifest.tdb.bak` holds the manifest before the last one.  When the primary is missing or cannot be
parsed, `open` reads the backup and catches up with the log.  That recovers everything as long as
the log still holds the commits that the checkpoint of the backup does not cover.

* `Follows` : the log leads from the backup to the manifest of the handle.
* `Reachable.backedUp` : in every reachable handle it does, if the backup names the same checkpoint.
* `fallback_shows_all` : then the fallback shows what the intact directory shows.
* `fallback_after_checkpoint` : right after a checkpoint it shows the checkpoint before that one,
  and what was committed since is lost (`fallback_loses_receipt`).
-/

namespace TraceDB

variable {F : EngineFormat}

/-! ### The view of an opened directory -/

/-- The view of what `open` rebuilds. -/
def Recovered.view (recovered : Recovered) (commits : List CommitRecord) : View :=
  let epoch := (caughtUp recovered.manifest commits).latestEpoch
  { latestEpoch := epoch
    schemas := recovered.manifest.schemas
    records := (recovered.store.snapshot epoch).map StoredRecord.visible
    isTombstoned := fun table tenantId id => recovered.store.isTombstonedAt table tenantId id epoch
    idempotencyReceipts := recovered.idempotencyReceipts
    jobCatalog := recovered.jobCatalog }

/-- Opening a directory whose manifest can be read, and written, shows what `recover` rebuilds. -/
theorem open_view_of_read {disk : Disk} {manifest : Manifest} {entries : List WalEntry}
    {whole cut : Bytes} (hinit : initializeManifest F disk = .ok disk)
    (hread : readManifest F disk = .ok manifest) (hchain : Chain F.toWalFormat entries whole)
    (hcut : IsCut F.toWalFormat entries cut) (hwal : disk.wal = whole ++ cut)
    (hwrite : ∀ next, ∃ disk', writeManifest F { disk with wal := whole } next =
      .ok (sealManifest F next, disk')) :
    let commits := commitsAfterCheckpoint manifest (entries.map (·.commit))
    (Db.open F disk).map Db.view =
      (recover F disk manifest commits).map fun recovered => recovered.view commits := by
  intro commits
  obtain ⟨torn, -, hopen⟩ := open_of_read hinit hread hchain hcut hwal
  rw [hopen]
  simp only
  cases recover F disk manifest commits with
  | error e => rfl
  | ok recovered =>
    simp only [Except.ok_bind, catchUpManifest]
    cases hlast : commits.getLast? with
    | none => simp only [Except.ok_bind, Except.map, Db.view, Recovered.view, caughtUp, hlast]; rfl
    | some lastCommit =>
      by_cases hahead : recovered.manifest.latestEpoch < lastCommit.epoch
      · obtain ⟨disk', hwrite⟩ := hwrite (recovered.manifest.advance lastCommit.epoch)
        simp only [hahead, if_true, hwrite, Except.ok_bind, Except.map, Db.view, Recovered.view,
          caughtUp, hlast]
        rfl
      · simp only [hahead, if_false, Except.ok_bind, Except.map, Db.view, Recovered.view, caughtUp,
          hlast]
        rfl

theorem Synced.open_view {db : Db} {entries : List WalEntry} (h : Synced F db entries) :
    let commits := commitsAfterCheckpoint db.manifest (entries.map (·.commit))
    (Db.open F db.disk).map Db.view =
      (recover F db.disk db.manifest commits).map fun recovered => recovered.view commits := by
  have hinit : initializeManifest F db.disk = .ok db.disk := by
    simp [initializeManifest, h.manifestFile]
  refine open_view_of_read hinit (readManifest_of_manifest h.isSealed h.manifestFile) h.chain
    (.inl rfl) (List.append_nil _).symm fun next =>
      ⟨_, writeManifest_of_manifest h.isSealed ?_ next⟩
  exact h.manifestFile

/-! ### Reading past a damaged manifest -/

/-- The content of a manifest file that is missing or cannot be parsed. -/
def Unreadable (F : EngineFormat) (file : Option Bytes) : Prop :=
  ∀ body, file = some body → F.manifestCodec.decode body = none

theorem Unreadable.readManifestInner {file : Option Bytes} (h : Unreadable F file) :
    ∃ e, TraceDB.readManifestInner F file = .error e ∧ manifestReadErrorCanFallback e = true := by
  cases file with
  | none => exact ⟨_, rfl, rfl⟩
  | some body =>
    refine ⟨.json, ?_, rfl⟩
    simp only [TraceDB.readManifestInner, h body rfl]

theorem Unreadable.readManifest {disk : Disk} (h : Unreadable F disk.manifest) {backup : Manifest}
    (hsealed : Sealed F backup)
    (hbak : disk.manifestBak = some (F.manifestCodec.encode backup)) :
    TraceDB.readManifest F disk = .ok backup := by
  obtain ⟨e, herror, hfallback⟩ := h.readManifestInner
  simp only [TraceDB.readManifest, herror, hfallback, if_true, hbak, Option.isSome_some,
    readManifestInner_encode hsealed]

/-- Writing over a damaged manifest keeps the backup. -/
theorem Unreadable.writeManifest {disk : Disk} (h : Unreadable F disk.manifest)
    (manifest : Manifest) :
    TraceDB.writeManifest F disk manifest = .ok (sealManifest F manifest,
      { disk with
        manifest := some (F.manifestCodec.encode (sealManifest F manifest))
        manifestTmp := none }) := by
  obtain ⟨e, herror, hfallback⟩ := h.readManifestInner
  have hcopy : copyManifestBackup F disk = .ok disk := by
    unfold copyManifestBackup
    cases hfile : disk.manifest with
    | none => rfl
    | some body =>
      rw [hfile] at herror
      simp only [herror, hfallback, if_true]
  simp only [TraceDB.writeManifest, hcopy, Except.ok_bind]

/-- Falling back shows what `recover` rebuilds from the backup. -/
theorem Synced.open_view_damaged {db : Db} {entries : List WalEntry} (h : Synced F db entries)
    {damaged : Option Bytes} (hdamaged : Unreadable F damaged) {backup : Manifest}
    (hsealed : Sealed F backup)
    (hbak : db.disk.manifestBak = some (F.manifestCodec.encode backup)) :
    let commits := commitsAfterCheckpoint backup (entries.map (·.commit))
    (Db.open F { db.disk with manifest := damaged }).map Db.view =
      (recover F { db.disk with manifest := damaged } backup commits).map
        fun recovered => recovered.view commits := by
  have hunreadable : Unreadable F ({ db.disk with manifest := damaged } : Disk).manifest := hdamaged
  have hinit : initializeManifest F { db.disk with manifest := damaged } =
      .ok { db.disk with manifest := damaged } := by
    simp [initializeManifest, hbak]
  exact open_view_of_read hinit (hunreadable.readManifest hsealed hbak) h.chain (.inl rfl)
    (List.append_nil _).symm fun next => ⟨_, hdamaged.writeManifest next⟩

/-! ### The backup and the log -/

/-- The log leads from an older manifest to the one of the handle. -/
structure Follows (F : EngineFormat) (disk : Disk) (backup manifest : Manifest)
    (entries : List WalEntry) : Prop where
  checkpoint : backup.checkpointEpoch ≤ backup.latestEpoch
  schemas : (loggedChanges backup entries).foldl upsertSchema backup.schemas = manifest.schemas
  latestEpoch : (caughtUp backup
    (commitsAfterCheckpoint backup (entries.map (·.commit)))).latestEpoch = manifest.latestEpoch
  checkpointSchemas : ∀ payload,
    readCheckpointFile F disk backup.checkpointEpoch = .ok payload →
      backup.schemas = [] → payload.schemas = []

/-- A backup that names the checkpoint of the manifest is one from which the log leads there. -/
def BackedUp (F : EngineFormat) (disk : Disk) (manifest : Manifest) (entries : List WalEntry) :
    Prop :=
  ∀ body, disk.manifestBak = some body → ∃ backup, body = F.manifestCodec.encode backup ∧
    Sealed F backup ∧ (backup.checkpointEpoch = manifest.checkpointEpoch →
      Follows F disk backup manifest entries)

namespace Synced

variable {db : Db} {entries : List WalEntry}

theorem follows_self (h : Synced F db entries) :
    Follows F db.disk db.manifest db.manifest entries where
  checkpoint := h.checkpoint
  schemas := h.covers.foldl_upsertSchema h.names
  latestEpoch := congrArg Manifest.latestEpoch h.caughtUp_eq
  checkpointSchemas := h.checkpointSchemas

theorem backedUp_committed (h : Synced F db entries) {op : Op} {plan : PlannedWrite}
    (hplan : db.plan F op = .ok (some plan)) {disk : Disk} (hdir : disk.dir = db.disk.dir)
    (hcheckpoints : disk.checkpoints = db.disk.checkpoints)
    (hbak : disk.manifestBak = some (F.manifestCodec.encode db.manifest)) :
    BackedUp F disk (db.nextManifest F plan)
      (entries ++ [nextEntry F.toWalFormat entries plan.commit]) := by
  intro body hbody
  refine ⟨db.manifest, Option.some.inj (hbody.symm.trans hbak), h.isSealed, fun _ => ?_⟩
  have hcp : db.manifest.checkpointEpoch < plan.commit.epoch := by
    rw [(stamped_plan hplan).epoch]
    exact Nat.lt_succ_of_le h.checkpoint
  refine ⟨h.checkpoint, ?_, ?_, ?_⟩
  · rw [loggedChanges, commitsAfterCheckpoint_snoc hcp, List.flatMap_append, List.foldl_append,
      List.flatMap_singleton]
    exact congrArg (plan.commit.schemaChanges.foldl upsertSchema)
      (h.covers.foldl_upsertSchema h.names)
  · rw [h.caughtUp_next hplan]
    rfl
  · rw [readCheckpointFile_congr hdir hcheckpoints]
    exact h.checkpointSchemas

/-- After a checkpoint the log leads nowhere, which does no harm only when the checkpoint before was
at the same epoch. -/
theorem backedUp_checkpoint [F.Lossless] (h : Synced F db entries) (disk : Disk)
    (hdir : disk.dir = (db.checkpointDisk F).dir)
    (hcheckpoints : disk.checkpoints = (db.checkpointDisk F).checkpoints)
    (hbak : disk.manifestBak = (db.checkpointDisk F).manifestBak) {entries' : List WalEntry}
    (hepochs : ∀ entry ∈ entries', entry.commit.epoch ≤ db.manifest.latestEpoch) :
    BackedUp F disk (db.checkpointManifest F) entries' := by
  intro body hbody
  refine ⟨db.manifest, Option.some.inj (hbody.symm.trans hbak), h.isSealed, fun hcp => ?_⟩
  have hcp : db.manifest.checkpointEpoch = db.manifest.latestEpoch := hcp
  have hnone : commitsAfterCheckpoint db.manifest (entries'.map (·.commit)) = [] := by
    refine List.filter_eq_nil_iff.2 fun commit hmem => ?_
    obtain ⟨entry, hentry, rfl⟩ := List.mem_map.1 hmem
    rw [hcp]
    exact fun hlt => absurd (of_decide_eq_true hlt) (not_lt.2 (hepochs entry hentry))
  refine ⟨h.checkpoint, ?_, ?_, ?_⟩
  · rw [loggedChanges, hnone]
    rfl
  · rw [hnone]
    rfl
  · intro payload hread hnil
    rw [readCheckpointFile_congr hdir hcheckpoints, hcp] at hread
    obtain rfl := Except.ok.inj ((readCheckpointFile_checkpointDisk
      (EngineFormat.Lossless.checkpoint _)).symm.trans hread)
    exact hnil

theorem backedUp_published (h : Synced F db entries)
    (hbacked : BackedUp F db.disk db.manifest entries) {db' : Db}
    (hpublished : Published F db db') : BackedUp F db'.disk db'.manifest entries := by
  rcases hpublished with rfl | ⟨segments, manifest, hsame, rfl⟩
  · exact hbacked
  · intro body hbody
    refine ⟨db.manifest, (Option.some.inj hbody).symm, h.isSealed, fun _ => ?_⟩
    have hself := h.follows_self
    exact ⟨hself.checkpoint, hself.schemas.trans hsame.schemas.symm,
      hself.latestEpoch.trans hsame.latestEpoch.symm, hself.checkpointSchemas⟩

end Synced

/-- Opening keeps the backup, or writes the manifest that it has caught up from as the backup. -/
theorem Recoverable.backedUp {disk : Disk} {manifest : Manifest} {entries : List WalEntry}
    {whole cut : Bytes} (h : Recoverable F disk manifest entries whole cut) {db : Db}
    (hopen : Db.open F disk = .ok db)
    (hbacked : caughtUp manifest (commitsAfterCheckpoint manifest (entries.map (·.commit))) =
      manifest → BackedUp F disk manifest entries) : BackedUp F db.disk db.manifest entries := by
  obtain ⟨recovered, -, -, -, -, -, hcases⟩ := h.open_cases hopen
  rcases hcases with ⟨hsame, hmanifest, hdisk⟩ | ⟨hmanifest, hdisk⟩
  · rw [hmanifest, hdisk]
    intro body hbody
    obtain ⟨backup, rfl, hsealed, hfollows⟩ := hbacked hsame body hbody
    refine ⟨backup, rfl, hsealed, fun hcp => ?_⟩
    have hfollows := hfollows hcp
    exact ⟨hfollows.checkpoint, hfollows.schemas, hfollows.latestEpoch, hfollows.checkpointSchemas⟩
  · rw [hmanifest, hdisk]
    intro body hbody
    refine ⟨manifest, (Option.some.inj hbody).symm, h.isSealed, fun _ => ?_⟩
    exact ⟨h.checkpoint, rfl, rfl, h.checkpointSchemas⟩

/-- **The backup of every reachable handle.** -/
theorem Reachable.backedUp [F.Lossless] {dir : String} {db : Db} (h : Reachable F dir db) :
    ∃ entries, Synced F db entries ∧ BackedUp F db.disk db.manifest entries := by
  induction h with
  | opened hopen =>
    rw [open_empty_eq] at hopen
    obtain rfl := Except.ok.inj hopen
    exact ⟨[], synced_initialDb dir, fun body hbody => by cases hbody⟩
  | run op _ ih =>
    obtain ⟨entries, hsync, hbacked⟩ := ih
    rcases hsync.run_cases op with heq | ⟨plan, hplan, -, heq, hsync'⟩
    · rw [heq]
      exact ⟨entries, hsync, hbacked⟩
    · rw [heq]
      exact ⟨_, hsync', hsync.backedUp_committed hplan rfl rfl rfl⟩
  | @checkpoint db db' epoch _ hcheckpoint ih =>
    obtain ⟨entries, hsync, -⟩ := ih
    rw [hsync.checkpoint_eq] at hcheckpoint
    obtain ⟨-, rfl⟩ := Prod.mk.inj hcheckpoint
    have hnone : ∀ entry ∈ ([] : List WalEntry), entry.commit.epoch ≤ db.manifest.latestEpoch :=
      fun entry hentry => absurd hentry List.not_mem_nil
    exact ⟨[], hsync.checkpointed,
      hsync.backedUp_checkpoint (db.checkpointed F).disk rfl rfl rfl hnone⟩
  | publish segmentId generation _ hpublish ih =>
    obtain ⟨entries, hsync, hbacked⟩ := ih
    have hpublished := hsync.publishSegment_cases hpublish
    exact ⟨entries, hsync.published hpublished, hsync.backedUp_published hbacked hpublished⟩
  | compact _ hcompact ih =>
    obtain ⟨entries, hsync, hbacked⟩ := ih
    have hpublished := hsync.publishCompactedSegment_cases hcompact
    exact ⟨entries, hsync.published hpublished, hsync.backedUp_published hbacked hpublished⟩
  | reopen _ hopen ih =>
    obtain ⟨entries, hsync, hbacked⟩ := ih
    exact ⟨entries, hsync.recoverable.synced hopen,
      hsync.recoverable.backedUp hopen fun _ => hbacked⟩
  | @crash db done db' op plan reply k n _ hplan hrun hopen ih =>
    obtain ⟨entries, hsync, hbacked⟩ := ih
    obtain ⟨hfit, -⟩ := hsync.fits_of_run hplan hrun
    obtain ⟨hdir, hcheckpoints, -⟩ := hsync.crashAt_cases plan k n
    rcases hsync.crash_cases hplan hfit k n with ⟨cut, -, -, hbak, hrec⟩ | ⟨-, manifest, hm, hrec⟩
    · refine ⟨_, hrec.synced hopen, hrec.backedUp hopen fun _ body hbody => ?_⟩
      obtain ⟨backup, rfl, hsealed, hfollows⟩ := hbacked body (hbak.symm.trans hbody)
      refine ⟨backup, rfl, hsealed, fun hcp => ?_⟩
      have hfollows := hfollows hcp
      refine ⟨hfollows.checkpoint, hfollows.schemas, hfollows.latestEpoch, ?_⟩
      rw [readCheckpointFile_congr hdir hcheckpoints]
      exact hfollows.checkpointSchemas
    · refine ⟨_, hrec.synced hopen, hrec.backedUp hopen fun hsame => ?_⟩
      rcases hm with rfl | ⟨rfl, hbak⟩
      · -- The log is ahead of the old manifest, so that a new one is written.
        have hlatest := congrArg Manifest.latestEpoch ((hsync.caughtUp_next hplan).symm.trans hsame)
        have hepoch := (stamped_plan hplan).epoch
        exact absurd (hepoch.symm.trans hlatest) (Nat.lt_succ_self _).ne'
      · exact hsync.backedUp_committed hplan hdir hcheckpoints hbak
  | checkpointCrash _ hpublish hopen ih =>
    obtain ⟨entries, hsync, -⟩ := ih
    rw [hsync.publishCheckpoint_eq] at hpublish
    obtain ⟨-, rfl⟩ := Prod.mk.inj hpublish
    have hrec := hsync.recoverable_checkpointDisk
    exact ⟨entries, hrec.synced hopen, hrec.backedUp hopen fun _ =>
      hsync.backedUp_checkpoint _ rfl rfl rfl hsync.epochs⟩

/-! ### Fallback -/

/-- What is asked of a directory whose primary manifest is damaged: with a backup, what it opens to
shows the same as the intact directory; without one, it does not open. -/
def FallbackSafe (F : EngineFormat) (disk : Disk) (damaged : Option Bytes) : Prop :=
  (disk.manifestBak.isSome = true → ∀ reopened,
    Db.open F { disk with manifest := damaged } = .ok reopened →
      (Db.open F disk).map Db.view = .ok reopened.view) ∧
  (disk.manifestBak = none → ∃ e, Db.open F { disk with manifest := damaged } = .error e)

/-- The backup names the checkpoint of the manifest; where there is no backup yet, the primary is
damaged but there. -/
def BackupCurrent (F : EngineFormat) (disk : Disk) (manifest : Manifest)
    (damaged : Option Bytes) : Prop :=
  match disk.manifestBak with
  | none => damaged.isSome = true
  | some body => (F.manifestCodec.decode body).map (·.checkpointEpoch) =
      some manifest.checkpointEpoch

/-- **The fallback to the backup loses nothing** while the backup names the current checkpoint. -/
theorem fallback_shows_all [F.Lossless] {dir : String} {db : Db} (hreach : Reachable F dir db)
    {damaged : Option Bytes} (hdamaged : Unreadable F damaged)
    (hcurrent : BackupCurrent F db.disk db.manifest damaged) :
    FallbackSafe F db.disk damaged := by
  obtain ⟨entries, hsync, hbacked⟩ := hreach.backedUp
  cases hbak : db.disk.manifestBak with
  | none =>
    refine ⟨fun hsome => absurd hsome (by simp [hbak]), fun _ => ?_⟩
    obtain ⟨body, rfl⟩ : ∃ body, damaged = some body := by
      simpa only [BackupCurrent, hbak, Option.isSome_iff_exists] using hcurrent
    obtain ⟨e, herror, hfallback⟩ := hdamaged.readManifestInner
    refine ⟨e, ?_⟩
    simp only [Db.open, initializeManifest, Option.isNone_some, Bool.false_and, Bool.false_eq_true,
      if_false, Except.ok_bind, readManifest, herror, hfallback, if_true, hbak, Option.isSome_none,
      Except.error_bind]
  | some body =>
    refine ⟨fun _ reopened hopen => ?_, fun hnone => absurd (hbak.symm.trans hnone) (by simp)⟩
    obtain ⟨backup, rfl, hsealed, hfollows⟩ := hbacked body hbak
    have hcp : backup.checkpointEpoch = db.manifest.checkpointEpoch := by
      simpa only [BackupCurrent, hbak, F.decode_encode_manifest, Option.map_some,
        Option.some.injEq] using hcurrent
    have hfollows := hfollows hcp
    have hcommits : commitsAfterCheckpoint db.manifest (entries.map (·.commit)) =
        commitsAfterCheckpoint backup (entries.map (·.commit)) := by
      simp only [commitsAfterCheckpoint, hcp]
    have hview := hsync.open_view_damaged hdamaged hsealed hbak
    rw [hopen] at hview
    rw [hsync.open_view]
    refine Eq.trans ?_ hview.symm
    simp only [hcommits]
    -- The same checkpoint and the same commits, which end with the same schemas and epoch.
    refine recover_congr rfl rfl hsync.checkpoint hfollows.checkpoint hcp.symm
      hsync.checkpointSchemas hfollows.checkpointSchemas ?_ hfollows.schemas
      fun store receipts jobs => ?_
    · rw [← hcommits]
      exact hsync.covers.foldl_upsertSchema hsync.names
    · have hlatest : (caughtUp db.manifest
          (commitsAfterCheckpoint backup (entries.map (·.commit)))).latestEpoch =
          (caughtUp backup
            (commitsAfterCheckpoint backup (entries.map (·.commit)))).latestEpoch := by
        rw [hfollows.latestEpoch, ← hcommits]
        exact congrArg Manifest.latestEpoch hsync.caughtUp_eq
      simp only [Recovered.view, caughtUp_with_schemas, hlatest]

/-- A receipt of a request. -/
def sampleReceipt : IdempotencyReceipt where
  method := "POST"
  path := "/v1/records/put"
  key := "k"
  bodyHash := "0"
  actorTenantId := "t"
  databaseId := "db"
  branchId := "main"
  tokenIdentity := "anonymous"
  response := "ok"

/-- The handle after the receipt has been recorded in a new directory. -/
theorem run_sampleReceipt :
    let db := initialDb .reference "db"
    ∃ plan, (db.run .reference (.recordIdempotencyReceipt sampleReceipt)).2 =
        db.committed .reference [] plan ∧ plan.commit.idempotencyReceipts = [sampleReceipt] ∧
      Synced .reference (db.committed .reference [] plan)
        [nextEntry EngineFormat.reference.toWalFormat [] plan.commit] := by
  intro db
  have hsync : Synced .reference db [] := synced_initialDb "db"
  have hplan : db.plan .reference (.recordIdempotencyReceipt sampleReceipt) =
      .ok (some (db.planReceipt sampleReceipt)) := rfl
  have hfit : Fits EngineFormat.reference.toWalFormat [] (db.planReceipt sampleReceipt).commit := by
    decide +kernel
  have hstamp := stamped_plan hplan
  refine ⟨db.planReceipt sampleReceipt, ?_, rfl,
    hsync.committed hstamp.engine hstamp.epoch hfit (readBack _ _)⟩
  rw [hsync.run_of_fits hplan hfit]

/-- Losing the primary manifest after a first commit. -/
theorem fallback_shows_receipt :
    FallbackSafe .reference ((initialDb .reference "db").run .reference
      (.recordIdempotencyReceipt sampleReceipt)).2.disk none := by
  obtain ⟨plan, hrun, -, -⟩ := run_sampleReceipt
  refine fallback_shows_all (.run _ (.opened (open_empty_eq "db")))
    (fun body hbody => by cases hbody) ?_
  rw [hrun]
  simp only [BackupCurrent, Db.committed, EngineFormat.decode_encode_manifest]
  rfl

/-- Right after the first checkpoint, the fallback shows an empty database: the backup names no
checkpoint, and the log is empty. -/
theorem fallback_after_checkpoint [F.Lossless] {db : Db} {entries : List WalEntry}
    (h : Synced F db entries) (hcp : db.manifest.checkpointEpoch = 0) {damaged : Option Bytes}
    (hdamaged : Unreadable F damaged) :
    (Db.open F { (db.checkpointed F).disk with manifest := damaged }).map Db.view =
      .ok (Recovered.view ⟨db.manifest, .empty, [], .empty⟩ []) := by
  have hview := h.checkpointed.open_view_damaged hdamaged h.isSealed rfl
  have hrecover : recover F { (db.checkpointed F).disk with manifest := damaged } db.manifest [] =
      .ok ⟨db.manifest, .empty, [], .empty⟩ := by
    simp only [recover, loadCheckpoint, hcp, not_lt_zero, if_false, lt_irrefl]
    rfl
  rw [hview]
  show (recover F { (db.checkpointed F).disk with manifest := damaged } db.manifest []).map _ = _
  rw [hrecover]
  rfl

/-- Losing the primary manifest right after a checkpoint loses the receipt that was committed before
it, and `open` does not notice. -/
theorem fallback_loses_receipt :
    let live := ((initialDb .reference "db").run .reference
      (.recordIdempotencyReceipt sampleReceipt)).2
    ∃ epoch after, live.checkpoint .reference = (.ok epoch, after) ∧
      Reachable .reference "db" after ∧ Unreadable .reference none ∧
      ¬ FallbackSafe .reference after.disk none := by
  intro live
  obtain ⟨plan, hrun, hreceipts, hsync⟩ := run_sampleReceipt
  have hlive : live = (initialDb .reference "db").committed .reference [] plan := hrun
  rw [← hlive] at hsync
  have hreach : Reachable .reference "db" live := .run _ (.opened (open_empty_eq "db"))
  have hmissing : Unreadable .reference none := fun body hbody => by cases hbody
  refine ⟨_, _, hsync.checkpoint_eq, hreach.checkpoint hsync.checkpoint_eq, hmissing,
    fun hsafe => ?_⟩
  have hcp : live.manifest.checkpointEpoch = 0 := by
    rw [hlive]
    rfl
  have hlost := fallback_after_checkpoint hsync hcp hmissing
  cases hopen : Db.open .reference
      { (live.checkpointed .reference).disk with manifest := none } with
  | error e =>
    rw [hopen] at hlost
    cases hlost
  | ok reopened =>
    rw [hopen] at hlost
    have hsame := hsafe.1 rfl reopened hopen
    obtain ⟨store, hcontents, -⟩ :=
      hreach.settled.checkpointContents (EngineFormat.Lossless.checkpoint _)
    obtain ⟨intact, hintact, -, -, hkept, -⟩ :=
      hsync.checkpointed.recoverable.open_covered rfl hcontents
    rw [hintact] at hsame
    have hnone : reopened.view.idempotencyReceipts = [] :=
      congrArg View.idempotencyReceipts (Except.ok.inj hlost)
    have hone : intact.view.idempotencyReceipts = [sampleReceipt] := by
      have hreceipts' : live.idempotencyReceipts = [sampleReceipt] := by
        rw [hlive]
        exact hreceipts
      exact hkept.trans hreceipts'
    have heq := congrArg View.idempotencyReceipts (Except.ok.inj hsame)
    rw [hnone, hone] at heq
    cases heq

end TraceDB
