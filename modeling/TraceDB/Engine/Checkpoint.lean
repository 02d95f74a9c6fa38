import TraceDB.Engine.Alike
import TraceDB.Engine.Nesting

/-!
# Checkpoints change nothing that can be seen

* `LegibleRun.settled` : every key of a store has one open version, whatever mix of writes,
  checkpoints, reopening and crashes led there.
* `Recoverable.open_covered` : a directory whose log is covered by its checkpoint opens to what the
  checkpoint holds.
* `checkpoint_transparent` : checkpoint transparency, for reads and for every later run of writes,
  in runs that write what is read back.
* `checkpoint_unreadable` : a checkpoint that is written, and is not read back.
-/

namespace TraceDB

variable {F : EngineFormat}

/-! ### Every key has a tip -/

theorem SameTips.trans_left {epoch : Epoch} {s t : RecordStore} (h : SameTips epoch s t) :
    SameTips epoch t t := by
  intro key
  rcases h.none_or_some key with ⟨-, ht⟩ | ⟨_, versions', -, ht, tip, -, htip', hkey⟩
  · simp [ht]
  · simp only [ht]
    exact ⟨tip, htip', htip', hkey⟩

theorem SameTips.of_applyAt {epoch : Epoch} {s s' : RecordStore} {key : String}
    {write : Versions → Result Versions} (h : SameTips epoch s s)
    (hwrite : TipWrite epoch key write) (happly : s.applyAt key write = .ok s') :
    SameTips epoch s' s' := by
  have hsame := h.applyAt hwrite
  rw [happly] at hsame
  exact hsame

/-- Replaying commits keeps the tips. -/
theorem SameTips.applyCommits {epoch : Epoch} {s s' : RecordStore} {schemas : List TableSchema}
    {commits : List CommitRecord} (h : SameTips epoch s s)
    (hepochs : ∀ commit ∈ commits, commit.epoch ≤ epoch)
    (happly : s.applyCommits (sourceHash F) schemas commits = .ok s') : SameTips epoch s' s' := by
  refine Except.foldlM_invariant (I := fun s => SameTips epoch s s) happly h ?_
  intro s commit s' hmem hs hcommit
  have he := hepochs commit hmem
  simp only [RecordStore.applyCommit, Except.bind_eq_ok_iff] at hcommit
  obtain ⟨s₁, h₁, s₂, h₂, s₃, h₃, h₄⟩ := hcommit
  have hs₁ := Except.foldlM_invariant (I := fun s => SameTips epoch s s) h₁ hs <| by
    intro s input s' _ hs happly
    simp only [Except.bind_eq_ok_iff] at happly
    obtain ⟨schema, -, happly⟩ := happly
    exact hs.of_applyAt (tipWrite_replaceVersions _ schema input he) happly
  have hs₂ := Except.foldlM_invariant (I := fun s => SameTips epoch s s) h₂ hs₁ <| by
    intro s input s' _ hs happly
    simp only [Except.bind_eq_ok_iff] at happly
    obtain ⟨schema, -, happly⟩ := happly
    exact hs.of_applyAt (tipWrite_mutateVersions _ schema input he) happly
  have hs₃ := Except.foldlM_invariant (I := fun s => SameTips epoch s s) h₃ hs₂ <| by
    intro s deletion s' _ hs happly
    simp only [Except.bind_eq_ok_iff] at happly
    obtain ⟨schema, -, happly⟩ := happly
    exact hs.of_applyAt (tipWrite_deleteVersions schema deletion he) happly
  refine Except.foldlM_invariant (I := fun s => SameTips epoch s s) h₄ hs₃ ?_
  intro s invalidation s' _ hs happly
  unfold RecordStore.replayInvalidation at happly
  split_ifs at happly
  · rw [Except.bind_eq_ok_iff] at happly
    obtain ⟨resolved, -, happly⟩ := happly
    exact hs.of_applyAt (tipWrite_invalidateVersions resolved) happly
  · exact hs.of_applyAt (tipWrite_invalidateVersions invalidation) happly

/-- The checkpoint the manifest names holds one open version for each of its keys. -/
def CheckpointTips (F : EngineFormat) (disk : Disk) (epoch : Epoch) : Prop :=
  ∀ payload, readCheckpointFile F disk epoch = .ok payload →
    SameTips epoch (.fromCheckpointRecords payload.records)
      (.fromCheckpointRecords payload.records)

theorem CheckpointTips.congr {disk disk' : Disk} {epoch : Epoch} (h : CheckpointTips F disk epoch)
    (hdir : disk'.dir = disk.dir) (hcheckpoints : disk'.checkpoints = disk.checkpoints) :
    CheckpointTips F disk' epoch := by
  intro payload hread
  exact h payload ((readCheckpointFile_congr hdir hcheckpoints epoch).symm.trans hread)

/-! ### Settled handles -/

/-- What holds of a handle in any run: its keys have tips, so do those of its checkpoint, and before
the first commit there is nothing in it. -/
structure Settled (F : EngineFormat) (db : Db) : Prop where
  tips : SameTips db.manifest.latestEpoch db.store db.store
  checkpoint : CheckpointTips F db.disk db.manifest.checkpointEpoch
  fresh : db.manifest.latestEpoch = 0 →
    db.store = .empty ∧ db.idempotencyReceipts = [] ∧ db.jobCatalog = .empty

theorem Settled.alike {db : Db} (h : Settled F db) : Alike db db :=
  ⟨rfl, rfl, rfl, rfl, rfl, rfl, h.tips⟩

/-- There is no checkpoint at epoch zero. -/
theorem checkpointContents_zero (disk : Disk) :
    checkpointContents F disk 0 = .ok (.empty, [], .empty) := rfl

/-- Opening a recoverable directory gives a settled handle. -/
theorem Recoverable.settled {disk : Disk} {manifest : Manifest} {entries : List WalEntry}
    {whole cut : Bytes} (h : Recoverable F disk manifest entries whole cut)
    (hcheckpoint : CheckpointTips F disk manifest.checkpointEpoch) {db : Db}
    (hopen : Db.open F disk = .ok db) : Settled F db := by
  obtain ⟨hdir, hcheckpoints, hcp, hlatest, recovered, hrecover, hstore, hreceipts, hjobs⟩ :=
    h.open_frame hopen
  have hle : manifest.checkpointEpoch ≤ db.manifest.latestEpoch := by
    rw [hlatest]
    exact h.checkpoint.trans (caughtUp_spec manifest
      (commitsAfterCheckpoint manifest (entries.map (·.commit)))).2.2
  have hepochs : ∀ commit ∈ commitsAfterCheckpoint manifest (entries.map (·.commit)),
      manifest.checkpointEpoch < commit.epoch ∧ commit.epoch ≤ db.manifest.latestEpoch := by
    intro commit hmem
    obtain ⟨hlogged, hafter⟩ := List.mem_filter.1 hmem
    obtain ⟨entry, hentry, rfl⟩ := List.mem_map.1 hlogged
    rw [hlatest]
    exact ⟨of_decide_eq_true hafter, h.epochs entry hentry⟩
  rw [recover_eq h.checkpoint h.checkpointSchemas, Except.bind_eq_ok_iff] at hrecover
  obtain ⟨contents, hcontents, hreplay⟩ := hrecover
  refine ⟨?_, by rw [hcp]; exact hcheckpoint.congr hdir hcheckpoints, fun hzero => ?_⟩
  · rw [hstore]
    simp only [replayCommits, Except.bind_eq_ok_iff] at hreplay
    obtain ⟨jobs, -, store, happly, heq⟩ := hreplay
    obtain rfl := Except.ok.inj heq
    have hbase : SameTips manifest.checkpointEpoch contents.1 contents.1 := by
      unfold checkpointContents at hcontents
      by_cases hpos : 0 < manifest.checkpointEpoch
      · simp only [hpos, if_true, Except.bind_eq_ok_iff, Except.guard_eq_ok_iff] at hcontents
        obtain ⟨payload, hread, -, heq⟩ := hcontents
        obtain rfl := Except.ok.inj heq
        exact hcheckpoint payload hread
      · simp only [hpos, if_false] at hcontents
        obtain rfl := Except.ok.inj hcontents
        exact SameTips.empty
    exact (hbase.mono hle).applyCommits (fun commit hmem => (hepochs commit hmem).2) happly
  · -- At epoch zero there is no checkpoint, and no commit to replay.
    have hnil : commitsAfterCheckpoint manifest (entries.map (·.commit)) = [] := by
      refine List.eq_nil_iff_forall_not_mem.2 fun commit hmem => ?_
      obtain ⟨hlow, hhigh⟩ := hepochs commit hmem
      rw [hzero] at hhigh
      exact absurd (hlow.trans_le hhigh) (Nat.not_lt_zero _)
    have hcp0 : manifest.checkpointEpoch = 0 := Nat.le_zero.1 (hle.trans_eq hzero)
    rw [hcp0, checkpointContents_zero] at hcontents
    obtain rfl := Except.ok.inj hcontents
    rw [hnil] at hreplay
    obtain rfl : _ = recovered := Except.ok.inj hreplay
    exact ⟨hstore, hreceipts, hjobs⟩

namespace Settled

variable {db db' : Db} {entries : List WalEntry}

/-- Manifests with the same epochs, and other files, change nothing here. -/
theorem congr (h : Settled F db) (hlatest : db'.manifest.latestEpoch = db.manifest.latestEpoch)
    (hcp : db'.manifest.checkpointEpoch = db.manifest.checkpointEpoch)
    (hstore : db'.store = db.store) (hreceipts : db'.idempotencyReceipts = db.idempotencyReceipts)
    (hjobs : db'.jobCatalog = db.jobCatalog) (hdir : db'.disk.dir = db.disk.dir)
    (hcheckpoints : db'.disk.checkpoints = db.disk.checkpoints) : Settled F db' where
  tips := by
    rw [hlatest, hstore]
    exact h.tips
  checkpoint := by
    rw [hcp]
    exact h.checkpoint.congr hdir hcheckpoints
  fresh := by
    rw [hlatest, hstore, hreceipts, hjobs]
    exact h.fresh

theorem committed (h : Settled F db) {op : Op} {plan : PlannedWrite}
    (hplan : db.plan F op = .ok (some plan)) : Settled F (db.committed F entries plan) := by
  have hdecision := h.alike.plan (F := F) op
  rw [hplan] at hdecision
  have hsame : SamePlan db db plan plan := hdecision
  refine ⟨(h.alike.committed hsame hplan).tips, h.checkpoint.congr rfl rfl, fun hzero => ?_⟩
  have hepoch : (db.committed F entries plan).manifest.latestEpoch = db.nextEpoch :=
    (stamped_plan hplan).epoch
  exact absurd (hepoch.symm.trans hzero) (Nat.succ_ne_zero _)

theorem run (h : Settled F db) (hsync : Synced F db entries) {op : Op}
    (hlegible : db.Legible F op) : Settled F (db.run F op).2 := by
  rcases hsync.run_cases_of hlegible with heq | ⟨plan, hplan, -, heq, -⟩
  · rw [heq]
    exact h
  · rw [heq]
    exact h.committed hplan

/-- The checkpoint of a settled handle has tips. -/
theorem checkpointTips (h : Settled F db)
    (hback : F.checkpointCodec.ReadsBack db.checkpointPayload) :
    CheckpointTips F (db.checkpointDisk F) db.manifest.latestEpoch := by
  intro payload hread
  obtain rfl := Except.ok.inj ((Synced.readCheckpointFile_checkpointDisk hback).symm.trans hread)
  exact (sameTips_fromCheckpointRecords h.tips).trans_left

theorem checkpointed (h : Settled F db)
    (hback : F.checkpointCodec.ReadsBack db.checkpointPayload) :
    Settled F (db.checkpointed F) :=
  ⟨h.tips, (h.checkpointTips hback).congr rfl rfl, h.fresh⟩

theorem published (h : Settled F db) (hpublished : Published F db db') : Settled F db' := by
  rcases hpublished with rfl | ⟨segments, manifest, hsame, rfl⟩
  · exact h
  · exact h.congr hsame.latestEpoch hsame.checkpointEpoch rfl rfl rfl rfl rfl

end Settled

/-- **Every handle of a legible run is settled.** -/
theorem LegibleRun.settled {dir : String} {db : Db} (h : LegibleRun F dir db) : Settled F db := by
  induction h with
  | opened hopen =>
    rw [open_empty] at hopen
    refine (recoverable_initialDisk dir).settled ?_ hopen
    intro payload hread
    simp [readCheckpointFile, initialDisk, Disk.empty] at hread
  | run hrun hlegible ih =>
    obtain ⟨entries, hsync⟩ := hrun.synced
    exact ih.run hsync hlegible
  | checkpoint hrun hback hcheckpoint ih =>
    obtain ⟨entries, hsync⟩ := hrun.synced
    rw [hsync.checkpoint_eq] at hcheckpoint
    obtain ⟨-, rfl⟩ := Prod.mk.inj hcheckpoint
    exact ih.checkpointed hback
  | publish segmentId generation hrun hpublish ih =>
    obtain ⟨entries, hsync⟩ := hrun.synced
    exact ih.published (hsync.publishSegment_cases hpublish)
  | compact hrun hcompact ih =>
    obtain ⟨entries, hsync⟩ := hrun.synced
    exact ih.published (hsync.publishCompactedSegment_cases hcompact)
  | reopen hrun hopen ih =>
    obtain ⟨entries, hsync⟩ := hrun.synced
    exact hsync.recoverable.settled ih.checkpoint hopen
  | crash k n hbefore hlegible hplan hrun hopen ih =>
    obtain ⟨entries, hsync⟩ := hbefore.synced
    obtain ⟨hfit, -⟩ := hsync.fits_of_run hplan hrun
    obtain ⟨hdir, hcheckpoints, -⟩ := hsync.crashAt_cases _ k n
    have htips := ih.checkpoint.congr hdir hcheckpoints
    rcases hsync.crash_cases_of hplan hfit (hsync.readBack_plan hlegible hplan) k n with
      ⟨cut, -, -, -, hrec⟩ | ⟨-, manifest, hm, hrec⟩
    · exact hrec.settled htips hopen
    · rcases hm with rfl | ⟨rfl, -⟩
      · exact hrec.settled htips hopen
      · exact hrec.settled htips hopen
  | checkpointCrash hrun hback hpublish hopen ih =>
    obtain ⟨entries, hsync⟩ := hrun.synced
    rw [hsync.publishCheckpoint_eq] at hpublish
    obtain ⟨-, rfl⟩ := Prod.mk.inj hpublish
    exact (hsync.recoverable_checkpointDisk_of hback).settled (ih.checkpointTips hback) hopen

/-- **Every reachable handle is settled.** -/
theorem Reachable.settled [F.Lossless] {dir : String} {db : Db} (h : Reachable F dir db) :
    Settled F db :=
  h.legibleRun.settled

/-! ### Reopening after a checkpoint -/

/-- A log without commits after the checkpoint is not replayed at all. -/
theorem Recoverable.open_covered {disk : Disk} {manifest : Manifest} {entries : List WalEntry}
    {whole cut : Bytes} (h : Recoverable F disk manifest entries whole cut)
    (hcovered : commitsAfterCheckpoint manifest (entries.map (·.commit)) = [])
    {contents : RecordStore × List IdempotencyReceipt × JobCatalog}
    (hcontents : checkpointContents F disk manifest.checkpointEpoch = .ok contents) :
    ∃ db, Db.open F disk = .ok db ∧ db.manifest = manifest ∧ db.store = contents.1 ∧
      db.idempotencyReceipts = contents.2.1 ∧ db.jobCatalog = contents.2.2 := by
  obtain ⟨torn, -, hopen⟩ := h.open_eq
  have hrecover : recover F disk manifest [] =
      .ok ⟨manifest, contents.1, contents.2.1, contents.2.2⟩ := by
    rw [recover_eq h.checkpoint h.checkpointSchemas, hcontents, Except.ok_bind]
    simp only [replayCommits, List.flatMap_nil, List.append_nil]
    rfl
  rw [hopen]
  simp only [hcovered, hrecover, Except.ok_bind]
  exact ⟨_, rfl, rfl, rfl, rfl, rfl⟩

/-- What the checkpoint of a settled handle holds. -/
theorem Settled.checkpointContents {db : Db} (h : Settled F db)
    (hback : F.checkpointCodec.ReadsBack db.checkpointPayload) :
    ∃ store, checkpointContents F (db.checkpointDisk F) db.manifest.latestEpoch =
        .ok (store, db.idempotencyReceipts, db.jobCatalog) ∧
      SameTips db.manifest.latestEpoch db.store store := by
  by_cases hpos : 0 < db.manifest.latestEpoch
  · refine ⟨.fromCheckpointRecords (db.store.checkpointRecords db.manifest.latestEpoch), ?_,
      sameTips_fromCheckpointRecords h.tips⟩
    simp only [TraceDB.checkpointContents, hpos, if_true,
      Synced.readCheckpointFile_checkpointDisk hback, Except.ok_bind]
    exact if_neg (fun hne => hne rfl)
  · -- A checkpoint at epoch zero is not read back.
    have hzero : db.manifest.latestEpoch = 0 := Nat.eq_zero_of_not_pos hpos
    obtain ⟨hstore, hreceipts, hjobs⟩ := h.fresh hzero
    refine ⟨.empty, ?_, ?_⟩
    · rw [hzero, checkpointContents_zero, hreceipts, hjobs]
    · rw [hstore]
      exact SameTips.empty

/-- The handle reopened on a checkpointed directory is alike to the live one. -/
theorem Settled.reopened {db reopened : Db}
    (hmanifest : reopened.manifest = db.checkpointManifest F)
    (hreceipts : reopened.idempotencyReceipts = db.idempotencyReceipts)
    (hjobs : reopened.jobCatalog = db.jobCatalog)
    (htips : SameTips db.manifest.latestEpoch db.store reopened.store) : Alike db reopened where
  latestEpoch := by rw [hmanifest]; rfl
  schemas := by rw [hmanifest]; rfl
  databaseId := by rw [hmanifest]; rfl
  branchId := by rw [hmanifest]; rfl
  idempotencyReceipts := hreceipts.symm
  jobCatalog := hjobs.symm
  tips := htips

/-- **Checkpoint transparency**, for the whole checkpoint and for one cut off before the log is
truncated: in a run that reads back what it writes, the reopened handle shows what the live one
does, and so it does after every later run of writes that are read back. -/
theorem checkpoint_transparent {dir : String} {live : Db} (hrun : LegibleRun F dir live)
    (hback : F.checkpointCodec.ReadsBack live.checkpointPayload) :
    (∃ epoch after reopened, live.checkpoint F = (.ok epoch, after) ∧
      Db.open F after.disk = .ok reopened ∧ SameReads live reopened ∧
      ∀ ops, after.LegibleRuns F ops → after.replies F ops = reopened.replies F ops ∧
        SameReads (after.runAll F ops) (reopened.runAll F ops)) ∧
    ∃ epoch manifest disk reopened, live.publishCheckpoint F = (.ok (epoch, manifest), disk) ∧
      Db.open F disk = .ok reopened ∧ SameReads live reopened ∧
      ∀ ops, live.LegibleRuns F ops → live.replies F ops = reopened.replies F ops ∧
        SameReads (live.runAll F ops) (reopened.runAll F ops) := by
  obtain ⟨entries, hsync⟩ := hrun.synced
  have hsettled := hrun.settled
  obtain ⟨store, hcontents, htips⟩ := hsettled.checkpointContents hback
  constructor
  · have hafter := hsync.checkpointed_of hback
    obtain ⟨reopened, hopen, hmanifest, rfl, hreceipts, hjobs⟩ :=
      hafter.recoverable.open_covered rfl hcontents
    have halike := Settled.reopened hmanifest hreceipts hjobs htips
    have halike' : Alike (live.checkpointed F) reopened :=
      ⟨halike.latestEpoch, halike.schemas, halike.databaseId, halike.branchId,
        halike.idempotencyReceipts, halike.jobCatalog, halike.tips⟩
    exact ⟨_, _, reopened, hsync.checkpoint_eq, hopen, halike.sameReads,
      fun _ => halike'.runAll hafter (hafter.recoverable.synced hopen)⟩
  · have hrec := hsync.recoverable_checkpointDisk_of hback
    have hcovered :
        commitsAfterCheckpoint (live.checkpointManifest F) (entries.map (·.commit)) = [] := by
      refine List.filter_eq_nil_iff.2 fun commit hmem => ?_
      obtain ⟨entry, hentry, rfl⟩ := List.mem_map.1 hmem
      exact fun hlt => absurd (of_decide_eq_true hlt) (not_lt.2 (hsync.epochs entry hentry))
    obtain ⟨reopened, hopen, hmanifest, rfl, hreceipts, hjobs⟩ :=
      hrec.open_covered hcovered hcontents
    have halike := Settled.reopened hmanifest hreceipts hjobs htips
    exact ⟨_, _, _, reopened, hsync.publishCheckpoint_eq, hopen, halike.sameReads,
      fun _ => halike.runAll hsync (hrec.synced hopen)⟩

/-! ### Deep records -/

/-- A table of memos. -/
def memosSchema : TableSchema := ⟨"memos", "id", "tenant", [], ["body"], []⟩

/-- A memo with an attachment. -/
def memo (id : String) (attachment : Value) : RecordInput :=
  ⟨"memos", id, "t",
    Std.ExtTreeMap.insert (Std.ExtTreeMap.insert ∅ "body" (.string id)) "attachment" attachment⟩

/-- A value inside `n` arrays. -/
def Value.inArrays (value : Value) : ℕ → Value
  | 0 => value
  | n + 1 => .array [value.inArrays n]

/-- Memos are written, patched and deleted; there is a receipt, and a job that is leased. -/
def memoOps : List Op :=
  [.applySchema memosSchema none, .put (memo "a" (Value.null.inArrays 123)) none,
    .putBatch [memo "b" .null, memo "c" (.bool true)] none, .patch (memo "b" (.bool false)) none,
    .delete ⟨"memos", "c", "t", "gone"⟩ none,
    .recordIdempotencyReceipt ⟨"POST", "/v1/records/put", "k", "h", "t", "db", "main",
      "u", "\x7b\x7d"⟩,
    .enqueueJob .verifyDatabase "docs" "nightly", .leaseJob "w" .verifyDatabase 10 5]

/-- Writes on the memos after the checkpoint: one of them brings a deleted memo back. -/
def laterMemoOps : List Op :=
  [.patch (memo "a" .null) none, .insert (memo "c" .null) none,
    .delete ⟨"memos", "b", "t", "gone"⟩ none, .leaseJob "w" .verifyDatabase 20 5]

/-- A checkpoint of a directory with memos, a receipt and a job. -/
theorem checkpoint_transparent_memos :
    ∃ live epoch after reopened, (initialDb .nested "db").runAll .nested memoOps = live ∧
      live.checkpoint .nested = (.ok epoch, after) ∧ Db.open .nested after.disk = .ok reopened ∧
      SameReads live reopened ∧
      after.replies .nested laterMemoOps = reopened.replies .nested laterMemoOps ∧
      SameReads (after.runAll .nested laterMemoOps) (reopened.runAll .nested laterMemoOps) := by
  have hcommits : ((initialDb .nested "db").commitAllShallow [] memoOps).any (fun live =>
      live.1.checkpointPayload.isShallow &&
        ((live.1.checkpointed .nested).commitAllShallow [] laterMemoOps).isSome) = true := by
    decide +kernel
  obtain ⟨⟨live, entries⟩, hcommits, hshallow⟩ := (Option.any_eq_true _ _).1 hcommits
  obtain ⟨hpayload, hlater⟩ := Bool.and_eq_true_iff.1 hshallow
  obtain ⟨⟨last, _⟩, hlater⟩ := Option.isSome_iff_exists.1 hlater
  have hback := readsBack_checkpoint hpayload
  obtain ⟨hrun, hsync⟩ := LegibleRun.of_commitAllShallow hcommits
  obtain ⟨hlive, -, -⟩ := (synced_initialDb "db").runAll_of_commitAllShallow hcommits
  obtain ⟨-, -, hlegible⟩ := (hsync.checkpointed_of hback).runAll_of_commitAllShallow hlater
  obtain ⟨⟨epoch, after, reopened, hcheckpoint, hopen, hreads, hops⟩, -⟩ :=
    checkpoint_transparent hrun hback
  obtain ⟨-, hafter⟩ := Prod.mk.inj (hsync.checkpoint_eq.symm.trans hcheckpoint)
  obtain ⟨hreplies, hlast⟩ := hops laterMemoOps (hafter ▸ hlegible)
  exact ⟨live, epoch, after, reopened, hlive, hcheckpoint, hopen, hreads, hreplies, hlast⟩

/-- A memo with 125 arrays inside each other: a request may hold it, a commit and a checkpoint may
not. -/
def deepMemo : RecordInput := memo "a" (Value.null.inArrays 125)

/-- The put of the deep memo is a small commit, and the checkpoint after it is not read back. -/
def Db.putsUnread (before : Db) (entries : List WalEntry) : Bool :=
  match before.plan .nested (.put deepMemo none) with
  | .ok (some plan) =>
    let live := before.committed .nested entries plan
    plan.commit.isSmall && !live.checkpointPayload.isShallow &&
      decide (0 < live.manifest.latestEpoch ∧ (live.manifest.schemas.map (·.name)).Nodup)
  | _ => false

/-- **A deep record is lost with the checkpoint**: it is put, and the checkpoint succeeds; the
directory does not open again. -/
theorem checkpoint_unreadable :
    ∃ reply live, Reachable .nested "db" live ∧
      ((initialDb .nested "db").runAll .nested [.applySchema memosSchema none]).run .nested
        (.put deepMemo none) = (.ok reply, live) ∧
      ∃ epoch after e, live.checkpoint .nested = (.ok epoch, after) ∧
        Db.open .nested after.disk = .error e := by
  have hcommits : ((initialDb .nested "db").commitAllShallow []
      [.applySchema memosSchema none]).any (fun before => before.1.putsUnread before.2) = true := by
    decide +kernel
  obtain ⟨⟨before, entries⟩, hcommits, hput⟩ := (Option.any_eq_true _ _).1 hcommits
  obtain ⟨hbefore, hsync, -⟩ := (synced_initialDb "db").runAll_of_commitAllShallow hcommits
  rw [Db.putsUnread] at hput
  split at hput
  · rename_i plan hplan
    simp only [Bool.and_eq_true, Bool.not_eq_true', decide_eq_true_eq] at hput
    obtain ⟨⟨hsmall, hdeep⟩, hpos, hnames⟩ := hput
    have hrun := hsync.run_of_fits hplan (fits_nested hsmall entries)
    have hreach : Reachable .nested "db" before :=
      hbefore ▸ (Reachable.opened (open_empty_eq "db")).runAll _
    obtain ⟨e, hopen⟩ := Db.open_unread hpos hnames
      (readCheckpointFile_of_unread (decode_deep_checkpoint hdeep) (by simp [Db.checkpointDisk]))
    exact ⟨plan.reply, _, hreach.of_run hrun, hbefore ▸ hrun, _, _, e,
      Db.checkpoint_of_sealed (sealed_sealManifest _) rfl, hopen⟩
  · cases hput

end TraceDB
