import TraceDB.Engine.Reads
import TraceDB.Engine.Sync
import TraceDB.Store.Tips

/-!
# Handles that cannot be told apart

`Alike a b` : the handles agree on epoch, schemas, receipts and jobs, and their stores have the same
tips.  Alike handles answer all reads alike (`Alike.sameReads`), decide alike on every operation
(`Alike.plan`), and with logs that hold the same entries they stay alike along every run
(`Alike.runAll`).
-/

namespace TraceDB

open Except (SameResult)

/-- Two handles with the same view of the data. -/
structure Alike (a b : Db) : Prop where
  latestEpoch : a.manifest.latestEpoch = b.manifest.latestEpoch
  schemas : a.manifest.schemas = b.manifest.schemas
  databaseId : a.manifest.databaseId = b.manifest.databaseId
  branchId : a.manifest.branchId = b.manifest.branchId
  idempotencyReceipts : a.idempotencyReceipts = b.idempotencyReceipts
  jobCatalog : a.jobCatalog = b.jobCatalog
  tips : SameTips a.manifest.latestEpoch a.store b.store

/-- Two planned writes that do the same to alike handles. -/
structure SamePlan (a b : Db) (p q : PlannedWrite) : Prop where
  commit : p.commit = q.commit
  jobCatalog : p.jobCatalog = q.jobCatalog
  reply : p.reply = q.reply
  tips : SameTips a.nextEpoch (a.store.applyDelta p.delta) (b.store.applyDelta q.delta)

/-- Two decisions that do the same. -/
def SameDecision (a b : Db) : Option PlannedWrite → Option PlannedWrite → Prop
  | none, none => True
  | some p, some q => SamePlan a b p q
  | _, _ => False

variable {F : EngineFormat} {a b : Db}

/-! ### Reads -/

theorem Alike.tips_right (h : Alike a b) : SameTips b.manifest.latestEpoch a.store b.store :=
  h.latestEpoch ▸ h.tips

/-- **Alike handles answer alike.** -/
theorem Alike.sameReads (h : Alike a b) : SameReads a b where
  latestEpoch := h.latestEpoch
  schemas := h.schemas
  get table tenantId id := by
    simp only [Db.get, h.schemas, h.latestEpoch, h.tips_right.getRecord]
  scan request := by
    simp only [Db.scan, h.schemas, h.latestEpoch, h.tips_right.visibleRecordsAt]
  featureState table tenantId recordId feature := by
    simp only [Db.featureState, h.latestEpoch, h.tips_right.featureState]
  isTombstoned table tenantId recordId := by
    simp only [Db.isTombstoned, h.latestEpoch, h.tips_right.isTombstonedAt]
  idempotencyReceipts := h.idempotencyReceipts
  jobCatalog := h.jobCatalog

/-! ### Decisions -/

namespace Alike

theorem nextEpoch (h : Alike a b) : a.nextEpoch = b.nextEpoch := by
  simp only [Db.nextEpoch, h.latestEpoch]

theorem emptyCommit (h : Alike a b) : a.emptyCommit = b.emptyCommit := by
  simp only [Db.emptyCommit, h.nextEpoch, h.databaseId, h.branchId]

theorem recordCommit (h : Alike a b) : a.recordCommit = b.recordCommit := by
  simp only [Db.recordCommit, h.emptyCommit, h.latestEpoch]

/-- The stores at the epoch of the next commit. -/
theorem nextTips (h : Alike a b) :
    SameTips a.nextEpoch (a.store.applyDelta .empty) (b.store.applyDelta .empty) := by
  rw [RecordStore.applyDelta_empty, RecordStore.applyDelta_empty]
  exact h.tips.mono (Nat.le_succ _)

theorem validateSchemaCompatible (h : Alike a b) (schema : TableSchema) :
    a.validateSchemaCompatible schema = b.validateSchemaCompatible schema := by
  simp only [Db.validateSchemaCompatible, h.schemas, h.latestEpoch, h.tips_right.snapshot]

theorem planSchema (h : Alike a b) (schema : TableSchema) (receipt : Option IdempotencyReceipt) :
    SameResult (SamePlan a b) (a.planSchema schema receipt) (b.planSchema schema receipt) := by
  unfold Db.planSchema
  rw [h.validateSchemaCompatible]
  refine SameResult.refl.bind fun _ _ _ => SameResult.refl.bind fun _ _ _ => ?_
  refine ⟨?_, rfl, ?_, h.nextTips⟩
  · simp only [h.emptyCommit, h.nextEpoch]
  · simp only [h.nextEpoch]

theorem planMerge (h : Alike a b) (event : String) (input : RecordInput)
    (receipt : Option IdempotencyReceipt) :
    SameResult (SamePlan a b) (a.planMerge F event input receipt)
      (b.planMerge F event input receipt) := by
  unfold Db.planMerge
  rw [h.schemas, ← h.nextEpoch]
  refine SameResult.refl.bind fun schema schema' heq => ?_
  subst heq
  have htips := h.nextTips.planAt (tipWrite_mutateVersions (sourceHash F) schema input (le_refl _))
  refine SameResult.bind htips fun delta delta' hdelta => ?_
  refine ⟨?_, rfl, rfl, hdelta⟩
  simp only [h.recordCommit]

theorem planPut (h : Alike a b) (input : RecordInput) (receipt : Option IdempotencyReceipt) :
    SameResult (SamePlan a b) (a.planPut F input receipt) (b.planPut F input receipt) := by
  unfold Db.planPut
  rw [h.schemas, ← h.nextEpoch]
  refine SameResult.refl.bind fun schema schema' heq => ?_
  subst heq
  have htips := h.nextTips.planAt (tipWrite_replaceVersions (sourceHash F) schema input (le_refl _))
  refine SameResult.bind htips fun delta delta' hdelta => ?_
  refine ⟨?_, rfl, rfl, hdelta⟩
  simp only [h.recordCommit]

theorem planPutBatch (h : Alike a b) (records : List RecordInput)
    (receipt : Option IdempotencyReceipt) :
    SameResult (SamePlan a b) (a.planPutBatch F records receipt)
      (b.planPutBatch F records receipt) := by
  unfold Db.planPutBatch
  by_cases hnil : records = []
  · simp only [hnil, if_true]
    exact rfl
  · simp only [hnil, if_false, ← h.nextEpoch]
    -- The loops agree on everything but the deltas, which lead to the same tips.
    have hloop := SameResult.foldlM
      (R := fun (x y : Db.Batch) =>
        SameTips a.nextEpoch (a.store.applyDelta x.delta) (b.store.applyDelta y.delta) ∧
          x.featureInvalidations = y.featureInvalidations ∧ x.moduleEvents = y.moduleEvents)
      (f := a.planBatchRecord F) (g := b.planBatchRecord F) (fun x y input hxy => by
        obtain ⟨htips, hinv, hevents⟩ := hxy
        unfold Db.planBatchRecord
        rw [h.schemas, ← h.nextEpoch]
        refine SameResult.refl.bind fun schema schema' heq => ?_
        subst heq
        have hplan := htips.planAt
          (tipWrite_replaceVersions (sourceHash F) schema input (le_refl _))
        refine SameResult.bind hplan fun delta delta' hdelta => ?_
        exact ⟨hdelta, by simp only [hinv], by simp only [hevents]⟩)
      records (s := ⟨.empty, [], []⟩) (t := ⟨.empty, [], []⟩) ⟨h.nextTips, rfl, rfl⟩
    refine hloop.bind fun x y hxy => ?_
    obtain ⟨htips, hinv, hevents⟩ := hxy
    refine ⟨?_, rfl, rfl, htips⟩
    simp only [h.recordCommit, hinv, hevents]

theorem planDelete (h : Alike a b) (deletion : RecordDeletion)
    (receipt : Option IdempotencyReceipt) :
    SameResult (SamePlan a b) (a.planDelete deletion receipt) (b.planDelete deletion receipt) := by
  unfold Db.planDelete
  rw [h.schemas, ← h.nextEpoch]
  refine SameResult.refl.bind fun schema schema' heq => ?_
  subst heq
  have htips := h.nextTips.planAt (tipWrite_deleteVersions schema deletion (le_refl _))
  refine SameResult.bind htips fun delta delta' hdelta => ?_
  refine ⟨?_, rfl, rfl, hdelta⟩
  simp only [h.recordCommit]

theorem planFeatureStatus (h : Alike a b) (invalidation : FeatureInvalidation) :
    SameResult (SamePlan a b) (a.planFeatureStatus invalidation)
      (b.planFeatureStatus invalidation) := by
  unfold Db.planFeatureStatus
  rw [h.schemas, ← h.nextEpoch]
  refine SameResult.refl.bind fun schema schema' heq => ?_
  subst heq
  split_ifs
  · exact rfl
  · have htips := h.nextTips.planAt (tipWrite_invalidateVersions (e := a.nextEpoch) invalidation)
    refine SameResult.bind htips fun delta delta' hdelta => ?_
    refine ⟨?_, rfl, rfl, hdelta⟩
    simp only [h.recordCommit]

theorem planReceipt (h : Alike a b) (receipt : IdempotencyReceipt) :
    SamePlan a b (a.planReceipt receipt) (b.planReceipt receipt) := by
  refine ⟨?_, rfl, ?_, h.nextTips⟩
  · simp only [Db.planReceipt, h.recordCommit]
  · simp only [Db.planReceipt, h.nextEpoch]

theorem planJobEvent (h : Alike a b) (event : JobEvent) (planned : JobCatalog) (reply : Reply) :
    SamePlan a b (a.planJobEvent event planned reply) (b.planJobEvent event planned reply) := by
  refine ⟨?_, rfl, rfl, h.nextTips⟩
  simp only [Db.planJobEvent, h.recordCommit]

/-- **Alike handles decide alike.** -/
theorem plan (h : Alike a b) (op : Op) :
    SameResult (SameDecision a b) (a.plan F op) (b.plan F op) := by
  have hsome : ∀ {x y : Result PlannedWrite}, SameResult (SamePlan a b) x y →
      SameResult (SameDecision a b) (some <$> x) (some <$> y) := by
    intro x y hxy
    cases x with
    | error e =>
      cases y with
      | error e' => exact hxy
      | ok q => exact hxy
    | ok p =>
      cases y with
      | error e' => exact hxy
      | ok q => exact hxy
  cases op with
  | applySchema schema receipt => exact hsome (h.planSchema schema receipt)
  | insert input receipt => exact hsome (h.planMerge _ input receipt)
  | put input receipt => exact hsome (h.planPut input receipt)
  | putBatch records receipt => exact hsome (h.planPutBatch records receipt)
  | patch input receipt => exact hsome (h.planMerge _ input receipt)
  | delete deletion receipt => exact hsome (h.planDelete deletion receipt)
  | setFeatureStatus invalidation =>
    simp only [Db.plan]
    split_ifs
    · exact rfl
    · exact hsome (h.planFeatureStatus invalidation)
  | recordIdempotencyReceipt receipt => exact h.planReceipt receipt
  | enqueueJob kind target key =>
    simp only [Db.plan, h.jobCatalog]
    exact h.planJobEvent _ _ _
  | leaseJob workerId kind nowMs leaseMs =>
    simp only [Db.plan, h.jobCatalog]
    rcases b.jobCatalog.leaseNextAt workerId kind nowMs leaseMs with ⟨planned, _ | job⟩
    · exact trivial
    · exact h.planJobEvent _ _ _
  | heartbeatJob jobId token nowMs leaseMs =>
    simp only [Db.plan, h.jobCatalog]
    rcases b.jobCatalog.heartbeat jobId token nowMs leaseMs with e | ⟨planned, job⟩
    · exact rfl
    · exact h.planJobEvent _ _ _
  | completeJob jobId token =>
    simp only [Db.plan, h.jobCatalog]
    rcases b.jobCatalog.complete jobId (some token) with e | ⟨planned, job⟩
    · exact rfl
    · exact h.planJobEvent _ _ _
  | failJob jobId token error permanent nowMs =>
    simp only [Db.plan, h.jobCatalog]
    rcases b.jobCatalog.fail jobId token error permanent nowMs with e | ⟨planned, job⟩
    · exact rfl
    · exact h.planJobEvent _ _ _

/-! ### Runs -/

variable {entries : List WalEntry}

theorem committed (h : Alike a b) {op : Op} {p q : PlannedWrite} (hplan : SamePlan a b p q)
    (ha : a.plan F op = .ok (some p)) :
    Alike (a.committed F entries p) (b.committed F entries q) where
  latestEpoch := congrArg CommitRecord.epoch hplan.commit
  schemas := by
    show p.commit.schemaChanges.foldl upsertSchema a.manifest.schemas =
      q.commit.schemaChanges.foldl upsertSchema b.manifest.schemas
    rw [hplan.commit, h.schemas]
  databaseId := h.databaseId
  branchId := h.branchId
  idempotencyReceipts := by
    show a.idempotencyReceipts ++ p.commit.idempotencyReceipts =
      b.idempotencyReceipts ++ q.commit.idempotencyReceipts
    rw [hplan.commit, h.idempotencyReceipts]
  jobCatalog := by
    show p.jobCatalog.getD a.jobCatalog = q.jobCatalog.getD b.jobCatalog
    rw [hplan.jobCatalog, h.jobCatalog]
  tips := by
    have hepoch : (a.committed F entries p).manifest.latestEpoch = a.nextEpoch :=
      (stamped_plan ha).epoch
    rw [hepoch]
    exact hplan.tips

/-- One operation on alike handles whose logs hold the same entries. -/
theorem run (h : Alike a b) (ha : Synced F a entries) (hb : Synced F b entries) {op : Op}
    (hlegible : a.Legible F op) :
    (a.run F op).1 = (b.run F op).1 ∧ Alike (a.run F op).2 (b.run F op).2 ∧
      ∃ entries', Synced F (a.run F op).2 entries' ∧ Synced F (b.run F op).2 entries' := by
  have hdecision := h.plan (F := F) op
  rw [ha.run_eq, hb.run_eq]
  cases hp : a.plan F op with
  | error e =>
    cases hq : b.plan F op with
    | error e' =>
      rw [hp, hq] at hdecision
      obtain rfl : e = e' := hdecision
      exact ⟨rfl, h, entries, ha, hb⟩
    | ok q =>
      rw [hp, hq] at hdecision
      exact hdecision.elim
  | ok p =>
    cases hq : b.plan F op with
    | error e' =>
      rw [hp, hq] at hdecision
      exact hdecision.elim
    | ok q =>
      rw [hp, hq] at hdecision
      rcases p with _ | p <;> rcases q with _ | q
      · exact ⟨rfl, h, entries, ha, hb⟩
      · exact hdecision.elim
      · exact hdecision.elim
      · have hsame : SamePlan a b p q := hdecision
        by_cases hfit : Fits F.toWalFormat entries p.commit
        · have hstamp := stamped_plan hp
          have hfit' : Fits F.toWalFormat entries q.commit := hsame.commit ▸ hfit
          have hstamp' := stamped_plan hq
          have hback := ha.readBack_plan hlegible hp
          have hb' := hb.committed hstamp'.engine hstamp'.epoch hfit' (hsame.commit ▸ hback)
          rw [← hsame.commit] at hb'
          rw [Db.outcome, Db.outcome, if_pos hfit, if_pos hfit']
          exact ⟨congrArg Except.ok hsame.reply, h.committed hsame hp, _,
            ha.committed hstamp.engine hstamp.epoch hfit hback, hb'⟩
        · rw [Db.outcome, Db.outcome, ← hsame.commit, if_neg hfit, if_neg hfit]
          exact ⟨rfl, h, entries, ha, hb⟩

/-- **Alike handles cannot be told apart**: every run has the same answers on both, and leaves both
with the same reads. -/
theorem runAll (h : Alike a b) (ha : Synced F a entries) (hb : Synced F b entries) {ops : List Op}
    (hlegible : a.LegibleRuns F ops) :
    a.replies F ops = b.replies F ops ∧ SameReads (a.runAll F ops) (b.runAll F ops) := by
  induction ops generalizing a b entries with
  | nil => exact ⟨rfl, h.sameReads⟩
  | cons op ops ih =>
    obtain ⟨hreply, halike, entries', ha', hb'⟩ := h.run ha hb hlegible.1
    obtain ⟨hreplies, hreads⟩ := ih halike ha' hb' hlegible.2
    exact ⟨by rw [Db.replies, Db.replies, hreply, hreplies], hreads⟩

end Alike

end TraceDB
