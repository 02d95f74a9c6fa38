import TraceDB.Engine.Crash
import TraceDB.Engine.Reads
import TraceDB.Engine.Reference
import TraceDB.Store.Replay

/-!
# Recovery and the live state

A live handle plans each write against the schemas and the store of the moment; `open` folds all
commits of the log through `applyCommits`, with the schemas of the end.

* `Db.Replayable` : the steps for which the two paths agree.  A schema change must keep the columns
  that record writes depend on once the table has records, a batch must not invalidate a feature
  that its last record for the key settles, and an invalidation must name its tenant.
* `Replays` : the invariant, that replaying the log gives the live store, jobs and receipts.
* `reopen_shows_live` : a run of replayable steps, reopened, shows what the live handle showed.
* `reopen_differs_after_batch` : a batch that is not replayable, after which it does not.
-/

namespace TraceDB

variable {F : EngineFormat}

/-! ### Steps that replay to the same state -/

namespace Db

variable (db : Db)

/-- The feature invalidations that a record brings into its commit. -/
def invalidationsOf (input : RecordInput) : List FeatureInvalidation :=
  match findTable db.manifest.schemas input.table with
  | none => []
  | some schema => featureInvalidationsForMutation schema input

/-- The invalidations of the record name their tenant.  Replay takes one with a blank tenant for an
invalidation of an old log, and looks for the tenant elsewhere. -/
def NamesTenant (input : RecordInput) : Prop :=
  Text.isBlank input.tenantId = true → db.invalidationsOf input = []

/-- What one record of a batch invalidates, the last record of the same key invalidates too. -/
def LastInvalidates (records : List RecordInput) : Prop :=
  ∀ input ∈ records, ∀ invalidation ∈ db.invalidationsOf input, ∀ last,
    records.findLast? (fun other => decide (other.key = input.key)) = some last →
      ∃ other ∈ db.invalidationsOf last, other.feature = invalidation.feature

/-- The operation replays to what it does live. -/
def Replayable : Op → Prop
  | .applySchema schema _ => db.store.HoldsTable schema.name →
      ∀ existing, findTable db.manifest.schemas schema.name = some existing →
        existing.SameWrites schema
  | .insert input _ | .put input _ | .patch input _ => db.NamesTenant input
  | .putBatch records _ => (∀ input ∈ records, db.NamesTenant input) ∧ db.LastInvalidates records
  | _ => True

end Db

/-- All operations of a run are replayable at the handle they meet. -/
def ReplayableRun (F : EngineFormat) (db : Db) : List Op → Prop
  | [] => True
  | op :: ops => db.Replayable op ∧ ReplayableRun F (db.run F op).2 ops

/-! ### What one plan replays to -/

/-- The commit of a plan replays to the changes of the plan. -/
structure PlanReplays (F : EngineFormat) (db : Db) (plan : PlannedWrite) : Prop where
  store : db.store.applyCommit (sourceHash F)
    (plan.commit.schemaChanges.foldl upsertSchema db.manifest.schemas) plan.commit =
      .ok (db.store.applyDelta plan.delta)
  jobs : plan.commit.jobEvents.foldlM replayJobEvent db.jobCatalog =
    .ok (plan.jobCatalog.getD db.jobCatalog)
  jobsInv : (plan.jobCatalog.getD db.jobCatalog).Inv
  wellFormed : ∀ schema ∈ plan.commit.schemaChanges.foldl upsertSchema db.manifest.schemas,
    schema.WellFormed
  sameWrites : ∀ tables, (∀ table ∈ tables, db.store.HoldsTable table) →
    SameWritesOn tables db.manifest.schemas
      (plan.commit.schemaChanges.foldl upsertSchema db.manifest.schemas)

theorem wellFormed_of_tableOrUnknown {schemas : List TableSchema}
    (h : ∀ schema ∈ schemas, schema.WellFormed) {table : String} {schema : TableSchema}
    (hfind : tableOrUnknown schemas table = .ok schema) : schema.WellFormed :=
  h schema (List.mem_of_find?_eq_some (tableOrUnknown_eq_ok.1 hfind))

theorem sameWritesOn_refl {schemas : List TableSchema} (h : ∀ schema ∈ schemas, schema.WellFormed)
    (tables : List String) : SameWritesOn tables schemas schemas := by
  intro table _ schema hfind
  exact ⟨(wellFormed_of_tableOrUnknown h hfind).vectorNames, schema, hfind, rfl, rfl, rfl, .refl _⟩

namespace PlanReplays

variable {db : Db} {plan : PlannedWrite}

/-- Plans without schema changes. -/
theorem of_records (hschemas : ∀ schema ∈ db.manifest.schemas, schema.WellFormed)
    (hjobs : db.jobCatalog.Inv) (hchanges : plan.commit.schemaChanges = [])
    (hevents : plan.commit.jobEvents = []) (hcatalog : plan.jobCatalog = none)
    (hstore : db.store.applyCommit (sourceHash F) db.manifest.schemas plan.commit =
      .ok (db.store.applyDelta plan.delta)) : PlanReplays F db plan where
  store := by
    rw [hchanges]
    exact hstore
  jobs := by
    rw [hevents, hcatalog]
    rfl
  jobsInv := by
    rw [hcatalog]
    exact hjobs
  wellFormed := by
    rw [hchanges]
    exact hschemas
  sameWrites tables _ := by
    rw [hchanges]
    exact sameWritesOn_refl hschemas tables

end PlanReplays

namespace Db

variable {db : Db}

theorem mem_invalidationsOf {input : RecordInput} {invalidation : FeatureInvalidation}
    (h : invalidation ∈ db.invalidationsOf input) :
    ∃ schema vector, tableOrUnknown db.manifest.schemas input.table = .ok schema ∧
      vector ∈ dirtiedColumns schema input ∧
      invalidation = ⟨input.table, input.tenantId, input.id, vector.name, .dirty⟩ := by
  unfold invalidationsOf at h
  cases hfind : findTable db.manifest.schemas input.table with
  | none => simp [hfind] at h
  | some schema =>
    simp only [hfind] at h
    obtain ⟨vector, hvector, rfl⟩ := List.mem_map.1 h
    exact ⟨schema, vector, tableOrUnknown_eq_ok.2 hfind, hvector, rfl⟩

theorem invalidationsOf_eq {input : RecordInput} {schema : TableSchema}
    (h : tableOrUnknown db.manifest.schemas input.table = .ok schema) :
    db.invalidationsOf input = featureInvalidationsForMutation schema input := by
  simp only [invalidationsOf, tableOrUnknown_eq_ok.1 h]

theorem NamesTenant.isBlank {input : RecordInput} (h : db.NamesTenant input)
    {invalidation : FeatureInvalidation} (hmem : invalidation ∈ db.invalidationsOf input) :
    Text.isBlank input.tenantId = false := by
  by_contra hblank
  rw [h (Bool.eq_true_of_not_eq_false hblank)] at hmem
  cases hmem

/-- `insert` and `patch`. -/
theorem replays_planMerge (hschemas : ∀ schema ∈ db.manifest.schemas, schema.WellFormed)
    (hjobs : db.jobCatalog.Inv) {event : String} {input : RecordInput}
    {receipt : Option IdempotencyReceipt} {plan : PlannedWrite} (hnames : db.NamesTenant input)
    (hplan : db.planMerge F event input receipt = .ok plan) : PlanReplays F db plan := by
  simp only [planMerge, Except.bind_eq_ok_iff] at hplan
  obtain ⟨schema, hschema, delta, hdelta, heq⟩ := hplan
  obtain rfl := Except.ok.inj heq
  refine .of_records hschemas hjobs rfl rfl rfl ?_
  have happly : db.store.applyMutation (sourceHash F) schema input db.nextEpoch =
      .ok (db.store.applyDelta delta) := RecordStore.applyAt_of_planAt hdelta
  have hnodup := (wellFormed_of_tableOrUnknown hschemas hschema).vectorNames
  simp only [RecordStore.applyCommit, recordCommit, emptyCommit, CommitRecord.forDatabase,
    CommitRecord.empty, List.foldlM_nil, Except.pure_eq_ok, Except.ok_bind, List.foldlM_cons,
    hschema, happly]
  refine replayInvalidations_of_dirty fun invalidation hmem => ?_
  rw [← invalidationsOf_eq hschema] at hmem
  have hblank := hnames.isBlank hmem
  obtain ⟨schema', vector, hschema', hvector, rfl⟩ := mem_invalidationsOf hmem
  obtain rfl := Except.ok.inj (hschema'.symm.trans hschema)
  exact ⟨applyMutation_dirty hnodup happly hvector, hblank, rfl⟩

theorem replays_planPut (hschemas : ∀ schema ∈ db.manifest.schemas, schema.WellFormed)
    (hjobs : db.jobCatalog.Inv) {input : RecordInput} {receipt : Option IdempotencyReceipt}
    {plan : PlannedWrite} (hnames : db.NamesTenant input)
    (hplan : db.planPut F input receipt = .ok plan) : PlanReplays F db plan := by
  simp only [planPut, Except.bind_eq_ok_iff] at hplan
  obtain ⟨schema, hschema, delta, hdelta, heq⟩ := hplan
  obtain rfl := Except.ok.inj heq
  refine .of_records hschemas hjobs rfl rfl rfl ?_
  have happly : db.store.applyReplacement (sourceHash F) schema input db.nextEpoch =
      .ok (db.store.applyDelta delta) := RecordStore.applyAt_of_planAt hdelta
  have hnodup := (wellFormed_of_tableOrUnknown hschemas hschema).vectorNames
  simp only [RecordStore.applyCommit, recordCommit, emptyCommit, CommitRecord.forDatabase,
    CommitRecord.empty, List.foldlM_nil, Except.pure_eq_ok, Except.ok_bind, List.foldlM_cons,
    hschema, happly]
  refine replayInvalidations_of_dirty fun invalidation hmem => ?_
  rw [← invalidationsOf_eq hschema] at hmem
  have hblank := hnames.isBlank hmem
  obtain ⟨schema', vector, hschema', hvector, rfl⟩ := mem_invalidationsOf hmem
  obtain rfl := Except.ok.inj (hschema'.symm.trans hschema)
  exact ⟨applyReplacement_dirty hnodup happly hvector, hblank, rfl⟩

/-- The loop of `put_batch` plans what replaying its records does. -/
theorem planBatchRecord_spec {records : List RecordInput} {batch : Batch}
    (h : records.foldlM (db.planBatchRecord F) ⟨.empty, [], []⟩ = .ok batch) :
    applyReplacements (sourceHash F) db.manifest.schemas db.nextEpoch db.store records =
        .ok (db.store.applyDelta batch.delta) ∧
      batch.featureInvalidations = records.flatMap db.invalidationsOf := by
  induction records using List.reverseRecOn generalizing batch with
  | nil =>
    obtain rfl : _ = batch := Except.ok.inj h
    refine ⟨?_, rfl⟩
    rw [RecordStore.applyDelta_empty]
    rfl
  | append_singleton records input ih =>
    rw [Except.foldlM_append, Except.bind_eq_ok_iff] at h
    obtain ⟨middle, hmiddle, hlast⟩ := h
    simp only [List.foldlM_cons, List.foldlM_nil, Except.bind_eq_ok_iff, planBatchRecord] at hlast
    obtain ⟨final, ⟨schema, hschema, delta, hdelta, heq⟩, hfinal⟩ := hlast
    obtain rfl : final = batch := Except.ok.inj hfinal
    obtain rfl := Except.ok.inj heq
    obtain ⟨happly, hinvalidations⟩ := ih hmiddle
    constructor
    · have hstep := RecordStore.applyDelta_planAt db.store middle.delta
        (recordKey input.table input.tenantId input.id)
        (replaceVersions (sourceHash F) schema input db.nextEpoch)
      rw [show db.store.planAt middle.delta _ _ = .ok delta from hdelta] at hstep
      rw [applyReplacements, Except.foldlM_append]
      rw [applyReplacements] at happly
      rw [happly, Except.ok_bind, List.foldlM_cons, hschema]
      simp only [Except.ok_bind, RecordStore.applyReplacement, ← hstep]
      rfl
    · rw [List.flatMap_append, List.flatMap_singleton, ← hinvalidations,
        invalidationsOf_eq hschema]

/-- `put_batch`. -/
theorem replays_planPutBatch (hschemas : ∀ schema ∈ db.manifest.schemas, schema.WellFormed)
    (hjobs : db.jobCatalog.Inv) {records : List RecordInput} {receipt : Option IdempotencyReceipt}
    {plan : PlannedWrite} (hnames : ∀ input ∈ records, db.NamesTenant input)
    (hlast : db.LastInvalidates records)
    (hplan : db.planPutBatch F records receipt = .ok plan) : PlanReplays F db plan := by
  simp only [planPutBatch, Except.guard_eq_ok_iff, Except.bind_eq_ok_iff] at hplan
  obtain ⟨-, batch, hbatch, heq⟩ := hplan
  obtain rfl := Except.ok.inj heq
  refine .of_records hschemas hjobs rfl rfl rfl ?_
  obtain ⟨happly, hinvalidations⟩ := planBatchRecord_spec hbatch
  have hreplaced := happly
  rw [applyReplacements] at happly
  simp only [RecordStore.applyCommit, recordCommit, emptyCommit, CommitRecord.forDatabase,
    CommitRecord.empty, List.foldlM_nil, Except.pure_eq_ok, Except.ok_bind, happly]
  refine replayInvalidations_of_dirty fun invalidation hmem => ?_
  rw [hinvalidations] at hmem
  obtain ⟨input, hinput, hmem⟩ := List.mem_flatMap.1 hmem
  have hblank := (hnames input hinput).isBlank hmem
  obtain ⟨last, hfind⟩ : ∃ last, records.findLast? (fun other => decide (other.key = input.key)) =
      some last := by
    rw [← Option.ne_none_iff_exists', ne_eq, List.findLast?_eq_none]
    exact fun hnone => hnone input hinput (by simp)
  obtain ⟨other, hother, hfeature⟩ := hlast input hinput invalidation hmem last hfind
  obtain ⟨_, _, -, -, rfl⟩ := mem_invalidationsOf hmem
  obtain ⟨schema, vector, hschema, hvector, rfl⟩ := mem_invalidationsOf hother
  have hdirty := applyReplacements_dirty
    (fun table schema hfind => (wellFormed_of_tableOrUnknown hschemas hfind).vectorNames)
    hreplaced hfind hschema hvector
  exact ⟨hfeature ▸ hdirty, hblank, rfl⟩

theorem replays_planDelete (hschemas : ∀ schema ∈ db.manifest.schemas, schema.WellFormed)
    (hjobs : db.jobCatalog.Inv) {deletion : RecordDeletion} {receipt : Option IdempotencyReceipt}
    {plan : PlannedWrite} (hplan : db.planDelete deletion receipt = .ok plan) :
    PlanReplays F db plan := by
  simp only [planDelete, Except.bind_eq_ok_iff] at hplan
  obtain ⟨schema, hschema, delta, hdelta, heq⟩ := hplan
  obtain rfl := Except.ok.inj heq
  refine .of_records hschemas hjobs rfl rfl rfl ?_
  have happly : db.store.applyDelete schema deletion db.nextEpoch =
      .ok (db.store.applyDelta delta) := RecordStore.applyAt_of_planAt hdelta
  simp only [RecordStore.applyCommit, recordCommit, emptyCommit, CommitRecord.forDatabase,
    CommitRecord.empty, List.foldlM_nil, Except.pure_eq_ok, Except.ok_bind, List.foldlM_cons,
    hschema, happly]

theorem replays_planFeatureStatus (hschemas : ∀ schema ∈ db.manifest.schemas, schema.WellFormed)
    (hjobs : db.jobCatalog.Inv) {invalidation : FeatureInvalidation} {plan : PlannedWrite}
    (hblank : Text.isBlank invalidation.tenantId = false)
    (hplan : db.planFeatureStatus invalidation = .ok plan) : PlanReplays F db plan := by
  simp only [planFeatureStatus, Except.bind_eq_ok_iff, Except.guard_eq_ok_iff] at hplan
  obtain ⟨schema, hschema, -, delta, hdelta, heq⟩ := hplan
  obtain rfl := Except.ok.inj heq
  refine .of_records hschemas hjobs rfl rfl rfl ?_
  have happly : db.store.applyFeatureInvalidation invalidation db.nextEpoch =
      .ok (db.store.applyDelta delta) := RecordStore.applyAt_of_planAt hdelta
  simp only [RecordStore.applyCommit, recordCommit, emptyCommit, CommitRecord.forDatabase,
    CommitRecord.empty, List.foldlM_nil, Except.pure_eq_ok, Except.ok_bind, List.foldlM_cons,
    RecordStore.replayInvalidation, hblank, Bool.false_eq_true, if_false, happly]

theorem replays_planSchema (hschemas : ∀ schema ∈ db.manifest.schemas, schema.WellFormed)
    (hjobs : db.jobCatalog.Inv) {schema : TableSchema} {receipt : Option IdempotencyReceipt}
    {plan : PlannedWrite}
    (hkeeps : db.store.HoldsTable schema.name → ∀ existing,
      findTable db.manifest.schemas schema.name = some existing → existing.SameWrites schema)
    (hplan : db.planSchema schema receipt = .ok plan) : PlanReplays F db plan := by
  simp only [planSchema, Except.bind_eq_ok_iff] at hplan
  obtain ⟨_, hvalid, _, -, heq⟩ := hplan
  obtain rfl := Except.ok.inj heq
  refine ⟨?_, rfl, hjobs, ?_, ?_⟩
  · rw [RecordStore.applyDelta_empty]
    rfl
  · intro other hother
    rcases mem_upsertSchema hother with rfl | hmem
    · exact TableSchema.validate_spec hvalid
    · exact hschemas other hmem
  · -- Only the table of the change has another schema, and that one writes the same.
    intro tables hholds table htable existing hexisting
    refine ⟨(wellFormed_of_tableOrUnknown hschemas hexisting).vectorNames, ?_⟩
    simp only [List.foldl_cons, List.foldl_nil, tableOrUnknown_eq_ok, findTable_upsertSchema]
    rw [tableOrUnknown_eq_ok] at hexisting
    by_cases hname : schema.name = table
    · subst hname
      exact ⟨schema, if_pos rfl, hkeeps (hholds _ htable) existing hexisting⟩
    · rw [if_neg hname]
      exact ⟨existing, hexisting, rfl, rfl, rfl, .refl _⟩

theorem replays_planReceipt (hschemas : ∀ schema ∈ db.manifest.schemas, schema.WellFormed)
    (hjobs : db.jobCatalog.Inv) (receipt : IdempotencyReceipt) :
    PlanReplays F db (db.planReceipt receipt) := by
  refine .of_records hschemas hjobs rfl rfl rfl ?_
  rw [planReceipt, RecordStore.applyDelta_empty]
  rfl

/-- A job event replays to the catalog it was planned with. -/
theorem replays_planJobEvent (hschemas : ∀ schema ∈ db.manifest.schemas, schema.WellFormed)
    {event : JobEvent} {planned : JobCatalog} {reply : Reply}
    (hevent : db.jobCatalog.applyEvent event = .ok planned ∧ planned.Inv) :
    PlanReplays F db (db.planJobEvent event planned reply) where
  store := by
    rw [planJobEvent, RecordStore.applyDelta_empty]
    rfl
  jobs := by
    simp only [planJobEvent, List.foldlM_cons, List.foldlM_nil, replayJobEvent, hevent.1,
      Except.mapError, Except.ok_bind]
    rfl
  jobsInv := hevent.2
  wellFormed := hschemas
  sameWrites := fun tables _ => sameWritesOn_refl hschemas tables

/-- **What a replayable operation commits, replays to what it planned.** -/
theorem replays_plan (hschemas : ∀ schema ∈ db.manifest.schemas, schema.WellFormed)
    (hjobs : db.jobCatalog.Inv) {op : Op} {plan : PlannedWrite} (hop : db.Replayable op)
    (hplan : db.plan F op = .ok (some plan)) : PlanReplays F db plan := by
  have hsome : ∀ {x : Result PlannedWrite}, some <$> x = .ok (some plan) → x = .ok plan := by
    intro x hx
    cases x with
    | error e => cases hx
    | ok planned => exact congrArg _ (Option.some.inj (Except.ok.inj hx))
  cases op with
  | applySchema schema receipt => exact replays_planSchema hschemas hjobs hop (hsome hplan)
  | insert input receipt => exact replays_planMerge hschemas hjobs hop (hsome hplan)
  | put input receipt => exact replays_planPut hschemas hjobs hop (hsome hplan)
  | putBatch records receipt =>
    exact replays_planPutBatch hschemas hjobs hop.1 hop.2 (hsome hplan)
  | patch input receipt => exact replays_planMerge hschemas hjobs hop (hsome hplan)
  | delete deletion receipt => exact replays_planDelete hschemas hjobs (hsome hplan)
  | setFeatureStatus invalidation =>
    simp only [Db.plan, Except.guard_eq_ok_iff] at hplan
    exact replays_planFeatureStatus hschemas hjobs (Bool.eq_false_of_not_eq_true hplan.1)
      (hsome hplan.2)
  | recordIdempotencyReceipt receipt =>
    obtain rfl := Option.some.inj (Except.ok.inj hplan)
    exact replays_planReceipt hschemas hjobs receipt
  | enqueueJob kind target key =>
    obtain rfl := Option.some.inj (Except.ok.inj hplan)
    exact replays_planJobEvent hschemas (JobCatalog.applyEvent_enqueue hjobs kind target key)
  | leaseJob workerId kind nowMs leaseMs =>
    simp only [Db.plan] at hplan
    split at hplan
    · cases hplan
    · rename_i planned job hlease
      obtain rfl := Option.some.inj (Except.ok.inj hplan)
      exact replays_planJobEvent hschemas (JobCatalog.applyEvent_lease hjobs hlease)
  | heartbeatJob jobId token nowMs leaseMs =>
    simp only [Db.plan] at hplan
    split at hplan
    · cases hplan
    · rename_i planned job hbeat
      obtain rfl := Option.some.inj (Except.ok.inj hplan)
      exact replays_planJobEvent hschemas (JobCatalog.applyEvent_heartbeat hjobs hbeat)
  | completeJob jobId token =>
    simp only [Db.plan] at hplan
    split at hplan
    · cases hplan
    · rename_i planned job hcomplete
      obtain rfl := Option.some.inj (Except.ok.inj hplan)
      exact replays_planJobEvent hschemas (JobCatalog.applyEvent_complete hjobs hcomplete)
  | failJob jobId token error permanent nowMs =>
    simp only [Db.plan] at hplan
    split at hplan
    · cases hplan
    · rename_i planned job hfail
      obtain rfl := Option.some.inj (Except.ok.inj hplan)
      exact replays_planJobEvent hschemas (JobCatalog.applyEvent_fail hjobs hfail)

end Db

/-! ### Runs -/

/-- Replaying the commits of the log gives the live state. -/
structure Replays (F : EngineFormat) (db : Db) (commits : List CommitRecord) : Prop where
  store : RecordStore.empty.applyCommits (sourceHash F) db.manifest.schemas commits = .ok db.store
  jobs : (commits.flatMap (·.jobEvents)).foldlM replayJobEvent .empty = .ok db.jobCatalog
  jobsInv : db.jobCatalog.Inv
  receipts : db.idempotencyReceipts = commits.flatMap (·.idempotencyReceipts)
  wellFormed : ∀ schema ∈ db.manifest.schemas, schema.WellFormed
  checkpoint : db.manifest.checkpointEpoch = 0

/-- One committed step keeps the invariant. -/
theorem Replays.committed {db : Db} {commits : List CommitRecord} (h : Replays F db commits)
    {plan : PlannedWrite} (hplan : PlanReplays F db plan) (entries : List WalEntry) :
    Replays F (db.committed F entries plan)
      (commits ++ [(nextEntry F.toWalFormat entries plan.commit).commit]) where
  store := by
    -- The log so far is replayed under the new schemas, which write the same on its tables.
    have hold : RecordStore.empty.applyCommits (sourceHash F)
        (plan.commit.schemaChanges.foldl upsertSchema db.manifest.schemas) commits =
          .ok db.store := by
      have hholds := holdsTable_of_applyCommits h.store
      refine Except.foldlM_congr_ok h.store fun s commit s' hcommit hs => ?_
      exact applyCommit_congr (hplan.sameWrites commit.tables (hholds commit hcommit)) hs
    show RecordStore.empty.applyCommits (sourceHash F)
      (plan.commit.schemaChanges.foldl upsertSchema db.manifest.schemas) _ = _
    rw [RecordStore.applyCommits] at hold
    rw [RecordStore.applyCommits, Except.foldlM_append, hold, Except.ok_bind, List.foldlM_cons]
    have hnew := hplan.store
    rw [show db.store.applyCommit (sourceHash F)
      (plan.commit.schemaChanges.foldl upsertSchema db.manifest.schemas)
      (nextEntry F.toWalFormat entries plan.commit).commit = _ from hnew]
    rfl
  jobs := by
    rw [List.flatMap_append, List.flatMap_singleton, Except.foldlM_append, h.jobs, Except.ok_bind]
    exact hplan.jobs
  jobsInv := hplan.jobsInv
  receipts := by
    rw [List.flatMap_append, List.flatMap_singleton, ← h.receipts]
    rfl
  wellFormed := hplan.wellFormed
  checkpoint := h.checkpoint

/-- A run of replayable operations keeps the invariant. -/
theorem replays_runAll [F.Lossless] {db : Db} {entries : List WalEntry}
    (hsync : Synced F db entries)
    (h : Replays F db (commitsAfterCheckpoint db.manifest (entries.map (·.commit)))) {ops : List Op}
    (hops : ReplayableRun F db ops) :
    ∃ entries', Synced F (db.runAll F ops) entries' ∧ Replays F (db.runAll F ops)
      (commitsAfterCheckpoint (db.runAll F ops).manifest (entries'.map (·.commit))) := by
  induction ops generalizing db entries with
  | nil => exact ⟨entries, hsync, h⟩
  | cons op ops ih =>
    obtain ⟨hop, hops⟩ := hops
    rcases hsync.run_cases op with heq | ⟨plan, hplan, -, heq, hsync'⟩
    · rw [heq] at hops
      rw [show db.runAll F (op :: ops) = (db.run F op).2.runAll F ops from rfl, heq]
      exact ih hsync h hops
    · rw [heq] at hops
      rw [show db.runAll F (op :: ops) = (db.run F op).2.runAll F ops from rfl, heq]
      have hnext := h.committed (Db.replays_plan h.wellFormed h.jobsInv hop hplan) entries
      refine ih hsync' ?_ hops
      have hepoch : db.manifest.checkpointEpoch < plan.commit.epoch := by
        rw [(stamped_plan hplan).epoch]
        exact Nat.lt_succ_of_le hsync.checkpoint
      rw [← commitsAfterCheckpoint_snoc hepoch] at hnext
      exact hnext

/-- A handle whose log replays to it, reopened, shows the same, and finds nothing to mend. -/
theorem Replays.open_handle {db : Db} {entries : List WalEntry} (hsync : Synced F db entries)
    (h : Replays F db (commitsAfterCheckpoint db.manifest (entries.map (·.commit)))) :
    ∃ reopened, Db.open F db.disk = .ok reopened ∧ reopened.disk = db.disk ∧
      reopened.state = db.state ∧ reopened.view = db.view := by
  obtain ⟨torn, -, hopen⟩ := hsync.recoverable.open_eq
  have hrecover : recover F db.disk db.manifest
      (commitsAfterCheckpoint db.manifest (entries.map (·.commit))) =
        .ok ⟨db.manifest, db.store, db.idempotencyReceipts, db.jobCatalog⟩ := by
    have hschemas := hsync.covers.foldl_upsertSchema hsync.names
    rw [loggedChanges] at hschemas
    rw [recover_eq hsync.checkpoint hsync.checkpointSchemas, h.checkpoint]
    simp only [checkpointContents, lt_irrefl, if_false, Except.ok_bind, replayCommits, hschemas,
      h.jobs, h.store, List.nil_append, ← h.receipts]
  have hcatch : catchUpManifest F { db.disk with wal := db.disk.wal } db.manifest
      (commitsAfterCheckpoint db.manifest (entries.map (·.commit))) =
        .ok (db.manifest, db.disk) := by
    unfold catchUpManifest
    cases hlast : (commitsAfterCheckpoint db.manifest (entries.map (·.commit))).getLast? with
    | none => rfl
    | some lastCommit =>
      obtain ⟨entry, hentry, rfl⟩ :=
        List.mem_map.1 (List.mem_filter.1 (List.mem_of_getLast? hlast)).1
      exact if_neg (not_lt.2 (hsync.epochs entry hentry))
  rw [hopen]
  simp only [hrecover, Except.ok_bind, hcatch]
  exact ⟨_, rfl, rfl, rfl, rfl⟩

theorem replays_initialDb (dir : String) : Replays F (initialDb F dir) [] where
  store := rfl
  jobs := rfl
  jobsInv := JobCatalog.inv_empty
  receipts := rfl
  wellFormed := by simp [initialDb, sealManifest, Manifest.empty]
  checkpoint := rfl

/-- The handle after a run of replayable operations can be reopened. -/
theorem reopens_runAll [F.Lossless] {dir : String} {ops : List Op}
    (hops : ReplayableRun F (initialDb F dir) ops) :
    ∃ reopened, Db.open F ((initialDb F dir).runAll F ops).disk = .ok reopened ∧
      reopened.disk = ((initialDb F dir).runAll F ops).disk ∧
      reopened.state = ((initialDb F dir).runAll F ops).state ∧
      reopened.view = ((initialDb F dir).runAll F ops).view := by
  obtain ⟨entries, hsync, hreplays⟩ := replays_runAll (synced_initialDb dir)
    (replays_initialDb dir) hops
  exact hreplays.open_handle hsync

/-- **Recovery equals the live state** for runs of replayable operations. -/
theorem reopen_shows_live [F.Lossless] {dir : String} {db : Db}
    (hopen : Db.open F (Disk.empty dir) = .ok db) {ops : List Op} (hops : ReplayableRun F db ops) :
    (Db.open F (db.runAll F ops).disk).map Db.view = .ok (db.runAll F ops).view := by
  rw [open_empty_eq] at hopen
  obtain rfl := Except.ok.inj hopen
  obtain ⟨reopened, hreopen, -, -, hview⟩ := reopens_runAll hops
  rw [hreopen, ← hview]
  rfl

/-- A table of notes with one embedding of their text. -/
def notesSchema : TableSchema :=
  ⟨"notes", "id", "tenant", [], ["body"], [⟨"embedding", 1, ["body"]⟩]⟩

/-- A note without its embedding. -/
def draftNote : RecordInput := ⟨"notes", "n", "t", (∅ : Fields).insert "body" (.string "a")⟩

/-- The same note, with its embedding. -/
def embeddedNote : RecordInput :=
  ⟨"notes", "n", "t", ((∅ : Fields).insert "body" (.string "b")).insert "embedding"
    (.array [.number (.posInt 1)])⟩

/-- A note put first without and then with its embedding. -/
theorem reopen_shows_live_notes :
    let db := initialDb .reference "db"
    let ops := [.applySchema notesSchema none, .put draftNote none, .put embeddedNote none]
    (Db.open .reference (db.runAll .reference ops).disk).map Db.view =
      .ok (db.runAll .reference ops).view := by
  refine reopen_shows_live (open_empty_eq "db") ⟨?_, ?_, ?_, trivial⟩
  · rintro ⟨tenantId, id, hholds⟩
    exact absurd (by simp [initialDb, RecordStore.empty]) hholds
  · exact fun hblank => absurd hblank (by decide)
  · exact fun hblank => absurd hblank (by decide)

/-- What reopening replays the log to, when there is no checkpoint. -/
theorem Synced.open_store {db reopened : Db} {entries : List WalEntry} (h : Synced F db entries)
    (hcp : db.manifest.checkpointEpoch = 0) (hopen : Db.open F db.disk = .ok reopened) :
    reopened.manifest.latestEpoch = db.manifest.latestEpoch ∧
      RecordStore.empty.applyCommits (sourceHash F) db.manifest.schemas
        (commitsAfterCheckpoint db.manifest (entries.map (·.commit))) = .ok reopened.store := by
  obtain ⟨-, -, -, hlatest, recovered, hrecover, hstore, -, -⟩ := h.recoverable.open_frame hopen
  rw [h.caughtUp_eq] at hlatest
  refine ⟨hlatest, ?_⟩
  have hschemas := h.covers.foldl_upsertSchema h.names
  rw [loggedChanges] at hschemas
  rw [recover_eq h.checkpoint h.checkpointSchemas, hcp] at hrecover
  simp only [checkpointContents, lt_irrefl, if_false, Except.ok_bind, replayCommits, hschemas,
    Except.bind_eq_ok_iff] at hrecover
  obtain ⟨jobs, -, store, happly, heq⟩ := hrecover
  obtain rfl := Except.ok.inj heq
  rw [hstore]
  exact happly

/-- The status of the embedding of the first record of a store. -/
def firstEmbedding (store : RecordStore) (epoch : Epoch) : Option FeatureStatus :=
  ((store.snapshot epoch).head?.bind fun record => record.features["embedding"]?).map (·.status)

/-- A table and a batch can be planned, with small commits, and the batch is ready here and dirty
after a replay. -/
def notesBatchShows (db : Db) : Bool :=
  match db.plan .reference (.applySchema notesSchema none) with
  | .ok (some first) =>
    match (db.committed .reference [] first).plan .reference
      (.putBatch [draftNote, embeddedNote] none) with
    | .ok (some second) =>
      first.commit.isSmall && (second.commit.isSmall &&
      (decide (first.commit.schemaChanges = [notesSchema]) &&
      (decide (second.commit.schemaChanges = []) &&
      (decide (firstEmbedding ((db.store.applyDelta first.delta).applyDelta second.delta) 2 =
        some .ready) &&
      decide (((RecordStore.empty.applyCommits (sourceHash .reference) [notesSchema]
        [first.commit, second.commit]).toOption.map fun store => firstEmbedding store 2) =
          some (some .dirty))))))
    | _ => false
  | _ => false

/-- The plans of a batch with both notes: what it stores has the embedding ready, and what its
commits replay to has it dirty. -/
theorem plans_of_notes_batch :
    let db := initialDb .reference "db"
    ∃ first second, db.plan .reference (.applySchema notesSchema none) = .ok (some first) ∧
      (db.committed .reference [] first).plan .reference
        (.putBatch [draftNote, embeddedNote] none) = .ok (some second) ∧
      Fits EngineFormat.reference.toWalFormat [] first.commit ∧
      Fits EngineFormat.reference.toWalFormat
        [nextEntry EngineFormat.reference.toWalFormat [] first.commit] second.commit ∧
      first.commit.schemaChanges = [notesSchema] ∧ second.commit.schemaChanges = [] ∧
      firstEmbedding ((db.store.applyDelta first.delta).applyDelta second.delta) 2 = some .ready ∧
      ((RecordStore.empty.applyCommits (sourceHash .reference) [notesSchema]
        [first.commit, second.commit]).toOption.map fun store => firstEmbedding store 2) =
          some (some .dirty) := by
  intro db
  have hplans : notesBatchShows db = true := by decide +kernel
  unfold notesBatchShows at hplans
  split at hplans
  · rename_i first hfirst
    split at hplans
    · rename_i second hsecond
      simp only [Bool.and_eq_true, decide_eq_true_eq] at hplans
      obtain ⟨hsmall₁, hsmall₂, hshows⟩ := hplans
      exact ⟨first, second, hfirst, hsecond, fits_of_isSmall hsmall₁ _, fits_of_isSmall hsmall₂ _,
        hshows⟩
    · cases hplans
  · cases hplans

/-- A run of two operations, and the store that reopening replays it to. -/
theorem reopen_two_commits [F.Lossless] {dir : String} {op₁ op₂ : Op} {first second : PlannedWrite}
    (hfirst : (initialDb F dir).plan F op₁ = .ok (some first))
    (hsecond : ((initialDb F dir).committed F [] first).plan F op₂ = .ok (some second))
    (hfit₁ : Fits F.toWalFormat [] first.commit)
    (hfit₂ : Fits F.toWalFormat [nextEntry F.toWalFormat [] first.commit] second.commit) :
    let live := (initialDb F dir).runAll F [op₁, op₂]
    live.manifest.latestEpoch = 2 ∧
      live.store = ((initialDb F dir).store.applyDelta first.delta).applyDelta second.delta ∧
      ∀ reopened, Db.open F live.disk = .ok reopened → reopened.manifest.latestEpoch = 2 ∧
        RecordStore.empty.applyCommits (sourceHash F)
          ((first.commit.schemaChanges ++ second.commit.schemaChanges).foldl upsertSchema [])
          [first.commit, second.commit] = .ok reopened.store := by
  intro live
  obtain ⟨hlive, hsync₂⟩ := (synced_initialDb dir).runAll_two hfirst hsecond hfit₁ hfit₂
  rw [List.nil_append] at hlive hsync₂
  have hstamp₁ := stamped_plan hfirst
  have hstamp₂ := stamped_plan hsecond
  have hepoch₁ : first.commit.epoch = 1 := hstamp₁.epoch
  have hepoch₂ : second.commit.epoch = 2 := by
    rw [hstamp₂.epoch]
    exact congrArg (· + 1) hepoch₁
  rw [show live = _ from hlive]
  refine ⟨hepoch₂, rfl, fun reopened hopen => ?_⟩
  obtain ⟨hlatest, happly⟩ := hsync₂.open_store rfl hopen
  refine ⟨hlatest.trans hepoch₂, ?_⟩
  have hcommits : commitsAfterCheckpoint
      (((initialDb F dir).committed F [] first).committed F
        [nextEntry F.toWalFormat [] first.commit] second).manifest
      (([nextEntry F.toWalFormat [] first.commit] ++
        [nextEntry F.toWalFormat [nextEntry F.toWalFormat [] first.commit] second.commit]).map
          (·.commit)) =
      [(nextEntry F.toWalFormat [] first.commit).commit,
        (nextEntry F.toWalFormat
          [nextEntry F.toWalFormat [] first.commit] second.commit).commit] := by
    refine List.filter_eq_self.2 fun commit hmem => decide_eq_true ?_
    rcases List.mem_cons.1 hmem with rfl | hmem
    · exact hepoch₁.symm ▸ Nat.zero_lt_one
    · obtain rfl := List.mem_singleton.1 hmem
      exact hepoch₂.symm ▸ Nat.zero_lt_two
  rw [hcommits] at happly
  rw [List.foldl_append]
  exact happly

/-- Put in one batch, the note shows its embedding as ready while the handle is live, and as dirty
once the directory is reopened: replay applies the invalidation of the draft after both records. -/
theorem reopen_differs_after_batch :
    let db := initialDb .reference "db"
    let ops := [.applySchema notesSchema none, .putBatch [draftNote, embeddedNote] none]
    Db.open .reference (Disk.empty "db") = .ok db ∧
      ¬ (Db.open .reference (db.runAll .reference ops).disk).map Db.view =
        .ok (db.runAll .reference ops).view := by
  intro db ops
  refine ⟨open_empty_eq "db", fun hview => ?_⟩
  obtain ⟨first, second, hfirst, hsecond, hfit₁, hfit₂, hchanges₁, hchanges₂, hready, hdirty⟩ :=
    plans_of_notes_batch
  obtain ⟨hepoch, hstore, hreopen⟩ := reopen_two_commits hfirst hsecond hfit₁ hfit₂
  -- Both stores as the view shows them.
  have hshown : ∀ handle : Db, (handle.view.records.head?.bind fun record =>
      record.features["embedding"]?).map (·.status) =
        firstEmbedding handle.store handle.manifest.latestEpoch := by
    intro handle
    simp only [Db.view, firstEmbedding, List.head?_map, Option.bind_map]
    rfl
  cases hopen : Db.open .reference (db.runAll .reference ops).disk with
  | error e =>
    rw [hopen] at hview
    cases hview
  | ok reopened =>
    rw [hopen] at hview
    obtain ⟨hlatest, happly⟩ := hreopen reopened hopen
    rw [hchanges₁, hchanges₂] at happly
    have hreplayed : RecordStore.empty.applyCommits (sourceHash .reference) [notesSchema]
        [first.commit, second.commit] = .ok reopened.store := happly
    rw [hreplayed] at hdirty
    have hdirty : firstEmbedding reopened.store 2 = some .dirty := Option.some.inj hdirty
    have hready : firstEmbedding (db.runAll .reference ops).store 2 = some .ready := by
      rw [show (db.runAll .reference ops).store = _ from hstore]
      exact hready
    have hepoch : (db.runAll .reference ops).manifest.latestEpoch = 2 := hepoch
    have hsame := congrArg (fun view : View => (view.records.head?.bind fun record =>
      record.features["embedding"]?).map (·.status)) (Except.ok.inj hview)
    simp only [hshown, hlatest, hepoch, hdirty, hready] at hsame
    exact absurd hsame (by decide)

end TraceDB
