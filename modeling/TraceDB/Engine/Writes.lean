import TraceDB.Engine.Sync
import TraceDB.Store.Tenants

/-!
# What an operation writes

* `Op.targets`, `Op.ends`, `Op.schemaChanges` : the records that an operation names, the versions
  that it ends, and the schema that it brings.
* `plan_issues` : a planned operation is a list of the store writes that it issues, one for each
  record that it names.
* `plan_spec` : they are writes at the next epoch, by the schemas of their tables.
* `Synced.committed_of_run` : an operation that is carried out was planned.
-/

namespace TraceDB

variable {F : EngineFormat}

namespace Op

/-- The records that an operation names. -/
def targets : Op → List RecordTriple
  | .insert input _ | .put input _ | .patch input _ => [⟨input.table, input.tenantId, input.id⟩]
  | .putBatch records _ => records.map fun input => ⟨input.table, input.tenantId, input.id⟩
  | .delete deletion _ => [⟨deletion.table, deletion.tenantId, deletion.id⟩]
  | .setFeatureStatus invalidation =>
    [⟨invalidation.table, invalidation.tenantId, invalidation.recordId⟩]
  | _ => []

/-- The test for the version that an operation ends or changes. -/
def ends : Op → StoredRecord → Bool
  | .delete _ _ | .setFeatureStatus _ => StoredRecord.isLive
  | _ => StoredRecord.isCurrent

/-- The operation writes new versions of its records. -/
def Appends : Op → Prop
  | .setFeatureStatus _ => False
  | _ => True

/-- The schema that an operation brings. -/
def schemaChanges : Op → List TableSchema
  | .applySchema schema _ => [schema]
  | _ => []

/-- The writes of an operation on a handle. -/
structure Writes (db : Db) (op : Op) (write : StoreWrite) : Prop where
  epoch : write.epoch = db.nextEpoch
  ends : write.ends = op.ends
  schemas : write.InSchemas db.manifest.schemas
  appends : op.Appends → write.Appends

theorem ends_or_single (op : Op) :
    op.ends = StoredRecord.isCurrent ∨ ∃ target, op.targets = [target] := by
  cases op with
  | delete deletion receipt => exact .inr ⟨_, rfl⟩
  | setFeatureStatus invalidation => exact .inr ⟨_, rfl⟩
  | _ => exact .inl rfl

/-- The writes that an operation plans. -/
def Issues (db : Db) : Op → StoreWrite → Prop
  | .insert input _, write | .patch input _, write =>
    ∃ schema, findTable db.manifest.schemas input.table = some schema ∧
    write = .mutate schema input db.nextEpoch
  | .put input _, write =>
    ∃ schema, findTable db.manifest.schemas input.table = some schema ∧
    write = .replace schema input db.nextEpoch
  | .putBatch records _, write => ∃ input ∈ records, ∃ schema,
    findTable db.manifest.schemas input.table = some schema ∧
    write = .replace schema input db.nextEpoch
  | .delete deletion _, write => ∃ schema,
    findTable db.manifest.schemas deletion.table = some schema ∧
    write = .delete schema deletion db.nextEpoch
  | .setFeatureStatus invalidation, write =>
    (findTable db.manifest.schemas invalidation.table).isSome = true ∧
      write = .invalidate invalidation db.nextEpoch
  | _, _ => False

theorem Issues.writes {db : Db} {op : Op} {write : StoreWrite} (h : op.Issues db write) :
    op.Writes db write := by
  cases op with
  | insert input receipt | patch input receipt | put input receipt =>
    obtain ⟨schema, hschema, rfl⟩ := h
    exact ⟨rfl, rfl, hschema, fun _ => trivial⟩
  | putBatch records receipt =>
    obtain ⟨input, -, schema, hschema, rfl⟩ := h
    exact ⟨rfl, rfl, hschema, fun _ => trivial⟩
  | delete deletion receipt =>
    obtain ⟨schema, hschema, rfl⟩ := h
    exact ⟨rfl, rfl, hschema, fun _ => trivial⟩
  | setFeatureStatus invalidation =>
    obtain ⟨hknown, rfl⟩ := h
    exact ⟨rfl, rfl, hknown, fun happends => absurd happends id⟩
  | _ => exact absurd h id

end Op

/-! ### Plans -/

/-- The delta comes from writes of one kind to these records. -/
def WritesTo (F : EngineFormat) (db : Db) (P : StoreWrite → Prop) (targets : List RecordTriple)
    (delta : RecordStoreDelta) : Prop :=
  ∃ writes : List StoreWrite, writes.map (·.target) = targets ∧ (∀ write ∈ writes, P write) ∧
    db.store.planAll (sourceHash F) 0 .empty writes = .ok delta

variable {db : Db} {P : StoreWrite → Prop} {delta delta' : RecordStoreDelta}

theorem writesTo_empty : WritesTo F db P [] .empty := ⟨[], rfl, by simp, rfl⟩

theorem WritesTo.snoc {targets : List RecordTriple} (h : WritesTo F db P targets delta)
    {write : StoreWrite} (hP : P write)
    (hwrite : write.planInto (sourceHash F) db.store delta = .ok delta') :
    WritesTo F db P (targets ++ [write.target]) delta' := by
  obtain ⟨writes, rfl, hwrites, hplan⟩ := h
  refine ⟨writes ++ [write], List.map_append, fun w hw => ?_, RecordStore.planAll_snoc hplan hwrite⟩
  rcases List.mem_append.1 hw with hw | hw
  · exact hwrites w hw
  · rw [List.mem_singleton.1 hw]
    exact hP

/-- A write of one record. -/
theorem writesTo_single {write : StoreWrite} (hP : P write)
    (hwrite : write.planInto (sourceHash F) db.store .empty = .ok delta) :
    WritesTo F db P [write.target] delta := writesTo_empty.snoc hP hwrite

theorem WritesTo.imp {Q : StoreWrite → Prop} {targets : List RecordTriple}
    (h : WritesTo F db P targets delta) (hQ : ∀ write, P write → Q write) :
      WritesTo F db Q targets delta := by
  obtain ⟨writes, htargets, hwrites, hplan⟩ := h
  exact ⟨writes, htargets, fun write hwrite => hQ write (hwrites write hwrite), hplan⟩

/-- The loop of a batch: what has been planned so far are writes to the records so far. -/
theorem writesTo_batch {records : List RecordInput}
    (hP : ∀ input ∈ records, ∀ schema, findTable db.manifest.schemas input.table = some schema →
      P (.replace schema input db.nextEpoch)) {done : List RecordTriple} {batch batch' : Db.Batch}
    (h : records.foldlM (db.planBatchRecord F) batch = .ok batch')
    (hdone : WritesTo F db P done batch.delta) :
    WritesTo F db P (done ++ records.map fun input => ⟨input.table, input.tenantId, input.id⟩)
      batch'.delta := by
  induction records generalizing done batch with
  | nil =>
    obtain rfl := Except.ok.inj h
    simpa using hdone
  | cons input records ih =>
    rw [List.forall_mem_cons] at hP
    rw [List.foldlM_cons, Except.bind_eq_ok_iff] at h
    obtain ⟨next, hnext, h⟩ := h
    simp only [Db.planBatchRecord, Except.bind_eq_ok_iff] at hnext
    obtain ⟨schema, hschema, delta, hdelta, hnext⟩ := hnext
    obtain rfl := Except.ok.inj hnext
    have hrest := ih hP.2 h (hdone.snoc (hP.1 schema (tableOrUnknown_eq_ok.1 hschema)) hdelta)
    rwa [List.append_assoc] at hrest

/-- **A planned operation is a list of writes**, one for each record that it names. -/
theorem plan_issues {op : Op} {plan : PlannedWrite} (hplan : db.plan F op = .ok (some plan)) :
    WritesTo F db (op.Issues db) op.targets plan.delta ∧
    plan.commit.schemaChanges = op.schemaChanges := by
  have hmerge : ∀ {P : StoreWrite → Prop} {event : String} {input : RecordInput}
      {receipt : Option IdempotencyReceipt},
      (∀ schema, findTable db.manifest.schemas input.table = some schema →
        P (.mutate schema input db.nextEpoch)) →
      db.planMerge F event input receipt = .ok plan →
        WritesTo F db P [⟨input.table, input.tenantId, input.id⟩] plan.delta ∧
          plan.commit.schemaChanges = [] := by
    intro P event input receipt hP h
    simp only [Db.planMerge, Except.bind_eq_ok_iff] at h
    obtain ⟨schema, hschema, delta, hdelta, h⟩ := h
    obtain rfl := Except.ok.inj h
    exact ⟨writesTo_single (hP schema (tableOrUnknown_eq_ok.1 hschema)) hdelta, rfl⟩
  cases op with
  | applySchema schema receipt =>
    have h := Except.some_map_eq_ok_iff.1 hplan
    simp only [Db.planSchema, Except.bind_eq_ok_iff] at h
    obtain ⟨_, -, _, -, h⟩ := h
    obtain rfl := Except.ok.inj h
    exact ⟨writesTo_empty, rfl⟩
  | insert input receipt =>
    exact hmerge (fun schema hschema => ⟨schema, hschema, rfl⟩) (Except.some_map_eq_ok_iff.1 hplan)
  | patch input receipt =>
    exact hmerge (fun schema hschema => ⟨schema, hschema, rfl⟩) (Except.some_map_eq_ok_iff.1 hplan)
  | put input receipt =>
    have h := Except.some_map_eq_ok_iff.1 hplan
    simp only [Db.planPut, Except.bind_eq_ok_iff] at h
    obtain ⟨schema, hschema, delta, hdelta, h⟩ := h
    obtain rfl := Except.ok.inj h
    have hwrites : (Op.put input receipt).Issues db (.replace schema input db.nextEpoch) :=
      ⟨schema, tableOrUnknown_eq_ok.1 hschema, rfl⟩
    exact ⟨writesTo_single hwrites hdelta, rfl⟩
  | putBatch records receipt =>
    have h := Except.some_map_eq_ok_iff.1 hplan
    simp only [Db.planPutBatch, Except.guard_eq_ok_iff, Except.bind_eq_ok_iff] at h
    obtain ⟨-, batch, hbatch, h⟩ := h
    obtain rfl := Except.ok.inj h
    exact ⟨writesTo_batch (fun input hinput schema hschema => ⟨input, hinput, schema, hschema, rfl⟩)
      hbatch
      writesTo_empty, rfl⟩
  | delete deletion receipt =>
    have h := Except.some_map_eq_ok_iff.1 hplan
    simp only [Db.planDelete, Except.bind_eq_ok_iff] at h
    obtain ⟨schema, hschema, delta, hdelta, h⟩ := h
    obtain rfl := Except.ok.inj h
    have hwrites : (Op.delete deletion receipt).Issues db (.delete schema deletion db.nextEpoch) :=
      ⟨schema, tableOrUnknown_eq_ok.1 hschema, rfl⟩
    exact ⟨writesTo_single hwrites hdelta, rfl⟩
  | setFeatureStatus invalidation =>
    simp only [Db.plan, Except.guard_eq_ok_iff] at hplan
    have h := Except.some_map_eq_ok_iff.1 hplan.2
    simp only [Db.planFeatureStatus, Except.guard_eq_ok_iff, Except.bind_eq_ok_iff] at h
    obtain ⟨schema, hschema, -, delta, hdelta, h⟩ := h
    obtain rfl := Except.ok.inj h
    have hknown : (findTable db.manifest.schemas invalidation.table).isSome = true := by
      rw [tableOrUnknown_eq_ok.1 hschema]
      rfl
    have hwrites : (Op.setFeatureStatus invalidation).Issues db
        (.invalidate invalidation db.nextEpoch) :=
      ⟨hknown, rfl⟩
    exact ⟨writesTo_single hwrites hdelta, rfl⟩
  | recordIdempotencyReceipt receipt =>
    obtain rfl := Option.some.inj (Except.ok.inj hplan)
    exact ⟨writesTo_empty, rfl⟩
  | enqueueJob kind target key =>
    obtain rfl := Option.some.inj (Except.ok.inj hplan)
    exact ⟨writesTo_empty, rfl⟩
  | leaseJob workerId kind nowMs leaseMs =>
    rw [Db.plan] at hplan
    split at hplan
    · cases hplan
    · obtain rfl := Option.some.inj (Except.ok.inj hplan)
      exact ⟨writesTo_empty, rfl⟩
  | heartbeatJob jobId token nowMs leaseMs =>
    rw [Db.plan] at hplan
    split at hplan
    · cases hplan
    · obtain rfl := Option.some.inj (Except.ok.inj hplan)
      exact ⟨writesTo_empty, rfl⟩
  | completeJob jobId token =>
    rw [Db.plan] at hplan
    split at hplan
    · cases hplan
    · obtain rfl := Option.some.inj (Except.ok.inj hplan)
      exact ⟨writesTo_empty, rfl⟩
  | failJob jobId token error permanent nowMs =>
    rw [Db.plan] at hplan
    split at hplan
    · cases hplan
    · obtain rfl := Option.some.inj (Except.ok.inj hplan)
      exact ⟨writesTo_empty, rfl⟩

/-- The writes of a planned operation are at the next epoch, by the schemas of their tables. -/
theorem plan_spec {op : Op} {plan : PlannedWrite} (hplan : db.plan F op = .ok (some plan)) :
    WritesTo F db (op.Writes db) op.targets plan.delta ∧
    plan.commit.schemaChanges = op.schemaChanges := by
  obtain ⟨hissued, hchanges⟩ := plan_issues hplan
  exact ⟨hissued.imp fun _ => Op.Issues.writes, hchanges⟩

/-! ### Operations -/

namespace Synced

variable {db' : Db} {entries : List WalEntry} {op : Op}

/-- An operation that fails leaves the handle alone. -/
theorem eq_of_run_error [F.Lossless] (h : Synced F db entries) {e : TraceDbError}
    (hrun : db.run F op = (.error e, db')) : db' = db := by
  rcases h.run_cases op with hsame | ⟨plan, -, -, hdone, -⟩
  · rwa [hrun] at hsame
  · cases hrun.symm.trans hdone

/-- An operation that names records and is carried out was planned. -/
theorem committed_of_run (h : Synced F db entries) {reply : Reply}
    (hrun : db.run F op = (.ok reply, db')) :
    (∃ plan, db.plan F op = .ok (some plan) ∧ db' = db.committed F entries plan) ∨
      db' = db ∧ op.targets = [] ∧ op.schemaChanges = [] := by
  rw [h.run_eq] at hrun
  rcases hplan : db.plan F op with e | _ | plan
  · rw [hplan] at hrun
    cases hrun
  · rw [hplan] at hrun
    refine .inr ⟨(Prod.mk.inj hrun).2.symm, ?_⟩
    have hsome : ∀ {x : Result PlannedWrite}, some <$> x ≠ .ok none := by
      rintro (e | planned) hmap
      · cases hmap
      · cases hmap
    cases op with
    | applySchema _ _ | insert _ _ | put _ _ | putBatch _ _ | patch _ _ | delete _ _ =>
      exact absurd hplan hsome
    | setFeatureStatus invalidation =>
      simp only [Db.plan, Except.guard_eq_ok_iff] at hplan
      exact absurd hplan.2 hsome
    | _ => exact ⟨rfl, rfl⟩
  · rw [hplan, Db.outcome] at hrun
    split_ifs at hrun
    · exact .inl ⟨plan, rfl, (Prod.mk.inj hrun).2.symm⟩
    · cases hrun

end Synced

end TraceDB
