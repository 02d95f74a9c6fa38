import TraceDB.Engine.Checkpoint
import TraceDB.Engine.Reference
import TraceDB.Engine.Writes
import TraceDB.Store.Dimensions

/-!
# Dimensions of stored vectors, under changing schemas

Records are checked against the schema of their table when they are written.  `apply_schema`
compares the vector columns that the old and the new schema share, and looks at no record.  So a
column that is new to its table, also one that was dropped before, meets whatever the records hold
under its name.

* `Db.DimensionsFit` : the vectors of all visible records have the dimensions that the current
  schemas declare.
* `Op.ColumnsFit` : a change of a schema adds no vector column under which a visible record holds
  something else.
* `dimensions_fit_iff` : in every run the dimensions fit in all states just when every change of a
  schema that is accepted meets this.
* `readded_column` : a column that comes back with other dimensions.
-/

namespace TraceDB

variable {F : EngineFormat}

namespace Db

/-- Every visible record fits the schema of its table. -/
def DimensionsFit (db : Db) : Prop :=
  ∀ record ∈ db.store.snapshot db.manifest.latestEpoch, ∀ schema,
    findTable db.manifest.schemas record.header.tableId = some schema → record.FitsSchema schema

/-- Under a vector column that is new to the table, no visible record holds anything but a vector of
the declared dimensions. -/
def NewColumnsFit (db : Db) (schema : TableSchema) : Prop :=
  ∀ record ∈ RecordStore.allVisibleRecords (db.store.snapshot db.manifest.latestEpoch) schema.name,
    ∀ vector ∈ schema.vectorColumns,
      (∀ existing, findTable db.manifest.schemas schema.name = some existing →
        vector.name ∉ existing.vectorColumns.map (·.name)) →
      ∀ value, record.fields[vector.name]? = some value →
        value.vectorDimensionCount = some vector.dimensions

end Db

/-- A change of a schema adds vector columns that fit the records. -/
def Op.ColumnsFit (db : Db) : Op → Prop
  | .applySchema schema _ => db.NewColumnsFit schema
  | _ => True

/-! ### Visible and live versions -/

/-- At the latest epoch the visible records are the live versions. -/
theorem SameTips.mem_snapshot {epoch : Epoch} {store : RecordStore} (h : SameTips epoch store store)
    {record : StoredRecord} :
    record ∈ store.snapshot epoch ↔ ∃ key, record ∈ store.versionsAt key ∧
    record.isLive = true := by
  have htip : ∀ {key : String} {versions : Versions}, store.versions[key]? = some versions →
      ∃ tip, Tip epoch versions tip := by
    intro key versions hget
    rcases h.none_or_some key with ⟨hnone, -⟩ | ⟨_, _, hsome, -, hshared⟩
    · cases hnone.symm.trans hget
    · obtain rfl := Option.some.inj (hsome.symm.trans hget)
      obtain ⟨tip, htip, -⟩ := hshared
      exact ⟨tip, htip⟩
  have hvisible : ∀ {versions : Versions} {tip : StoredRecord}, Tip epoch versions tip →
      tip.isVisible epoch = tip.isLive := by
    rintro versions tip ⟨older, -, hend, hbegin, -⟩
    simp [StoredRecord.isVisible, StoredRecord.spans, StoredRecord.isLive,
      StoredRecord.isCurrent, hend, hbegin]
  simp only [RecordStore.snapshot, List.mem_filterMap]
  constructor
  · rintro ⟨⟨key, versions⟩, hmem, hseen⟩
    have hget := SortedMap.mem_toList.1 hmem
    obtain ⟨tip, htip⟩ := htip hget
    rw [htip.visibleRecordAt, hvisible htip] at hseen
    split_ifs at hseen with hlive
    obtain rfl := Option.some.inj hseen
    refine ⟨key, ?_, hlive⟩
    obtain ⟨older, rfl, -⟩ := htip
    simp [RecordStore.versionsAt, hget]
  · rintro ⟨key, hmem, hlive⟩
    cases hget : store.versions[key]? with
    | none => simp [RecordStore.versionsAt, hget] at hmem
    | some versions =>
      rw [RecordStore.versionsAt, hget, Option.getD_some] at hmem
      refine ⟨(key, versions), SortedMap.mem_toList.2 hget, ?_⟩
      obtain ⟨tip, htip⟩ := htip hget
      -- All versions but the tip have ended.
      have heq : record = tip := by
        obtain ⟨older, rfl, -, -, hended⟩ := htip
        rcases List.mem_append.1 hmem with hold | hlast
        · obtain ⟨e, he, -⟩ := hended record hold
          simp [StoredRecord.isLive, StoredRecord.isCurrent, he] at hlive
        · exact List.mem_singleton.1 hlast
      subst heq
      rw [htip.visibleRecordAt, hvisible htip, if_pos hlive]

theorem dimensionsFit_iff_liveFits {db : Db}
    (h : SameTips db.manifest.latestEpoch db.store db.store) :
    db.DimensionsFit ↔ db.store.LiveFits db.manifest.schemas := by
  constructor
  · intro hfit key record hmem hlive
    exact hfit record (h.mem_snapshot.2 ⟨key, hmem, hlive⟩)
  · intro hfit record hmem
    obtain ⟨key, hmem, hlive⟩ := h.mem_snapshot.1 hmem
    exact hfit key record hmem hlive

/-! ### One operation -/

/-- The schemas of a handle are validated, and its records are of their tables. -/
structure Typed (db : Db) : Prop where
  schemas : ∀ schema ∈ db.manifest.schemas, schema.validate = .ok ()
  tables : db.store.TablesKnown db.manifest.schemas

theorem typed_initialDb (dir : String) : Typed (initialDb F dir) where
  schemas _ hmem := absurd hmem List.not_mem_nil
  tables := RecordStore.holds_empty

/-- What `apply_schema` has checked. -/
theorem planSchema_checks {db : Db} {schema : TableSchema} {receipt : Option IdempotencyReceipt}
    {plan : PlannedWrite} (h : db.plan F (.applySchema schema receipt) = .ok (some plan)) :
    schema.validate = .ok () ∧ db.validateSchemaCompatible schema = .ok () := by
  have h := Except.some_map_eq_ok_iff.1 h
  simp only [Db.planSchema, Except.bind_eq_ok_iff] at h
  obtain ⟨⟨⟩, hvalid, ⟨⟩, hcompatible, -⟩ := h
  exact ⟨hvalid, hcompatible⟩

/-- The columns that two schemas of a table with records share have the same dimensions. -/
theorem dimensions_of_compatible {db : Db} {schema existing : TableSchema}
    (h : db.validateSchemaCompatible schema = .ok ())
    (hexisting : findTable db.manifest.schemas schema.name = some existing)
    (hrows : RecordStore.allVisibleRecords
      (db.store.snapshot db.manifest.latestEpoch) schema.name ≠ [])
    (hnodup : (schema.vectorColumns.map (·.name)).Nodup) {vector old : VectorColumnSchema}
    (hvector : vector ∈ schema.vectorColumns) (hold : old ∈ existing.vectorColumns)
    (hname : vector.name = old.name) : vector.dimensions = old.dimensions := by
  unfold Db.validateSchemaCompatible at h
  simp only [hexisting, hrows, if_false, Except.guard_eq_ok_iff] at h
  have hcheck := Except.of_forM_eq_ok h.2.2 old hold
  have hfind : schema.vectorColumns.find? (fun v => v.name = old.name) = some vector :=
    (List.find?_key_eq_some hnodup).2 ⟨hvector, hname⟩
  simp only [hfind, Except.guard_eq_ok_iff, not_not] at hcheck
  exact hcheck.1

/-- A schema that is accepted, over records that fit the schema before. -/
theorem liveFits_upsertSchema_iff {db : Db} {schema : TableSchema}
    (hlive : db.store.LiveFits db.manifest.schemas)
    (htips : SameTips db.manifest.latestEpoch db.store db.store) (hvalid : schema.validate = .ok ())
    (hcompatible : db.validateSchemaCompatible schema = .ok ()) :
    db.store.LiveFits (upsertSchema db.manifest.schemas schema) ↔ db.NewColumnsFit schema := by
  have hvisible : ∀ {key : String} {record : StoredRecord}, record ∈ db.store.versionsAt key →
      record.isLive = true → record.header.tableId = schema.name →
        record ∈ RecordStore.allVisibleRecords
          (db.store.snapshot db.manifest.latestEpoch) schema.name :=
    fun hmem hrecord htable =>
      List.mem_filter.2 ⟨htips.mem_snapshot.2 ⟨_, hmem, hrecord⟩, decide_eq_true htable⟩
  constructor
  · intro hafter record hrecord vector hvector _ value hvalue
    obtain ⟨hmem, htable⟩ := List.mem_filter.1 hrecord
    obtain ⟨key, hmem, hrecord⟩ := htips.mem_snapshot.1 hmem
    refine hafter key record hmem hrecord schema ?_ vector hvector value hvalue
    rw [findTable_upsertSchema, if_pos (of_decide_eq_true htable).symm]
  · intro hnew key record hmem hrecord found hfound
    rw [findTable_upsertSchema] at hfound
    split_ifs at hfound with hname
    · obtain rfl := Option.some.inj hfound
      have hrow := hvisible hmem hrecord hname.symm
      intro vector hvector value hvalue
      by_cases hshared : ∃ existing, findTable db.manifest.schemas schema.name = some existing ∧
          vector.name ∈ existing.vectorColumns.map (·.name)
      · -- The column was there before, with the same dimensions.
        obtain ⟨existing, hexisting, hcolumn⟩ := hshared
        obtain ⟨old, hold, hcolumn⟩ := List.mem_map.1 hcolumn
        rw [dimensions_of_compatible hcompatible hexisting (List.ne_nil_of_mem hrow)
          (TableSchema.validate_spec hvalid).vectorNames hvector hold hcolumn.symm]
        exact hlive key record hmem hrecord existing (hname ▸ hexisting) old hold value
          (hcolumn ▸ hvalue)
      · push Not at hshared
        exact hnew record hrow vector hvector hshared value hvalue
    · exact hlive key record hmem hrecord found hfound

/-- **One operation** keeps the types, and it keeps the dimensions just when its new columns fit. -/
theorem Typed.run [F.Lossless] {dir : String} {db db' : Db} (htyped : Typed db)
    (hreach : Reachable F dir db) {op : Op} {reply : Reply}
    (hrun : db.run F op = (.ok reply, db')) :
    Typed db' ∧ (db.DimensionsFit → (db'.DimensionsFit ↔ op.ColumnsFit db)) := by
  obtain ⟨entries, hsync⟩ := hreach.synced
  have htips := hreach.settled.tips
  have htips' := (hreach.of_run hrun).settled.tips
  rw [dimensionsFit_iff_liveFits htips, dimensionsFit_iff_liveFits htips']
  rcases hsync.committed_of_run hrun with ⟨plan, hplan, rfl⟩ | ⟨rfl, -, hnone⟩
  · obtain ⟨⟨writes, htargets, hwrites, hdelta⟩, hchanges⟩ := plan_spec hplan
    have hschemas : (db.committed F entries plan).manifest.schemas =
        op.schemaChanges.foldl upsertSchema db.manifest.schemas := by
      rw [← hchanges]
      rfl
    have hstore : (db.committed F entries plan).store = db.store.applyDelta plan.delta := rfl
    have happly := RecordStore.applyAll_of_planAll hdelta
    rw [RecordStore.applyDelta_empty] at happly
    by_cases hop : ∃ schema receipt, op = .applySchema schema receipt
    · obtain ⟨schema, receipt, rfl⟩ := hop
      obtain ⟨hvalid, hcompatible⟩ := planSchema_checks hplan
      obtain rfl := List.map_eq_nil_iff.1 htargets
      rw [hschemas, hstore, ← Except.ok.inj happly]
      refine ⟨⟨?_, ?_⟩, fun hlive => liveFits_upsertSchema_iff hlive htips hvalid hcompatible⟩
      · rw [hschemas]
        intro other hother
        rcases mem_upsertSchema hother with rfl | hother
        · exact hvalid
        · exact htyped.schemas other hother
      · rw [hschemas, hstore, ← Except.ok.inj happly]
        intro key versions hget record hrecord
        obtain ⟨hkey, hknown⟩ := htyped.tables key versions hget record hrecord
        refine ⟨hkey, ?_⟩
        simp only [Op.schemaChanges, List.foldl_cons, List.foldl_nil, findTable_upsertSchema]
        split_ifs
        · rfl
        · exact hknown
    · have hnone : op.schemaChanges = [] ∧ op.ColumnsFit db := by
        cases op with
        | applySchema schema receipt => exact absurd ⟨schema, receipt, rfl⟩ hop
        | _ => exact ⟨rfl, trivial⟩
      rw [hnone.1] at hschemas
      have hin : ∀ write ∈ writes, write.InSchemas db.manifest.schemas :=
        fun write hwrite => (hwrites write hwrite).schemas
      rw [hschemas, hstore]
      refine ⟨⟨by rw [hschemas]; exact htyped.schemas, ?_⟩, fun hlive => iff_of_true ?_ hnone.2⟩
      · rw [hschemas, hstore]
        exact Except.foldlM_invariant (I := RecordStore.TablesKnown db.manifest.schemas)
          happly htyped.tables
          fun _ write _ hwrite hknown happly₁ =>
            hknown.apply (RecordStore.isSome_of_inSchemas (hin write hwrite)) happly₁
      · exact (hlive.applyAll htyped.tables htyped.schemas hin happly).1
  · refine ⟨htyped, fun hlive => iff_of_true hlive ?_⟩
    cases op with
    | applySchema schema receipt => cases hnone
    | _ => trivial

/-! ### Runs -/

theorem Db.runAll_snoc (F : EngineFormat) (db : Db) (ops : List Op) (op : Op) :
    db.runAll F (ops ++ [op]) = ((db.runAll F ops).run F op).2 := by
  rw [Db.runAll, List.foldl_append]
  rfl

theorem typed_runAll [F.Lossless] (dir : String) (ops : List Op) :
    Typed ((initialDb F dir).runAll F ops) := by
  induction ops using List.reverseRecOn with
  | nil => exact typed_initialDb dir
  | append_singleton ops op ih =>
    have hreach : Reachable F dir ((initialDb F dir).runAll F ops) :=
      (Reachable.opened (open_empty_eq dir)).runAll ops
    rw [Db.runAll_snoc]
    rcases hrun : ((initialDb F dir).runAll F ops).run F op with ⟨e | reply, db'⟩
    · obtain ⟨entries, hsync⟩ := hreach.synced
      rw [hsync.eq_of_run_error hrun]
      exact ih
    · exact (ih.run hreach hrun).1

/-- **Vectors keep the dimensions of their columns** in all states of a run just when every change
of a schema that is accepted adds only columns that fit the visible records. -/
theorem dimensions_fit_iff [F.Lossless] (dir : String) (ops : List Op) :
    (∀ done, done <+: ops → ((initialDb F dir).runAll F done).DimensionsFit) ↔
      ∀ done op, done ++ [op] <+: ops →
        (∃ reply db', ((initialDb F dir).runAll F done).run F op = (.ok reply, db')) →
          op.ColumnsFit ((initialDb F dir).runAll F done) := by
  have hreach : ∀ done, Reachable F dir ((initialDb F dir).runAll F done) :=
    (Reachable.opened (open_empty_eq dir)).runAll
  constructor
  · rintro hfit done op hprefix ⟨reply, db', hrun⟩
    have hafter := hfit (done ++ [op]) hprefix
    rw [Db.runAll_snoc, hrun] at hafter
    have hbefore := hfit done ((List.prefix_append done [op]).trans hprefix)
    exact (((typed_runAll dir done).run (hreach done) hrun).2 hbefore).1 hafter
  · intro hcolumns done
    induction done using List.reverseRecOn with
    | nil =>
      exact fun _ record hmem => absurd hmem (by simp [Db.runAll, initialDb, RecordStore.snapshot,
        RecordStore.empty])
    | append_singleton done op ih =>
      intro hprefix
      have hbefore := ih ((List.prefix_append done [op]).trans hprefix)
      rw [Db.runAll_snoc]
      rcases hrun : ((initialDb F dir).runAll F done).run F op with ⟨e | reply, db'⟩
      · obtain ⟨entries, hsync⟩ := (hreach done).synced
        rw [hsync.eq_of_run_error hrun]
        exact hbefore
      · exact (((typed_runAll dir done).run (hreach done) hrun).2 hbefore).2
          (hcolumns done op hprefix ⟨reply, db', hrun⟩)

/-- Operations that are all committed all return. -/
theorem Synced.run_of_commitAll [F.Lossless] {db : Db} {entries : List WalEntry} {ops : List Op}
    {after : Db × List WalEntry} (h : Synced F db entries)
    (hops : db.commitAll F entries ops = some after) {done : List Op} {op : Op}
    (hdone : done ++ [op] <+: ops) :
    ∃ reply db', (db.runAll F done).run F op = (.ok reply, db') := by
  induction ops generalizing db entries done with
  | nil => simp at hdone
  | cons first ops ih =>
    rw [Db.commitAll] at hops
    split at hops
    · rename_i plan hplan
      split_ifs at hops with hfit
      have hrun := h.run_of_fits hplan hfit
      cases done with
      | nil =>
        obtain ⟨rfl, -⟩ := List.cons_prefix_cons.1 hdone
        exact ⟨_, _, hrun⟩
      | cons other done =>
        obtain ⟨rfl, htail⟩ : other = first ∧ done ++ [op] <+: ops := List.cons_prefix_cons.1 hdone
        have hstamp := stamped_plan hplan
        have hrest := ih (h.committed hstamp.engine hstamp.epoch hfit (readBack _ _)) hops htail
        rw [Db.runAll, List.foldl_cons, hrun]
        exact hrest
    · cases hops

/-- A table of documents with an embedding of their body. -/
def embeddedDocs (dimensions : ℕ) : TableSchema :=
  ⟨"docs", "id", "tenant", [], ["body"], [⟨"embedding", dimensions, ["body"]⟩]⟩

/-- The table without the embedding. -/
def plainDocs : TableSchema := ⟨"docs", "id", "tenant", [], ["body"], []⟩

/-- A document with an embedding of two dimensions. -/
def embeddedDoc : RecordInput :=
  ⟨"docs", "a", "t",
    Std.ExtTreeMap.insert (Std.ExtTreeMap.insert ∅ "body" (.string "x")) "embedding"
    (.array [.number (.posInt 1), .number (.posInt 2)])⟩

/-- The column is dropped, and comes back with three dimensions. -/
def readdedOps : List Op :=
  [.applySchema (embeddedDocs 2) none, .put embeddedDoc none, .applySchema plainDocs none,
    .applySchema (embeddedDocs 3) none]

/-- A run that drops a column and adds it again keeps the dimensions just when the added columns
fit. -/
theorem dimensions_fit_iff_readded :
    (∀ done, done <+: readdedOps →
        ((initialDb .reference "db").runAll .reference done).DimensionsFit) ↔
      ∀ done op, done ++ [op] <+: readdedOps →
        (∃ reply db',
          ((initialDb .reference "db").runAll .reference done).run .reference op =
            (.ok reply, db')) →
          op.ColumnsFit ((initialDb .reference "db").runAll .reference done) :=
  dimensions_fit_iff "db" readdedOps

/-- **A column that comes back with other dimensions**: all calls return `Ok`, and the record has a
vector of the old ones. -/
theorem readded_column :
    (∀ done op, done ++ [op] <+: readdedOps → ∃ reply db',
      ((initialDb .reference "db").runAll .reference done).run .reference op = (.ok reply, db')) ∧
    ¬ ((initialDb .reference "db").runAll .reference readdedOps).DimensionsFit := by
  have hcommits : ((initialDb .reference "db").commitAllSmall [] readdedOps).any (fun after =>
      (after.1.store.snapshot after.1.manifest.latestEpoch).any fun record =>
        (findTable after.1.manifest.schemas record.header.tableId).any fun schema =>
          schema.vectorColumns.any fun vector => record.fields[vector.name]?.any fun value =>
            decide (value.vectorDimensionCount ≠ some vector.dimensions)) = true := by
    decide +kernel
  obtain ⟨⟨after, entries⟩, hcommits, hwrong⟩ := (Option.any_eq_true _ _).1 hcommits
  have hsync : Synced .reference (initialDb .reference "db") [] := synced_initialDb "db"
  refine ⟨fun done op => hsync.run_of_commitAll (Db.commitAll_of_small hcommits), fun hfit => ?_⟩
  rw [(hsync.runAll_of_commitAllSmall hcommits).1] at hfit
  obtain ⟨record, hrecord, hwrong⟩ := List.any_eq_true.1 hwrong
  obtain ⟨schema, hschema, hwrong⟩ := (Option.any_eq_true _ _).1 hwrong
  obtain ⟨vector, hvector, hwrong⟩ := List.any_eq_true.1 hwrong
  obtain ⟨value, hvalue, hwrong⟩ := (Option.any_eq_true _ _).1 hwrong
  exact of_decide_eq_true hwrong (hfit record hrecord schema hschema vector hvector value hvalue)

end TraceDB
