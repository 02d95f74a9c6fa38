import TraceDB.Engine.Dimensions

/-!
# Fields of the visible records

* `Db.AllVisible` : the fields of every visible record have a property of the schema of its table.
* `Op.Brings` : what an operation writes has the property, and the records of a table have it under
  its new schema.
* `Typed.allVisible_run`, `allVisible_runAll` : an operation, and a run of operations, keep the
  property when they bring it.
-/

namespace TraceDB

variable {F : EngineFormat} {db : Db} {P : TableSchema → Fields → Prop}

/-- The fields of every visible record have a property of the schema of its table. -/
def Db.AllVisible (P : TableSchema → Fields → Prop) (db : Db) : Prop :=
  ∀ record ∈ db.store.snapshot db.manifest.latestEpoch, ∀ schema,
    findTable db.manifest.schemas record.header.tableId = some schema → P schema record.fields

theorem allVisible_iff_liveHolds (h : SameTips db.manifest.latestEpoch db.store db.store) :
    db.AllVisible P ↔ db.store.LiveHolds P db.manifest.schemas := by
  constructor
  · intro hall key record hmem hlive
    exact hall record (h.mem_snapshot.2 ⟨key, hmem, hlive⟩)
  · intro hlive record hmem
    obtain ⟨key, hmem, hrecord⟩ := h.mem_snapshot.1 hmem
    exact hlive key record hmem hrecord

/-! ### Runs -/

/-- What an operation brings has the property: the records of a table under its new schema, or the
fields that are written. -/
def Op.Brings (F : EngineFormat) (P : TableSchema → Fields → Prop) (db : Db) : Op → Prop
  | .applySchema schema _ =>
    ∀ record ∈ RecordStore.allVisibleRecords (db.store.snapshot db.manifest.latestEpoch)
      schema.name, P schema record.fields
  | op => ∀ write, op.Issues db write → write.Builds (sourceHash F) P

/-- **One operation** keeps a property of all visible records that holds of what it brings. -/
theorem Typed.allVisible_run [F.Lossless] {dir : String} {db' : Db} (htyped : Typed db)
    (hreach : Reachable F dir db) {op : Op} {reply : Reply} (hrun : db.run F op = (.ok reply, db'))
    (hop : op.Brings F P db) (h : db.AllVisible P) :
    db'.AllVisible P := by
  obtain ⟨entries, hsync⟩ := hreach.synced
  have htips := hreach.settled.tips
  have htips' := (hreach.of_run hrun).settled.tips
  rw [allVisible_iff_liveHolds htips']
  rw [allVisible_iff_liveHolds htips] at h
  rcases hsync.committed_of_run hrun with ⟨plan, hplan, rfl⟩ | ⟨rfl, -, -⟩
  · obtain ⟨⟨writes, htargets, hwrites, hdelta⟩, hchanges⟩ := plan_issues hplan
    have hschemas : (db.committed F entries plan).manifest.schemas =
        op.schemaChanges.foldl upsertSchema db.manifest.schemas := by
      rw [← hchanges]
      rfl
    have hstore : (db.committed F entries plan).store = db.store.applyDelta plan.delta := rfl
    have happly := RecordStore.applyAll_of_planAll hdelta
    rw [RecordStore.applyDelta_empty] at happly
    rw [hschemas, hstore]
    cases op with
    | applySchema schema receipt =>
      obtain rfl := List.map_eq_nil_iff.1 htargets
      rw [← Except.ok.inj happly]
      intro key record hmem hlive found hfound
      simp only [Op.schemaChanges, List.foldl_cons, List.foldl_nil,
        findTable_upsertSchema] at hfound
      split_ifs at hfound with hname
      · obtain rfl := Option.some.inj hfound
        refine hop record (List.mem_filter.2 ⟨htips.mem_snapshot.2 ⟨key, hmem, hlive⟩, ?_⟩)
        exact decide_eq_true hname.symm
      · exact h key record hmem hlive found hfound
    | _ =>
      refine (h.applyAll htyped.tables htyped.schemas (fun write hwrite => ?_) happly).1
      exact ⟨(hwrites write hwrite).writes.schemas, hop write (hwrites write hwrite)⟩
  · exact h

/-- **A run** keeps it, if every operation brings it. -/
theorem allVisible_runAll [F.Lossless] {dir : String} {ops : List Op}
    (hops : ∀ done op reply after, done ++ [op] <+: ops →
      ((initialDb F dir).runAll F done).run F op = (.ok reply, after) →
        op.Brings F P ((initialDb F dir).runAll F done)) :
    ((initialDb F dir).runAll F ops).AllVisible P := by
  have hreach : ∀ done, Reachable F dir ((initialDb F dir).runAll F done) :=
    (Reachable.opened (open_empty_eq dir)).runAll
  induction ops using List.reverseRecOn with
  | nil =>
    exact fun record hmem => absurd hmem (by simp [Db.runAll, initialDb, RecordStore.snapshot,
      RecordStore.empty])
  | append_singleton ops op ih =>
    have hbefore := ih fun done other reply after hstart =>
      hops done other reply after (hstart.trans (List.prefix_append ops [op]))
    rw [Db.runAll_snoc]
    rcases hrun : ((initialDb F dir).runAll F ops).run F op with ⟨e | reply, db'⟩
    · obtain ⟨entries, hsync⟩ := (hreach ops).synced
      rw [hsync.eq_of_run_error hrun]
      exact hbefore
    · exact (typed_runAll dir ops).allVisible_run (hreach ops) hrun
        (hops ops op reply db' (List.prefix_refl _) hrun) hbefore

end TraceDB
