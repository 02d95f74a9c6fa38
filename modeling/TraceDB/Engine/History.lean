import TraceDB.Engine.Checkpoint
import TraceDB.Engine.Writes
import TraceDB.Store.Stability

/-!
# Epochs that have passed, on one handle

Calls on an open handle only write at epochs after the latest one, so what the handle shows of an
epoch that has passed stays alike while other calls run between the reads.

* `plan_writes` : every planned write is a list of store writes at the next epoch.
* `HandleCall` : the calls on a handle that change it: writes, checkpoints, publications and
  compactions.
* `KeepsPast` : what any such calls keep (`Reachable.keepsPast_calls`).
-/

namespace TraceDB

variable {F : EngineFormat}

/-! ### Plans are store writes -/

/-- The delta comes from writes at the next epoch of the handle. -/
def FromWrites (F : EngineFormat) (db : Db) (delta : RecordStoreDelta) : Prop :=
  ∃ writes : List StoreWrite, (∀ write ∈ writes, write.epoch = db.nextEpoch) ∧
    db.store.planAll (sourceHash F) 0 .empty writes = .ok delta

/-- **Every planned write is a list of store writes at the next epoch.** -/
theorem plan_writes {db : Db} {op : Op} {plan : PlannedWrite}
    (hplan : db.plan F op = .ok (some plan)) : FromWrites F db plan.delta := by
  obtain ⟨⟨writes, -, hwrites, hdelta⟩, -⟩ := plan_spec hplan
  exact ⟨writes, fun write hwrite => (hwrites write hwrite).epoch, hdelta⟩

/-! ### Calls on a handle -/

/-- The calls on a handle that change it. -/
inductive HandleCall where
  | run (op : Op)
  | checkpoint
  | publish (segmentId : String)
  | compact

/-- The handle after a call; a publication that fails leaves it alone. -/
def HandleCall.after (F : EngineFormat) (db : Db) : HandleCall → Db
  | .run op => (db.run F op).2
  | .checkpoint => (db.checkpoint F).2
  | .publish segmentId => (db.publishSegment F segmentId).toOption.getD db
  | .compact => (db.compact F).toOption.getD db

/-- The handle after calls in order. -/
def Db.afterCalls (F : EngineFormat) (db : Db) (calls : List HandleCall) : Db :=
  calls.foldl (HandleCall.after F) db

/-- What calls keep: the latest epoch does not go back, no table is lost, and what is seen at epochs
up to the latest one stays alike. -/
structure KeepsPast (db db' : Db) : Prop where
  latestEpoch : db.manifest.latestEpoch ≤ db'.manifest.latestEpoch
  tables : ∀ table, (findTable db.manifest.schemas table).isSome = true →
    (findTable db'.manifest.schemas table).isSome = true
  seen : ∀ e ≤ db.manifest.latestEpoch, ∀ key,
    SeenRel (fun _ => True) (db.store.seenAt key e) (db'.store.seenAt key e)

theorem KeepsPast.refl (db : Db) : KeepsPast db db :=
  ⟨le_rfl, fun _ h => h, fun _ _ _ => .refl _⟩

theorem KeepsPast.trans {db db' db'' : Db} (h : KeepsPast db db') (h' : KeepsPast db' db'') :
    KeepsPast db db'' where
  latestEpoch := h.latestEpoch.trans h'.latestEpoch
  tables table htable := h'.tables table (h.tables table htable)
  seen e he key := (h.seen e he key).trans (h'.seen e (he.trans h.latestEpoch) key)

theorem findTable_foldl_upsertSchema {schemas : List TableSchema} {table : String}
    (h : (findTable schemas table).isSome = true) (changes : List TableSchema) :
    (findTable (changes.foldl upsertSchema schemas) table).isSome = true := by
  induction changes generalizing schemas with
  | nil => exact h
  | cons change changes ih =>
    refine ih ?_
    rw [findTable_upsertSchema]
    split_ifs
    · rfl
    · exact h

/-- A committed write. -/
theorem keepsPast_committed {db : Db} {entries : List WalEntry} {op : Op} {plan : PlannedWrite}
    (hplan : db.plan F op = .ok (some plan)) : KeepsPast db (db.committed F entries plan) where
  latestEpoch := by
    have hepoch : (db.committed F entries plan).manifest.latestEpoch = plan.commit.epoch := rfl
    rw [hepoch, (stamped_plan hplan).epoch]
    exact Nat.le_succ _
  tables table htable := findTable_foldl_upsertSchema htable plan.commit.schemaChanges
  seen e he key := by
    obtain ⟨writes, hepochs, hwrites⟩ := plan_writes hplan
    have hlater : ∀ write ∈ (StoreStep.planned writes).writes, e < write.epoch := by
      intro write hwrite
      rw [hepochs write hwrite]
      exact Nat.lt_succ_of_le he
    have hafter := RecordStore.seenRel_after (sourceHash F) (.planned writes) hlater db.store key
    rw [StoreStep.after, hwrites] at hafter
    exact hafter.mono fun _ _ => trivial

theorem keepsPast_published {db db' : Db} (h : Published F db db') : KeepsPast db db' := by
  rcases h with rfl | ⟨segments, manifest, hsame, rfl⟩
  · exact .refl _
  · exact ⟨hsame.latestEpoch.ge, fun table htable => by rwa [← hsame.schemas] at htable,
      fun _ _ _ => .refl _⟩

/-- **Every call keeps what is seen at epochs that have passed.** -/
theorem Reachable.keepsPast_call [F.Lossless] {dir : String} {db : Db} (h : Reachable F dir db)
    (call : HandleCall) :
    Reachable F dir (call.after F db) ∧ KeepsPast db (call.after F db) := by
  obtain ⟨entries, hsync⟩ := h.synced
  cases call with
  | run op =>
    refine ⟨h.run op, ?_⟩
    rcases hsync.run_cases op with hsame | ⟨plan, hplan, -, hrun, -⟩
    · rw [HandleCall.after, hsame]
      exact .refl _
    · rw [HandleCall.after, hrun]
      exact keepsPast_committed hplan
  | checkpoint =>
    rw [HandleCall.after]
    have hcheckpoint := hsync.checkpoint_eq
    rw [hcheckpoint]
    exact ⟨h.checkpoint hcheckpoint, le_rfl, fun _ htable => htable, fun _ _ _ => .refl _⟩
  | publish segmentId =>
    rw [HandleCall.after]
    cases hpublish : db.publishSegment F segmentId with
    | error e => exact ⟨h, .refl _⟩
    | ok db' => exact ⟨h.publish segmentId _ hpublish,
        keepsPast_published (hsync.publishSegment_cases hpublish)⟩
  | compact =>
    rw [HandleCall.after]
    cases hcompact : db.compact F with
    | error e => exact ⟨h, .refl _⟩
    | ok db' => exact ⟨h.compact hcompact,
        keepsPast_published (hsync.publishCompactedSegment_cases hcompact)⟩

theorem Reachable.keepsPast_calls [F.Lossless] {dir : String} {db : Db} (h : Reachable F dir db)
    (calls : List HandleCall) :
    Reachable F dir (db.afterCalls F calls) ∧ KeepsPast db (db.afterCalls F calls) := by
  induction calls generalizing db with
  | nil => exact ⟨h, .refl _⟩
  | cons call calls ih =>
    obtain ⟨hreach, hfirst⟩ := h.keepsPast_call call
    obtain ⟨hlast, hrest⟩ := ih hreach
    exact ⟨hlast, hfirst.trans hrest⟩

end TraceDB
