import TraceDB.Engine.Crash
import TraceDB.Engine.Reference

/-!
# A format with a recursion limit

`serde_json` writes a value of any depth, and reads it only within its recursion limit.  The format
here has that limit for the records of commits and of checkpoints, and so reads back only some of
what a handle writes.

* `CommitRecord.isShallow`, `CheckpointPayload.isShallow` : what is read back.
* `Db.commitAllShallow` evaluates a run whose commits are all small and read back
  (`LegibleRun.of_commitAllShallow`).
-/

namespace TraceDB

/-- Around a field of a commit or of a checkpoint there are its fields, the record, the records and
the whole. -/
def recordOuter : ℕ := 4

/-- The fields are read back from a commit or a checkpoint. -/
def Fields.isShallow (fields : Fields) : Bool :=
  decide (Value.nestingFields fields.toList + recordOuter ≤ jsonNestingLimit)

/-- The records of a commit are within the recursion limit. -/
def CommitRecord.isShallow (commit : CommitRecord) : Bool :=
  (commit.replacements ++ commit.mutations).all fun input => Fields.isShallow input.fields

/-- The records of a checkpoint are within the recursion limit. -/
def CheckpointPayload.isShallow (payload : CheckpointPayload) : Bool :=
  payload.records.all fun record => Fields.isShallow record.fields

/-- The reference format, which reads within the recursion limit. -/
def EngineFormat.nested : EngineFormat :=
  { EngineFormat.reference with
    commitCodec := EngineFormat.reference.commitCodec.within CommitRecord.isShallow
    checkpointCodec := EngineFormat.reference.checkpointCodec.within CheckpointPayload.isShallow }

theorem readsBack_checkpoint {payload : CheckpointPayload} (h : payload.isShallow = true) :
    EngineFormat.nested.checkpointCodec.ReadsBack payload :=
  JsonCodec.readsBack_within (EngineFormat.Lossless.checkpoint payload) h

theorem decode_deep_checkpoint {payload : CheckpointPayload} (h : payload.isShallow = false) :
    EngineFormat.nested.checkpointCodec.decode
      (EngineFormat.nested.checkpointCodec.encode payload) =
      none :=
  JsonCodec.decode_within_of_not (EngineFormat.Lossless.checkpoint payload) h

theorem readBack_nested {commit : CommitRecord} (h : commit.isShallow = true)
    (entries : List WalEntry) : ReadBack EngineFormat.nested.toWalFormat entries commit :=
  JsonCodec.readsBack_within
    (WalFormat.Lossless.commit (F := EngineFormat.reference.toWalFormat) _) h

/-! ### Runs of small commits that are read back -/

/-- The handle and its log after operations whose commits are all small and within the limit. -/
def Db.commitAllShallow (db : Db) (entries : List WalEntry) : List Op → Option (Db × List WalEntry)
  | [] => some (db, entries)
  | op :: ops =>
    match db.plan .nested op with
    | .ok (some plan) =>
      if plan.commit.isSmall && plan.commit.isShallow then
        (db.committed .nested entries plan).commitAllShallow
          (entries ++ [nextEntry EngineFormat.nested.toWalFormat entries plan.commit]) ops
      else none
    | _ => none

theorem fits_nested {commit : CommitRecord} (h : commit.isSmall = true) (entries : List WalEntry) :
    Fits EngineFormat.nested.toWalFormat entries commit :=
  fits_of_isSmall h entries

/-- A run of operations whose commits are all small and within the limit. -/
theorem Synced.runAll_of_commitAllShallow {db after : Db} {entries entries' : List WalEntry}
    {ops : List Op} (h : Synced .nested db entries)
    (hops : db.commitAllShallow entries ops = some (after, entries')) :
    db.runAll .nested ops = after ∧ Synced .nested after entries' ∧ db.LegibleRuns .nested ops := by
  induction ops generalizing db entries with
  | nil =>
    obtain ⟨rfl, rfl⟩ := Prod.mk.inj (Option.some.inj hops)
    exact ⟨rfl, h, trivial⟩
  | cons op ops ih =>
    rw [Db.commitAllShallow] at hops
    split at hops
    · rename_i plan hplan
      split_ifs at hops with hcommit
      obtain ⟨hsmall, hshallow⟩ := Bool.and_eq_true_iff.1 hcommit
      have hstamp := stamped_plan hplan
      have hfit := fits_nested hsmall entries
      have hback := readBack_nested hshallow entries
      obtain ⟨hrun, hsync, hlegible⟩ := ih (h.committed hstamp.engine hstamp.epoch hfit hback) hops
      have hstep := h.run_of_fits hplan hfit
      refine ⟨?_, hsync, fun plan' hplan' => ?_, ?_⟩
      · rw [← hrun, Db.runAll, List.foldl_cons, hstep, Db.runAll]
      · obtain rfl : plan = plan' := Option.some.inj (Except.ok.inj (hplan.symm.trans hplan'))
        rw [h.tail]
        exact hback
      · rw [hstep]
        exact hlegible
    · cases hops

/-- The operations of a legible run can go on it. -/
theorem LegibleRun.runAll {F : EngineFormat} {dir : String} {db : Db} (h : LegibleRun F dir db)
    {ops : List Op} (hlegible : db.LegibleRuns F ops) : LegibleRun F dir (db.runAll F ops) := by
  induction ops generalizing db with
  | nil => exact h
  | cons op ops ih => exact ih (h.run hlegible.1) hlegible.2

/-- A new directory, and operations whose commits are all small and within the limit. -/
theorem LegibleRun.of_commitAllShallow {dir : String} {after : Db} {entries : List WalEntry}
    {ops : List Op}
    (hops : (initialDb .nested dir).commitAllShallow [] ops = some (after, entries)) :
    LegibleRun .nested dir after ∧ Synced .nested after entries := by
  have hinitial : LegibleRun .nested dir (initialDb .nested dir) := .opened (open_empty_eq dir)
  obtain ⟨hrun, hsync, hlegible⟩ := (synced_initialDb dir).runAll_of_commitAllShallow hops
  exact ⟨hrun ▸ hinitial.runAll hlegible, hsync⟩

end TraceDB
