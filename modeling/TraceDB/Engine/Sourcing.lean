import TraceDB.Engine.Crash
import TraceDB.Engine.Reference

/-!
# The job catalog and its events

A job operation computes the new catalog and describes it, separately, by one event in its commit.

* `plan_jobs` : an operation leaves the catalog and logs no event, or logs one event that takes the
  catalog to the one the operation computed.
* `job_events_rebuild_catalog` : so the events of the log, applied to the empty catalog, give the
  catalog of the handle after every operation of a run.
-/

namespace TraceDB

variable {F : EngineFormat}

/-- The job events in the log of a handle. -/
def Db.loggedJobEvents (F : EngineFormat) (db : Db) : Result (List JobEvent) := do
  let scan ← db.wal.scanWithMetadata F.toWalFormat
  .ok ((scan.entries.map (·.commit)).flatMap (·.jobEvents))

/-! ### One operation -/

/-- The event of a plan takes the catalog to the planned one. -/
def PlansJobs (db : Db) (plan : PlannedWrite) : Prop :=
  (plan.commit.jobEvents = [] ∧ plan.jobCatalog = none) ∨
    ∃ event planned, plan.commit.jobEvents = [event] ∧ plan.jobCatalog = some planned ∧
      db.jobCatalog.applyEvent event = .ok planned ∧ planned.Inv

theorem plansJobs_planJobEvent {db : Db} {event : JobEvent} {planned : JobCatalog} {reply : Reply}
    (h : db.jobCatalog.applyEvent event = .ok planned ∧ planned.Inv) :
    PlansJobs db (db.planJobEvent event planned reply) :=
  .inr ⟨event, planned, rfl, rfl, h.1, h.2⟩

/-- **What an operation plans for the catalog**, and what it logs about it. -/
theorem plan_jobs {db : Db} (hinv : db.jobCatalog.Inv) {op : Op} {plan : PlannedWrite}
    (h : db.plan F op = .ok (some plan)) : PlansJobs db plan := by
  cases op with
  | applySchema schema receipt =>
    replace h := Except.some_map_eq_ok_iff.1 h
    simp only [Db.planSchema, Except.bind_eq_ok_iff] at h
    obtain ⟨_, _, _, _, h⟩ := h
    obtain rfl := Except.ok.inj h
    exact .inl ⟨rfl, rfl⟩
  | insert input receipt | patch input receipt =>
    replace h := Except.some_map_eq_ok_iff.1 h
    simp only [Db.planMerge, Except.bind_eq_ok_iff] at h
    obtain ⟨_, _, _, _, h⟩ := h
    obtain rfl := Except.ok.inj h
    exact .inl ⟨rfl, rfl⟩
  | put input receipt =>
    replace h := Except.some_map_eq_ok_iff.1 h
    simp only [Db.planPut, Except.bind_eq_ok_iff] at h
    obtain ⟨_, _, _, _, h⟩ := h
    obtain rfl := Except.ok.inj h
    exact .inl ⟨rfl, rfl⟩
  | putBatch records receipt =>
    replace h := Except.some_map_eq_ok_iff.1 h
    simp only [Db.planPutBatch, Except.guard_eq_ok_iff, Except.bind_eq_ok_iff] at h
    obtain ⟨_, _, _, h⟩ := h
    obtain rfl := Except.ok.inj h
    exact .inl ⟨rfl, rfl⟩
  | delete deletion receipt =>
    replace h := Except.some_map_eq_ok_iff.1 h
    simp only [Db.planDelete, Except.bind_eq_ok_iff] at h
    obtain ⟨_, _, _, _, h⟩ := h
    obtain rfl := Except.ok.inj h
    exact .inl ⟨rfl, rfl⟩
  | setFeatureStatus invalidation =>
    simp only [Db.plan, Except.guard_eq_ok_iff] at h
    have hplan := Except.some_map_eq_ok_iff.1 h.2
    simp only [Db.planFeatureStatus, Except.bind_eq_ok_iff, Except.guard_eq_ok_iff] at hplan
    obtain ⟨_, _, _, _, _, hplan⟩ := hplan
    obtain rfl := Except.ok.inj hplan
    exact .inl ⟨rfl, rfl⟩
  | recordIdempotencyReceipt receipt =>
    obtain rfl := Option.some.inj (Except.ok.inj h)
    exact .inl ⟨rfl, rfl⟩
  | enqueueJob kind target key =>
    obtain rfl := Option.some.inj (Except.ok.inj h)
    exact plansJobs_planJobEvent (JobCatalog.applyEvent_enqueue hinv kind target key)
  | leaseJob workerId kind nowMs leaseMs =>
    simp only [Db.plan] at h
    split at h
    · cases h
    · rename_i planned job hlease
      obtain rfl := Option.some.inj (Except.ok.inj h)
      exact plansJobs_planJobEvent (JobCatalog.applyEvent_lease hinv hlease)
  | heartbeatJob jobId token nowMs leaseMs =>
    simp only [Db.plan] at h
    split at h
    · cases h
    · rename_i planned job hbeat
      obtain rfl := Option.some.inj (Except.ok.inj h)
      exact plansJobs_planJobEvent (JobCatalog.applyEvent_heartbeat hinv hbeat)
  | completeJob jobId token =>
    simp only [Db.plan] at h
    split at h
    · cases h
    · rename_i planned job hcomplete
      obtain rfl := Option.some.inj (Except.ok.inj h)
      exact plansJobs_planJobEvent (JobCatalog.applyEvent_complete hinv hcomplete)
  | failJob jobId token error permanent nowMs =>
    simp only [Db.plan] at h
    split at h
    · cases h
    · rename_i planned job hfail
      obtain rfl := Option.some.inj (Except.ok.inj h)
      exact plansJobs_planJobEvent (JobCatalog.applyEvent_fail hinv hfail)

/-- The events of a plan, applied to the catalog. -/
theorem PlansJobs.foldlM {db : Db} (hinv : db.jobCatalog.Inv) {plan : PlannedWrite}
    (h : PlansJobs db plan) :
    plan.commit.jobEvents.foldlM JobCatalog.applyEvent db.jobCatalog =
        .ok (plan.jobCatalog.getD db.jobCatalog) ∧
      (plan.jobCatalog.getD db.jobCatalog).Inv := by
  rcases h with ⟨hevents, hcatalog⟩ | ⟨event, planned, hevents, hcatalog, happly, hplanned⟩
  · rw [hevents, hcatalog]
    exact ⟨rfl, hinv⟩
  · rw [hevents, hcatalog, List.foldlM_cons, happly]
    exact ⟨rfl, hplanned⟩

/-! ### Runs -/

/-- The log of the handle gives its catalog. -/
structure Sourced (F : EngineFormat) (db : Db) (entries : List WalEntry) : Prop
    extends Synced F db entries where
  inv : db.jobCatalog.Inv
  jobs : ((entries.map (·.commit)).flatMap (·.jobEvents)).foldlM JobCatalog.applyEvent .empty =
    .ok db.jobCatalog

theorem sourced_initialDb (dir : String) : Sourced F (initialDb F dir) [] where
  toSynced := synced_initialDb dir
  inv := JobCatalog.inv_empty
  jobs := rfl

theorem Synced.loggedJobEvents {db : Db} {entries : List WalEntry} (h : Synced F db entries) :
    db.loggedJobEvents F = .ok ((entries.map (·.commit)).flatMap (·.jobEvents)) := by
  have hscan : db.wal.scanWithMetadata F.toWalFormat = .ok ⟨entries, db.wal.recoveryTornTail⟩ := by
    have hfile : Chain F.toWalFormat entries db.wal.file := h.chain
    simp only [Log.scanWithMetadata, hfile.scanFile, Except.ok_bind, Option.none_or]
  rw [Db.loggedJobEvents, hscan]
  rfl

/-- One operation adds its events to the log. -/
theorem Sourced.run [F.Lossless] {db : Db} {entries : List WalEntry}
    (h : Sourced F db entries) (op : Op) :
    ∃ added, Sourced F (db.run F op).2 (entries ++ added) := by
  rcases h.run_cases op with heq | ⟨plan, hplan, -, heq, hsync⟩
  · refine ⟨[], ?_⟩
    rw [heq, List.append_nil]
    exact h
  · refine ⟨[nextEntry F.toWalFormat entries plan.commit], ?_⟩
    obtain ⟨hfold, hinv⟩ := (plan_jobs h.inv hplan).foldlM h.inv
    rw [heq]
    refine ⟨hsync, hinv, ?_⟩
    rw [List.map_append, List.flatMap_append, Except.foldlM_append, h.jobs, Except.ok_bind]
    exact (congrArg (fun events => List.foldlM JobCatalog.applyEvent db.jobCatalog events)
      (List.flatMap_singleton ..)).trans hfold

/-- The log entries of a run, one list for each operation. -/
theorem Sourced.runAll [F.Lossless] {db : Db} {entries : List WalEntry} (h : Sourced F db entries)
    (ops : List Op) :
    ∃ added : List (List WalEntry), added.length = ops.length ∧
      ∀ n ≤ ops.length, Sourced F (db.runAll F (ops.take n))
      (entries ++ (added.take n).flatten) := by
  induction ops generalizing db entries with
  | nil =>
    refine ⟨[], rfl, fun n _ => ?_⟩
    rw [List.take_nil, List.take_nil, List.flatten_nil, List.append_nil]
    exact h
  | cons op ops ih =>
    obtain ⟨first, hfirst⟩ := h.run op
    obtain ⟨added, hlength, hall⟩ := ih hfirst
    refine ⟨first :: added, congrArg (· + 1) hlength, fun n hn => ?_⟩
    cases n with
    | zero =>
      rw [List.take_zero, List.take_zero, List.flatten_nil, List.append_nil]
      exact h
    | succ n =>
      rw [List.take_succ_cons, List.take_succ_cons, List.flatten_cons, ← List.append_assoc]
      exact hall n (Nat.le_of_succ_le_succ hn)

/-- **The events of a run give its catalog.**  For every list of operations on a new database there
is one list of job events for each operation, such that after every number of operations the log
holds the events of the operations so far, and applying these to the empty catalog succeeds and
gives the catalog of the handle. -/
theorem job_events_rebuild_catalog (F : EngineFormat) [F.Lossless] (dir : String) (ops : List Op) :
    ∃ emitted : List (List JobEvent), emitted.length = ops.length ∧ ∀ n ≤ ops.length,
      ((initialDb F dir).runAll F (ops.take n)).loggedJobEvents F =
          .ok (emitted.take n).flatten ∧
        (emitted.take n).flatten.foldlM JobCatalog.applyEvent .empty =
          .ok ((initialDb F dir).runAll F (ops.take n)).jobCatalog := by
  obtain ⟨added, hlength, hall⟩ := (sourced_initialDb dir).runAll (F := F) ops
  refine ⟨added.map fun entries => (entries.map (·.commit)).flatMap (·.jobEvents),
    (List.length_map _).trans hlength, fun n hn => ?_⟩
  have hflatten : ((added.map fun entries => (entries.map (·.commit)).flatMap
      (·.jobEvents)).take n).flatten =
        (((added.take n).flatten).map (·.commit)).flatMap (·.jobEvents) := by
    rw [← List.map_take]
    induction added.take n with
    | nil => rfl
    | cons entries rest ih =>
      rw [List.map_cons, List.flatten_cons, List.flatten_cons, List.map_append, List.flatMap_append,
        ih]
  have hsourced := hall n hn
  rw [List.nil_append] at hsourced
  rw [hflatten]
  exact ⟨hsourced.loggedJobEvents, hsourced.jobs⟩

/-- A job that is queued, leased, kept and failed. -/
def nightlyOps : List Op :=
  [.enqueueJob .verifyDatabase "docs" "nightly", .leaseJob "w" .verifyDatabase 10 5,
    .heartbeatJob (jobIdOf .verifyDatabase "nightly")
      ("lease:" ++ jobIdOf .verifyDatabase "nightly" ++ ":1") 12 5,
    .failJob (jobIdOf .verifyDatabase "nightly") none "disk" false 13]

/-- The events of the four operations. -/
theorem job_events_rebuild_catalog_nightly :
    ∃ emitted : List (List JobEvent), emitted.length = 4 ∧ ∀ n ≤ 4,
      ((initialDb .reference "db").runAll .reference (nightlyOps.take n)).loggedJobEvents
        .reference =
          .ok (emitted.take n).flatten ∧
        (emitted.take n).flatten.foldlM JobCatalog.applyEvent .empty =
          .ok ((initialDb .reference "db").runAll .reference (nightlyOps.take n)).jobCatalog :=
  job_events_rebuild_catalog .reference "db" nightlyOps

end TraceDB
