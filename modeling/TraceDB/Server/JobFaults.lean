import TraceDB.Server.Jobs

/-!
# Job calls whose files cannot be written

A call of `ServerJobRuntime` changes the catalog in memory, appends its event to the log, and writes
the catalog.  Each of these two writes can fail at several points; the call then returns the error.

* `JobRuntime.callOn` : a call with a failure at one of these points, and what is in the files then.
* `failed_call_iff` : a call that fails so leaves the catalog as it was if and only if the job that
  it names was before as the call would have it.
* `failed_enqueue_remembered` : a job whose event could not be logged is in the catalog, and not in
  the files.
-/

namespace TraceDB

/-- The points at which `persist_event` and `persist_checkpoint` can fail. -/
inductive PersistPoint where
  | openEvents
  | encodeEvent
  /-- Some of the characters of the line are in the log. -/
  | writeEvent (written : ℕ)
  | syncEvents
  | encodeCheckpoint
  | writeTemporary
  | openTemporary
  | syncTemporary
  | renameTemporary
  | openParent
  | syncParent
  deriving DecidableEq

/-- A failure at a point, with the text of its error. -/
structure PersistFailure where
  point : PersistPoint
  error : String

namespace JobRuntime

variable (F : JobFormat) (runtime : JobRuntime)

/-- The log with a text at its end. -/
def appendEvents (text : String) : JobRuntime :=
  { runtime with files := { runtime.files with
      events := some (runtime.files.events.getD "" ++ text) } }

/-- `ServerJobRuntime::persist_event`, with a failure. -/
def persistEventOn (event : JobEvent) : Option PersistFailure → Except String Unit × JobRuntime
  | none => (.ok (), runtime.persistEvent F event)
  | some failure =>
    match failure.point with
    | .openEvents => (.error failure.error, runtime)
    | .encodeEvent => (.error failure.error, runtime.appendEvents "")
    | .writeEvent written =>
      (.error failure.error,
        runtime.appendEvents (String.ofList ((F.eventToString event ++ "\n").toList.take written)))
    | .syncEvents => (.error failure.error, runtime.persistEvent F event)
    | _ => (.ok (), runtime.persistEvent F event)

/-- `ServerJobRuntime::persist_checkpoint`, with a failure.  The temporary file is never read. -/
def persistCheckpointOn : Option PersistFailure → Except String Unit × JobRuntime
  | none => (.ok (), runtime.persistCheckpoint F)
  | some failure =>
    match failure.point with
    | .encodeCheckpoint | .writeTemporary | .openTemporary | .syncTemporary | .renameTemporary =>
      (.error failure.error, runtime)
    | .openParent | .syncParent => (.error failure.error, runtime.persistCheckpoint F)
    | _ => (.ok (), runtime.persistCheckpoint F)

/-- The end of a call that changed the catalog, with a failure. -/
def persistOn (event : JobEvent) (failure : Option PersistFailure) :
    Except String Unit × JobRuntime :=
  match runtime.persistEventOn F event failure with
  | (.error e, runtime) => (.error e, runtime)
  | (.ok (), runtime) => runtime.persistCheckpointOn F failure

/-- What a call does to the catalog before anything is written: the catalog, the job and the
event. -/
def Call.onCatalog (call : Call) (catalog : JobCatalog) :
    Except String (Option (JobCatalog × TraceJob × JobEvent)) :=
  match call with
  | .enqueue kind target idempotencyKey =>
    let (catalog, job) := catalog.enqueue kind target idempotencyKey
    .ok (some (catalog, job, .enqueued job))
  | .lease workerId kind nowMs leaseMs =>
    match catalog.leaseNextAt workerId kind nowMs leaseMs with
    | (_, none) => .ok none
    | (catalog, some job) =>
      .ok (some (catalog, job, .leased job.jobId workerId (job.leaseToken.getD "")
        (job.leaseExpiresAtMs.getD (saturatingAddU64 nowMs leaseMs))))
  | .heartbeat jobId leaseToken nowMs leaseMs => do
    let (catalog, job) ← catalog.heartbeat jobId leaseToken nowMs leaseMs
    .ok (some (catalog, job, .heartbeat jobId leaseToken
      (job.leaseExpiresAtMs.getD (saturatingAddU64 nowMs leaseMs))))
  | .complete jobId leaseToken => do
    let (catalog, job) ← catalog.complete jobId (some leaseToken)
    .ok (some (catalog, job, .completed jobId leaseToken))
  | .fail jobId leaseToken error permanent nowMs => do
    let (catalog, job) ← catalog.fail jobId leaseToken error permanent nowMs
    .ok (some (catalog, job, .failed jobId leaseToken error permanent nowMs))

/-- A call with a failure: what it returns, and the runtime afterwards. -/
def callOn (call : Call) (failure : Option PersistFailure) : JobReturn × JobRuntime :=
  match call.onCatalog runtime.catalog with
  | .error e => (.error e, runtime)
  | .ok none => (.ok none, runtime)
  | .ok (some (catalog, job, event)) =>
    match { runtime with catalog := catalog }.persistOn F event failure with
    | (.error e, runtime) => (.error e, runtime)
    | (.ok (), runtime) => (.ok (some job), runtime)

/-- Without a failure, a call is the one of `Server.Jobs`. -/
theorem callOn_none (call : Call) : (runtime.callOn F call none).2 = runtime.after F call := by
  cases call with
  | enqueue kind target idempotencyKey => rfl
  | lease workerId kind nowMs leaseMs =>
    simp only [callOn, Call.onCatalog, after, lease]
    rcases runtime.catalog.leaseNextAt workerId kind nowMs leaseMs with ⟨catalog, _ | job⟩ <;> rfl
  | heartbeat jobId leaseToken nowMs leaseMs =>
    simp only [callOn, Call.onCatalog, after, heartbeat]
    cases runtime.catalog.heartbeat jobId leaseToken nowMs leaseMs <;> rfl
  | complete jobId leaseToken =>
    simp only [callOn, Call.onCatalog, after, complete]
    cases runtime.catalog.complete jobId (some leaseToken) <;> rfl
  | fail jobId leaseToken error permanent nowMs =>
    simp only [callOn, Call.onCatalog, after, fail]
    cases runtime.catalog.fail jobId leaseToken error permanent nowMs <;> rfl

/-- Writing the files leaves the catalog alone, and returns the error of the failure. -/
theorem persistOn_failure (event : JobEvent) (failure : PersistFailure) :
    (runtime.persistOn F event (some failure)).1 = .error failure.error ∧
      (runtime.persistOn F event (some failure)).2.catalog = runtime.catalog := by
  obtain ⟨point, error⟩ := failure
  cases point <;> exact ⟨rfl, rfl⟩

end JobRuntime

open JobRuntime in
/-- The job that a call names is already as the call would have it. -/
def AlreadyDone (catalog : JobCatalog) : Call → Prop
  | .enqueue _ _ idempotencyKey => (catalog.jobs[idempotencyKey]?).isSome = true
  | .lease _ _ _ _ => False
  | .heartbeat jobId leaseToken nowMs leaseMs =>
    ∀ key job, catalog.jobMutForToken jobId (some leaseToken) = .ok (key, job) →
      job.leaseExpiresAtMs = some (saturatingAddU64 nowMs (max leaseMs 1))
  | .complete jobId leaseToken =>
    ∀ key job, catalog.jobMutForToken jobId (some leaseToken) = .ok (key, job) →
      job.status = .succeeded ∧ job.leaseExpiresAtMs = none ∧ job.nextAttemptAfterMs = none
  | .fail jobId leaseToken error permanent nowMs =>
    ∀ key job, catalog.jobMutForToken jobId leaseToken = .ok (key, job) →
      job.lastError = some error ∧ job.leaseExpiresAtMs = none ∧
      job.nextAttemptAfterMs = some nowMs ∧
        job.status = if permanent then .failedPermanent
          else if job.attempts ≥ job.maxAttempts then .deadLettered else .failedRetryable

namespace JobCatalog

variable {catalog catalog' : JobCatalog}

/-- Writing a job that is stored changes the catalog, unless it is the same. -/
theorem set_eq_self_iff {key : String} {job job' : TraceJob} (h : catalog.jobs[key]? = some job) :
    catalog.set key job' = catalog ↔ job' = job := by
  constructor
  · intro heq
    have hget := getElem?_set_self catalog key job'
    rw [heq, h] at hget
    exact (Option.some.inj hget).symm
  · rintro rfl
    obtain ⟨jobs⟩ := catalog
    refine congrArg JobCatalog.mk (Std.ExtTreeMap.ext_getElem? fun k => ?_)
    rw [Std.ExtTreeMap.getElem?_insert]
    split_ifs with hk
    · rw [← Std.LawfulEqCmp.eq_of_compare hk, h]
    · rfl

/-- A change of a job by its id changes the catalog, unless the job is the same. -/
theorem changing_eq_self_iff {jobId : String} {leaseToken : Option String}
    {change : TraceJob → TraceJob} {job : TraceJob}
    (h : catalog.changing jobId leaseToken change = .ok (catalog', job)) :
    catalog' = catalog ↔ ∀ key job, catalog.jobMutForToken jobId leaseToken = .ok (key, job) →
      change job = job := by
  obtain ⟨⟨key, found⟩, hfound, h⟩ := Except.bind_eq_ok_iff.1 h
  obtain ⟨rfl, rfl⟩ := Prod.mk.inj (Except.ok.inj h)
  rw [set_eq_self_iff (jobMutForToken_spec hfound).1]
  constructor
  · intro heq key' job' hfound'
    obtain ⟨-, rfl⟩ := Prod.mk.inj (Except.ok.inj (hfound.symm.trans hfound'))
    exact heq
  · exact fun hsame => hsame key found hfound

end JobCatalog

open JobRuntime

/-- When a call leaves the catalog as it was. -/
theorem onCatalog_eq_self_iff {call : Call} {catalog catalog' : JobCatalog} {job : TraceJob}
    {event : JobEvent} (h : call.onCatalog catalog = .ok (some (catalog', job, event))) :
    catalog' = catalog ↔ AlreadyDone catalog call := by
  cases call with
  | enqueue kind target idempotencyKey =>
    obtain ⟨rfl, -⟩ := Prod.mk.inj (Option.some.inj (Except.ok.inj h))
    show (catalog.orInsert (TraceJob.new kind target idempotencyKey)).1 = catalog ↔
      (catalog.jobs[idempotencyKey]?).isSome = true
    unfold JobCatalog.orInsert
    cases hjob : catalog.jobs[(TraceJob.new kind target idempotencyKey).idempotencyKey]? with
    | some existing =>
      have hsome : (catalog.jobs[idempotencyKey]?).isSome = true := by
        rw [show catalog.jobs[idempotencyKey]? = some existing from hjob]
        rfl
      exact iff_of_true rfl hsome
    | none =>
      have hnone : catalog.jobs[idempotencyKey]? = none := hjob
      refine iff_of_false (fun heq => ?_) (by simp [hnone])
      have hget := JobCatalog.getElem?_set_self catalog idempotencyKey
        (.new kind target idempotencyKey)
      rw [show catalog.set idempotencyKey (.new kind target idempotencyKey) = catalog from heq,
        hnone] at hget
      cases hget
  | lease workerId kind nowMs leaseMs =>
    refine iff_of_false (fun heq => ?_) id
    rcases catalog.leaseNextAt_cases workerId kind nowMs leaseMs with hnone |
      ⟨key, found, hfound, -, -, hsome⟩
    · rw [Call.onCatalog, hnone] at h
      cases h
    · rw [Call.onCatalog, hsome] at h
      obtain ⟨hcatalog, -⟩ := Prod.mk.inj (Option.some.inj (Except.ok.inj h))
      rw [← hcatalog, JobCatalog.set_eq_self_iff hfound] at heq
      -- A lease counts one more attempt, also when the counter wraps.
      have hattempts : found.attempts + 1 = found.attempts := congrArg TraceJob.attempts heq
      simp at hattempts
  | heartbeat jobId leaseToken nowMs leaseMs =>
    obtain ⟨⟨changed, found⟩, hchanged, h⟩ := Except.bind_eq_ok_iff.1 h
    obtain ⟨rfl, -⟩ := Prod.mk.inj (Option.some.inj (Except.ok.inj h))
    rw [JobCatalog.heartbeat_eq] at hchanged
    rw [JobCatalog.changing_eq_self_iff hchanged]
    refine forall_congr' fun key => forall_congr' fun job => imp_congr_right fun _ => ?_
    obtain ⟨⟩ := job
    simp [TraceJob.extended, eq_comm]
  | complete jobId leaseToken =>
    obtain ⟨⟨changed, found⟩, hchanged, h⟩ := Except.bind_eq_ok_iff.1 h
    obtain ⟨rfl, -⟩ := Prod.mk.inj (Option.some.inj (Except.ok.inj h))
    rw [JobCatalog.complete_eq] at hchanged
    rw [JobCatalog.changing_eq_self_iff hchanged]
    refine forall_congr' fun key => forall_congr' fun job => imp_congr_right fun _ => ?_
    obtain ⟨⟩ := job
    simp [TraceJob.completed, eq_comm]
  | fail jobId leaseToken error permanent nowMs =>
    obtain ⟨⟨changed, found⟩, hchanged, h⟩ := Except.bind_eq_ok_iff.1 h
    obtain ⟨rfl, -⟩ := Prod.mk.inj (Option.some.inj (Except.ok.inj h))
    rw [JobCatalog.fail_eq] at hchanged
    rw [JobCatalog.changing_eq_self_iff hchanged]
    refine forall_congr' fun key => forall_congr' fun job => imp_congr_right fun _ => ?_
    obtain ⟨⟩ := job
    simp only [TraceJob.failed, TraceJob.mk.injEq, true_and, and_true]
    constructor
    · rintro ⟨hstatus, herror, hexpires, hnext⟩
      exact ⟨herror.symm, hexpires.symm, hnext.symm, hstatus.symm⟩
    · rintro ⟨herror, hexpires, hnext, hstatus⟩
      exact ⟨hstatus.symm, herror.symm, hexpires.symm, hnext.symm⟩

/-- A call whose event or catalog cannot be written returns an error; it leaves the catalog in
memory as it was if and only if the job that it names was before as the call would have it. -/
theorem failed_call_iff (F : JobFormat) (runtime : JobRuntime) (call : Call)
    (failure : PersistFailure) {catalog : JobCatalog} {job : TraceJob} {event : JobEvent}
    (hwrites : call.onCatalog runtime.catalog = .ok (some (catalog, job, event))) :
    ((∃ e, (runtime.callOn F call (some failure)).1 = .error e) ∧
        (runtime.callOn F call (some failure)).2.catalog = runtime.catalog) ↔
      AlreadyDone runtime.catalog call := by
  obtain ⟨herror, hcatalog⟩ := persistOn_failure F { runtime with catalog := catalog } event failure
  have hcall : runtime.callOn F call (some failure) =
      (.error failure.error,
        (persistOn F { runtime with catalog := catalog } event (some failure)).2) := by
    have hpersist : persistOn F { runtime with catalog := catalog } event (some failure) =
        (.error failure.error,
          (persistOn F { runtime with catalog := catalog } event (some failure)).2) :=
      Prod.ext herror rfl
    rw [callOn, hwrites]
    dsimp only
    rw [hpersist]
  rw [hcall, and_iff_right ⟨_, rfl⟩, ← onCatalog_eq_self_iff hwrites]
  exact Eq.congr_left hcatalog

/-- The disk is full when the log is opened. -/
def diskFull : PersistFailure := ⟨.openEvents, "No space left on device (os error 28)"⟩

/-- Putting a job into the queue once more changes nothing, also when the log cannot be opened. -/
theorem enqueue_again_unchanged :
    let runtime := (JobRuntime.initial .reference).after .reference
      (.enqueue .verifyDatabase "docs" "nightly")
    (runtime.callOn .reference (.enqueue .verifyDatabase "docs" "nightly")
      (some diskFull)).2.catalog =
      runtime.catalog := by
  intro runtime
  have hknown : (runtime.catalog.jobs["nightly"]?).isSome = true := by decide +kernel
  exact ((failed_call_iff .reference runtime
    (.enqueue .verifyDatabase "docs" "nightly") diskFull rfl).2
    hknown).2

/-- A job whose event could not be logged is in the catalog, and opening the files again forgets
it. -/
theorem failed_enqueue_remembered :
    let failed := (JobRuntime.initial .reference).callOn .reference
      (.enqueue .verifyDatabase "docs" "nightly") (some diskFull)
    failed.1 = .error diskFull.error ∧
      failed.2.catalog ≠ (JobRuntime.initial .reference).catalog ∧
      (failed.2.catalog.jobs["nightly"]?).isSome = true ∧
      ∃ opened, JobRuntime.open .reference failed.2.files = .ok opened ∧
        (opened.catalog.jobs["nightly"]?).isSome = false := by
  intro failed
  have hjob : (failed.2.catalog.jobs["nightly"]?).isSome = true := by decide +kernel
  have hnone : ((JobRuntime.initial .reference).catalog.jobs["nightly"]?).isSome = false :=
    by decide +kernel
  refine ⟨rfl, fun heq => ?_, hjob, _, (JobRuntime.logged_initial .reference).open_self ?_, hnone⟩
  · rw [heq, hnone] at hjob
    cases hjob
  intro key job hjob
  simp [JobRuntime.initial, JobCatalog.empty] at hjob

end TraceDB
