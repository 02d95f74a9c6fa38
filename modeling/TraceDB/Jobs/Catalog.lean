import TraceDB.Core.Value
import TraceDB.Data.Bytes
import TraceDB.Data.Except

/-!
# The job catalog

`tracedb-jobs`: a catalog of background jobs, keyed by idempotency key, with leases.  The engine
changes the catalog through operations (`enqueue`, `leaseNextAt`, `heartbeat`, `complete`, `fail`)
and logs one `JobEvent` for each; on open it rebuilds the catalog by folding `applyEvent` over the
logged events.

* `JobCatalog.Inv` : every job is stored under its own idempotency key, and its job id is the one
  `TraceJob::new` gives to its kind and key.  Job ids then identify jobs
  (`JobCatalog.Inv.keyForJobId_eq`).
* `JobCatalog.applyEvent_enqueue` and its siblings : replaying the event of an operation gives the
  catalog the operation computed.

Counters of 32 bits are `UInt32`, which wraps as the release build does.
-/

namespace TraceDB

/-- `JobKind`. -/
inductive JobKind where
  | generateEmbedding
  | regenerateEmbedding
  | buildTextIndex
  | buildVectorIndex
  | compactSegment
  | vacuumArtifacts
  | reindexTable
  | validatePolicy
  | refreshSummary
  | featureRefresh
  | exportSubject
  | purgeSubject
  | backupDatabase
  | restoreVerification
  | verifyDatabase
  deriving DecidableEq, Repr

/-- `JobStatus`. -/
inductive JobStatus where
  | queued
  | leased
  | running
  | committingResult
  | succeeded
  | failedRetryable
  | failedPermanent
  | canceled
  | deadLettered
  deriving DecidableEq, Repr

/-- `kind_name`. -/
def kindName : JobKind → String
  | .generateEmbedding => "generate_embedding"
  | .regenerateEmbedding => "regenerate_embedding"
  | .buildTextIndex => "build_text_index"
  | .buildVectorIndex => "build_vector_index"
  | .compactSegment => "compact_segment"
  | .vacuumArtifacts => "vacuum_artifacts"
  | .reindexTable => "reindex_table"
  | .validatePolicy => "validate_policy"
  | .refreshSummary => "refresh_summary"
  | .featureRefresh => "feature_refresh"
  | .exportSubject => "export_subject"
  | .purgeSubject => "purge_subject"
  | .backupDatabase => "backup_database"
  | .restoreVerification => "restore_verification"
  | .verifyDatabase => "verify_database"

/-- The job id `TraceJob::new` builds. -/
def jobIdOf (kind : JobKind) (idempotencyKey : String) : String :=
  "job:" ++ kindName kind ++ ":" ++ idempotencyKey

/-- `u64::saturating_add`. -/
def saturatingAddU64 (a b : ℕ) : ℕ := min (a + b) (2 ^ 64 - 1)

/-- `TraceJob`. -/
structure TraceJob where
  jobId : String
  kind : JobKind
  target : String
  idempotencyKey : String
  leaseOwner : Option String
  attempts : UInt32
  maxAttempts : UInt32
  status : JobStatus
  lastError : Option String
  leaseToken : Option String
  leaseExpiresAtMs : Option ℕ
  nextAttemptAfterMs : Option ℕ
  artifactPath : Option String
  artifactChecksum : Option Digest
  deriving DecidableEq

namespace TraceJob

/-- `TraceJob::new`. -/
def new (kind : JobKind) (target idempotencyKey : String) : TraceJob where
  jobId := jobIdOf kind idempotencyKey
  kind := kind
  target := target
  idempotencyKey := idempotencyKey
  leaseOwner := none
  attempts := 0
  maxAttempts := 3
  status := .queued
  lastError := none
  leaseToken := none
  leaseExpiresAtMs := none
  nextAttemptAfterMs := none
  artifactPath := none
  artifactChecksum := none

/-- `TraceJob::lease_at`. -/
def leaseAt (job : TraceJob) (workerId : String) (nowMs leaseMs : ℕ) : TraceJob :=
  { job with
    leaseToken := some ("lease:" ++ job.jobId ++ ":" ++ toString (job.attempts + 1).toNat)
    leaseExpiresAtMs := some (saturatingAddU64 nowMs (max leaseMs 1))
    leaseOwner := some workerId
    attempts := job.attempts + 1
    status := .leased
    nextAttemptAfterMs := none }

end TraceJob

/-- `JobEvent`. -/
inductive JobEvent where
  | enqueued (job : TraceJob)
  | leased (jobId workerId leaseToken : String) (leaseExpiresAtMs : ℕ)
  | heartbeat (jobId leaseToken : String) (leaseExpiresAtMs : ℕ)
  | completed (jobId leaseToken : String)
  | failed (jobId : String) (leaseToken : Option String) (error : String) (permanent : Bool)
      (nextAttemptAfterMs : ℕ)
  deriving DecidableEq

/-- `JobCatalog`: jobs by idempotency key. -/
structure JobCatalog where
  jobs : Std.ExtTreeMap String TraceJob compare
  deriving DecidableEq

/-- `job_is_leasable`. -/
def jobIsLeasable (job : TraceJob) (nowMs : ℕ) : Bool :=
  match job.status with
  | .queued => true
  | .failedRetryable =>
    match job.nextAttemptAfterMs with
    | some readyAt => decide (readyAt ≤ nowMs)
    | none => true
  | .leased | .running =>
    match job.leaseExpiresAtMs with
    | some expiresAt => decide (expiresAt ≤ nowMs)
    | none => false
  | _ => false

namespace JobCatalog

/-- `JobCatalog::default`. -/
def empty : JobCatalog := ⟨∅⟩

variable (catalog : JobCatalog)

/-- `self.jobs.insert(key, job)`. -/
def set (key : String) (job : TraceJob) : JobCatalog := ⟨catalog.jobs.insert key job⟩

/-- `self.jobs.entry(job.idempotency_key).or_insert(job)`: the catalog afterwards, and the job the
entry holds. -/
def orInsert (job : TraceJob) : JobCatalog × TraceJob :=
  match catalog.jobs[job.idempotencyKey]? with
  | some existing => (catalog, existing)
  | none => (catalog.set job.idempotencyKey job, job)

/-- `JobCatalog::key_for_job_id`, with the job found. -/
def keyForJobId (jobId : String) : Option (String × TraceJob) :=
  catalog.jobs.toList.find? fun e => e.2.jobId = jobId

/-- `JobCatalog::job_mut_for_token`: the key and the job the caller goes on to change. -/
def jobMutForToken (jobId : String) (leaseToken : Option String) :
    Except String (String × TraceJob) :=
  match catalog.keyForJobId jobId with
  | none => .error s!"unknown job {jobId}"
  | some (key, job) =>
    match leaseToken with
    | none => .ok (key, job)
    | some token =>
      if job.leaseToken ≠ some token then .error s!"invalid lease token for {jobId}"
      else .ok (key, job)

/-- `JobCatalog::enqueue`. -/
def enqueue (kind : JobKind) (target idempotencyKey : String) : JobCatalog × TraceJob :=
  catalog.orInsert (TraceJob.new kind target idempotencyKey)

/-- `JobCatalog::lease_next_at`. -/
def leaseNextAt (workerId : String) (kind : JobKind) (nowMs leaseMs : ℕ) :
    JobCatalog × Option TraceJob :=
  match catalog.jobs.toList.find? fun e => e.2.kind = kind && jobIsLeasable e.2 nowMs with
  | none => (catalog, none)
  | some (key, job) =>
    let leased := job.leaseAt workerId nowMs leaseMs
    (catalog.set key leased, some leased)

/-- `JobCatalog::heartbeat`. -/
def heartbeat (jobId leaseToken : String) (nowMs leaseMs : ℕ) :
    Except String (JobCatalog × TraceJob) := do
  let (key, job) ← catalog.jobMutForToken jobId (some leaseToken)
  let job := { job with leaseExpiresAtMs := some (saturatingAddU64 nowMs (max leaseMs 1)) }
  .ok (catalog.set key job, job)

/-- `JobCatalog::complete`. -/
def complete (jobId : String) (leaseToken : Option String) :
    Except String (JobCatalog × TraceJob) := do
  let (key, job) ← catalog.jobMutForToken jobId leaseToken
  let job := { job with
    status := .succeeded, leaseExpiresAtMs := none, nextAttemptAfterMs := none }
  .ok (catalog.set key job, job)

/-- `JobCatalog::fail`. -/
def fail (jobId : String) (leaseToken : Option String) (error : String) (permanent : Bool)
    (nextAttemptAfterMs : ℕ) : Except String (JobCatalog × TraceJob) := do
  let (key, job) ← catalog.jobMutForToken jobId leaseToken
  let job := { job with
    lastError := some error
    leaseExpiresAtMs := none
    nextAttemptAfterMs := some nextAttemptAfterMs
    status := if permanent then .failedPermanent
      else if job.attempts ≥ job.maxAttempts then .deadLettered else .failedRetryable }
  .ok (catalog.set key job, job)

/-- `JobCatalog::apply_event`. -/
def applyEvent : JobEvent → Except String JobCatalog
  | .enqueued job => .ok (catalog.orInsert job).1
  | .leased jobId workerId leaseToken leaseExpiresAtMs =>
    match catalog.keyForJobId jobId with
    | none => .error s!"unknown job {jobId}"
    | some (key, job) => .ok (catalog.set key { job with
        leaseOwner := some workerId
        leaseToken := some leaseToken
        leaseExpiresAtMs := some leaseExpiresAtMs
        nextAttemptAfterMs := none
        attempts := job.attempts + 1
        status := .leased })
  | .heartbeat jobId leaseToken leaseExpiresAtMs => do
    let (key, job) ← catalog.jobMutForToken jobId (some leaseToken)
    .ok (catalog.set key { job with leaseExpiresAtMs := some leaseExpiresAtMs })
  | .completed jobId leaseToken => do
    let (catalog, _) ← catalog.complete jobId (some leaseToken)
    .ok catalog
  | .failed jobId leaseToken error permanent nextAttemptAfterMs => do
    let (catalog, _) ← catalog.fail jobId leaseToken error permanent nextAttemptAfterMs
    .ok catalog

/-! ### Job ids identify jobs -/

/-- Every job is stored under its idempotency key and carries the id of its kind and key. -/
def Inv : Prop :=
  ∀ key job, catalog.jobs[key]? = some job →
    job.idempotencyKey = key ∧ job.jobId = jobIdOf job.kind key

variable {catalog}

theorem colon_not_mem_kindName (kind : JobKind) : ':' ∉ (kindName kind).toList := by
  cases kind <;> decide

theorem jobIdOf_inj {k k' : JobKind} {key key' : String} (h : jobIdOf k key = jobIdOf k' key') :
    kindName k = kindName k' ∧ key = key' := by
  have hl := congrArg String.toList h
  simp only [jobIdOf, String.toList_append, List.append_assoc] at hl
  obtain ⟨hk, hkey⟩ := Text.append_sep_inj (colon_not_mem_kindName k) (colon_not_mem_kindName k')
    (List.append_cancel_left hl)
  exact ⟨String.toList_inj.1 hk, String.toList_inj.1 hkey⟩

theorem inv_empty : empty.Inv := by
  intro key job h
  simp [empty] at h

@[simp] theorem getElem?_set_self (catalog : JobCatalog) (key : String) (job : TraceJob) :
    (catalog.set key job).jobs[key]? = some job := by
  simp [JobCatalog.set]

/-- A job of the catalog after a job is written is that job, or was there before. -/
theorem getElem?_set_cases {key k : String} {job j : TraceJob}
    (h : (catalog.set key job).jobs[k]? = some j) :
    (k = key ∧ j = job) ∨ (k ≠ key ∧ catalog.jobs[k]? = some j) := by
  simp only [JobCatalog.set, Std.ExtTreeMap.getElem?_insert] at h
  split_ifs at h with hk
  · exact .inl ⟨(Std.LawfulEqCmp.eq_of_compare hk).symm, (Option.some.inj h).symm⟩
  · refine .inr ⟨?_, h⟩
    rintro rfl
    exact hk (by simp)

theorem getElem?_set_of_ne {key k : String} (job : TraceJob) (h : k ≠ key) :
    (catalog.set key job).jobs[k]? = catalog.jobs[k]? := by
  rw [JobCatalog.set, Std.ExtTreeMap.getElem?_insert, if_neg]
  exact fun hk => h (Std.LawfulEqCmp.eq_of_compare hk).symm

/-- Changing a job without touching its kind, key and id keeps the invariant. -/
theorem Inv.set (hc : catalog.Inv) {key : String} {job job' : TraceJob}
    (h : catalog.jobs[key]? = some job) (hkey : job'.idempotencyKey = job.idempotencyKey)
    (hid : job'.jobId = job.jobId) (hkind : job'.kind = job.kind) : (catalog.set key job').Inv := by
  intro k j hj
  rcases getElem?_set_cases hj with ⟨rfl, rfl⟩ | ⟨-, hold⟩
  · rw [hkey, hid, hkind]
    exact hc _ _ h
  · exact hc k j hold

theorem getElem?_of_find? {p : String × TraceJob → Bool} {key : String} {job : TraceJob}
    (h : catalog.jobs.toList.find? p = some (key, job)) : catalog.jobs[key]? = some job :=
  Std.ExtTreeMap.mem_toList_iff_getElem?_eq_some.1 (List.mem_of_find?_eq_some h)

theorem keyForJobId_spec {jobId key : String} {job : TraceJob}
    (h : catalog.keyForJobId jobId = some (key, job)) :
    catalog.jobs[key]? = some job ∧ job.jobId = jobId :=
  ⟨getElem?_of_find? h, by simpa using List.find?_some h⟩

/-- A stored job is found by its job id. -/
theorem Inv.keyForJobId_eq (hc : catalog.Inv) {key : String} {job : TraceJob}
    (h : catalog.jobs[key]? = some job) : catalog.keyForJobId job.jobId = some (key, job) := by
  cases hf : catalog.keyForJobId job.jobId with
  | none =>
    have := List.find?_eq_none.1 hf (key, job)
      (Std.ExtTreeMap.mem_toList_iff_getElem?_eq_some.2 h)
    simp at this
  | some e =>
    obtain ⟨key', job'⟩ := e
    obtain ⟨h', hid⟩ := keyForJobId_spec hf
    rw [(hc _ _ h').2, (hc _ _ h).2] at hid
    obtain rfl := (jobIdOf_inj hid).2
    rw [h'] at h
    rw [Option.some.inj h]

theorem jobMutForToken_spec {jobId : String} {token : Option String} {key : String}
    {job : TraceJob} (h : catalog.jobMutForToken jobId token = .ok (key, job)) :
    catalog.jobs[key]? = some job ∧ job.jobId = jobId := by
  unfold jobMutForToken at h
  cases hk : catalog.keyForJobId jobId with
  | none => simp [hk] at h
  | some e =>
    obtain ⟨key', job'⟩ := e
    simp only [hk] at h
    have heq : (key', job') = (key, job) := by
      cases token with
      | none => exact Except.ok.inj h
      | some t => exact Except.ok.inj (Except.guard_eq_ok_iff.1 h).2
    obtain ⟨rfl, rfl⟩ := Prod.mk.inj heq
    exact keyForJobId_spec hk

/-! ### Replaying the event of an operation -/

theorem applyEvent_enqueue (hc : catalog.Inv) (kind : JobKind) (target key : String) :
    catalog.applyEvent (.enqueued (catalog.enqueue kind target key).2) =
        .ok (catalog.enqueue kind target key).1 ∧
      (catalog.enqueue kind target key).1.Inv := by
  simp only [enqueue, orInsert, applyEvent, TraceJob.new]
  cases h : catalog.jobs[key]? with
  | some existing =>
    have hk := (hc _ _ h).1
    refine ⟨?_, hc⟩
    simp only [hk, h]
  | none =>
    refine ⟨by simp only [h], ?_⟩
    intro k j hj
    rcases getElem?_set_cases hj with ⟨rfl, rfl⟩ | ⟨-, hold⟩
    · exact ⟨rfl, rfl⟩
    · exact hc k j hold

/-- `leaseNextAt` leases a stored job; replaying the lease with the token and expiry it reports
gives the same catalog. -/
theorem applyEvent_lease (hc : catalog.Inv) {workerId : String} {kind : JobKind} {nowMs leaseMs : ℕ}
    {catalog' : JobCatalog} {job : TraceJob}
    (h : catalog.leaseNextAt workerId kind nowMs leaseMs = (catalog', some job)) :
    catalog.applyEvent (.leased job.jobId workerId (job.leaseToken.getD "")
        (job.leaseExpiresAtMs.getD (saturatingAddU64 nowMs leaseMs))) = .ok catalog' ∧
      catalog'.Inv := by
  unfold leaseNextAt at h
  split at h
  · simp at h
  · rename_i key found hf
    simp only [Prod.mk.injEq, Option.some.injEq] at h
    obtain ⟨rfl, rfl⟩ := h
    have hget := getElem?_of_find? hf
    have hid : (found.leaseAt workerId nowMs leaseMs).jobId = found.jobId := rfl
    refine ⟨?_, hc.set hget rfl rfl rfl⟩
    simp only [applyEvent, hid, hc.keyForJobId_eq hget]
    rfl

theorem applyEvent_heartbeat (hc : catalog.Inv) {jobId token : String} {nowMs leaseMs : ℕ}
    {catalog' : JobCatalog} {job : TraceJob}
    (h : catalog.heartbeat jobId token nowMs leaseMs = .ok (catalog', job)) :
    catalog.applyEvent (.heartbeat jobId token
        (job.leaseExpiresAtMs.getD (saturatingAddU64 nowMs leaseMs))) = .ok catalog' ∧
      catalog'.Inv := by
  rw [heartbeat, Except.bind_eq_ok_iff] at h
  obtain ⟨⟨key, found⟩, hfound, h⟩ := h
  obtain ⟨rfl, rfl⟩ := Prod.mk.inj (Except.ok.inj h)
  refine ⟨?_, hc.set (jobMutForToken_spec hfound).1 rfl rfl rfl⟩
  simp only [applyEvent, hfound, Except.ok_bind, Option.getD_some]

theorem complete_inv (hc : catalog.Inv) {jobId : String} {token : Option String}
    {catalog' : JobCatalog} {job : TraceJob}
    (h : catalog.complete jobId token = .ok (catalog', job)) : catalog'.Inv := by
  rw [complete, Except.bind_eq_ok_iff] at h
  obtain ⟨⟨key, found⟩, hfound, h⟩ := h
  obtain ⟨rfl, rfl⟩ := Prod.mk.inj (Except.ok.inj h)
  exact hc.set (jobMutForToken_spec hfound).1 rfl rfl rfl

theorem applyEvent_complete (hc : catalog.Inv) {jobId token : String} {catalog' : JobCatalog}
    {job : TraceJob} (h : catalog.complete jobId (some token) = .ok (catalog', job)) :
    catalog.applyEvent (.completed jobId token) = .ok catalog' ∧ catalog'.Inv := by
  refine ⟨?_, complete_inv hc h⟩
  simp only [applyEvent, h, Except.ok_bind]

theorem fail_inv (hc : catalog.Inv) {jobId : String} {token : Option String} {error : String}
    {permanent : Bool} {nextAttemptAfterMs : ℕ} {catalog' : JobCatalog} {job : TraceJob}
    (h : catalog.fail jobId token error permanent nextAttemptAfterMs = .ok (catalog', job)) :
    catalog'.Inv := by
  rw [fail, Except.bind_eq_ok_iff] at h
  obtain ⟨⟨key, found⟩, hfound, h⟩ := h
  obtain ⟨rfl, rfl⟩ := Prod.mk.inj (Except.ok.inj h)
  exact hc.set (jobMutForToken_spec hfound).1 rfl rfl rfl

theorem applyEvent_fail (hc : catalog.Inv) {jobId : String} {token : Option String} {error : String}
    {permanent : Bool} {nextAttemptAfterMs : ℕ} {catalog' : JobCatalog} {job : TraceJob}
    (h : catalog.fail jobId token error permanent nextAttemptAfterMs = .ok (catalog', job)) :
    catalog.applyEvent (.failed jobId token error permanent nextAttemptAfterMs) = .ok catalog' ∧
      catalog'.Inv := by
  refine ⟨?_, fail_inv hc h⟩
  simp only [applyEvent, h, Except.ok_bind]

end JobCatalog

end TraceDB
